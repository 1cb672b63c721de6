import CodeTree.Proofs.Lexical.Quoted
import CodeTree.Proofs.Lexical.Words

/-! # Strings and comments in the text

Whether a place of a Lua text is code or part of a string can be told by reading the text from its
start. Reading goes wrong at `--`, which opens a comment, and at `[[` and `[=`, which open a long
bracket; in a string it goes wrong at a raw line break and at an unknown escape.

* `scan`: the values of the strings of a text, if reading it never goes wrong.
* `Scans u ss`: reading `u` between other code meets the strings `ss`.
* `scans_quote`: a quoted text is one string. -/

namespace CodeTree.Lua

set_option autoImplicit false

/-! ## Reading a text for its strings -/

/-- What has been read: code up to the character `last`, or part of a string, and the values of the
strings before. -/
inductive Scan
  | code (last : Char) (found : List (List UInt8))
  | quoted (quote : Char) (reading : Reading) (found : List (List UInt8))
  | failed

/-- Whether two characters of code open a comment or a long bracket. -/
def opensComment (last c : Char) : Bool :=
  c == '-' && last == '-' || (c == '[' || c == '=') && last == '['

def isQuote (c : Char) : Bool := c == '"' || c == '\''

namespace Scan

def ofReading (quote : Char) (found : List (List UInt8)) : Reading → Scan
  | .closed value => code quote (found ++ [value])
  | .broken => failed
  | reading => quoted quote reading found

def step : Scan → Char → Scan
  | code last found, c =>
    if opensComment last c then failed
    else if isQuote c then quoted c (.plain []) found
    else code c found
  | quoted quote reading found, c => ofReading quote found (reading.step quote c)
  | failed, _ => failed

end Scan

/-- The values of the strings of a text, if no comment or long bracket is opened and every string is
closed on its line. -/
def scan (text : List Char) : Option (List (List UInt8)) :=
  match text.foldl Scan.step (.code ' ' []) with
  | .code _ found => some found
  | _ => none

/-! ## Texts between other code -/

def isCalm (c : Char) : Prop := c ≠ '-' ∧ c ≠ '['

/-- Reading `u` behind a calm character meets the strings `ss` and ends in a calm character. -/
def Scans (u : List Char) (ss : List (List UInt8)) : Prop :=
  ∀ a found, isCalm a → ∃ b, isCalm b ∧ u.foldl Scan.step (.code a found) = .code b (found ++ ss)

/-- Whether reading `u` as code behind `a` meets no string and ends in a calm character. -/
def isSilent (a : Char) : List Char → Bool
  | [] => a != '-' && a != '['
  | c :: cs => !opensComment a c && !isQuote c && isSilent c cs

variable {u v : List Char} {ss ts : List (List UInt8)}

theorem opensComment_of_isCalm {a : Char} (h : isCalm a) (c : Char) : opensComment a c = false := by
  simp [opensComment, h.1, h.2]

theorem Scans.nil : Scans [] [] := fun a found h => ⟨a, h, by simp⟩

theorem Scans.append (hu : Scans u ss) (hv : Scans v ts) : Scans (u ++ v) (ss ++ ts) := by
  intro a found ha
  obtain ⟨b, hb, hu⟩ := hu a found ha
  obtain ⟨c, hc, hv⟩ := hv b (found ++ ss) hb
  refine ⟨c, hc, ?_⟩
  rw [List.foldl_append, hu, hv, List.append_assoc]

theorem Scans.silent_append (hu : Scans u []) (hv : Scans v ts) : Scans (u ++ v) ts := by
  simpa using hu.append hv

theorem Scans.append_silent (hu : Scans u ss) (hv : Scans v []) : Scans (u ++ v) ss := by
  simpa using hu.append hv

/-- Behind a character that opens nothing together with the first one, reading goes as usual. -/
theorem Scans.foldl (hu : Scans u ss) {a : Char} (h : ∀ c ∈ u.head?, opensComment a c = false)
    (hne : u ≠ []) (found : List (List UInt8)) :
    ∃ b, isCalm b ∧ u.foldl Scan.step (.code a found) = .code b (found ++ ss) := by
  cases u with
  | nil => exact absurd rfl hne
  | cons c cs =>
    obtain ⟨b, hb, hscan⟩ := hu ' ' found ⟨by decide, by decide⟩
    refine ⟨b, hb, ?_⟩
    have hstep : Scan.step (.code a found) c = Scan.step (.code ' ' found) c := by
      simp [Scan.step, h c (by simp), opensComment_of_isCalm (a := ' ') ⟨by decide, by decide⟩]
    rw [List.foldl_cons, hstep, ← List.foldl_cons, hscan]

theorem foldl_of_isSilent {a : Char} (h : isSilent a u = true) (found : List (List UInt8)) :
    ∃ b, isCalm b ∧ u.foldl Scan.step (.code a found) = .code b found := by
  induction u generalizing a with
  | nil =>
    refine ⟨a, ?_, rfl⟩
    simpa [isSilent, isCalm] using h
  | cons c cs ih =>
    simp only [isSilent, Bool.and_eq_true, Bool.not_eq_true'] at h
    obtain ⟨⟨hopens, hquote⟩, hrest⟩ := h
    have hstep : Scan.step (.code a found) c = .code c found := by simp [Scan.step, hopens, hquote]
    rw [List.foldl_cons, hstep]
    exact ih hrest

theorem scans_of_isSilent (h : isSilent ' ' u = true) : Scans u [] := by
  intro a found ha
  cases u with
  | nil => exact Scans.nil a found ha
  | cons c cs =>
    have hsilent : isSilent a (c :: cs) = true := by
      simp only [isSilent, Bool.and_eq_true] at h ⊢
      exact ⟨⟨by rw [opensComment_of_isCalm ha]; rfl, h.1.2⟩, h.2⟩
    simpa using foldl_of_isSilent hsilent found

def isInert (c : Char) : Bool := isWordChar c || c == '.'

theorem isSilent_of_forall_isInert {a : Char} (ha : isCalm a) (h : ∀ c ∈ u, isInert c = true) :
    isSilent a u = true := by
  induction u generalizing a with
  | nil => simpa [isSilent, isCalm] using ha
  | cons c cs ih =>
    have hc : isInert c = true := h c (by simp)
    have hcalm : isCalm c := by
      constructor <;> (rintro rfl; exact absurd hc (by decide))
    have hquote : isQuote c = false := by
      rw [isQuote, Bool.or_eq_false_iff, beq_eq_false_iff_ne, beq_eq_false_iff_ne]
      constructor <;> (rintro rfl; exact absurd hc (by decide))
    simp [isSilent, opensComment_of_isCalm ha, hquote,
      ih hcalm fun d hd => h d (List.mem_cons_of_mem c hd)]

theorem scans_of_forall_isInert (h : ∀ c ∈ u, isInert c = true) : Scans u [] :=
  scans_of_isSilent (isSilent_of_forall_isInert ⟨by decide, by decide⟩ h)

theorem scans_name {name : String} (h : isIdentifier name) : Scans name.toList [] :=
  scans_of_forall_isInert fun c hc => by simp [isInert, isWordChar_of_mem h hc]

/-! ## Strings -/

theorem foldl_step_quoted {quote : Char} {found : List (List UInt8)} {value : List UInt8}
    {r : Reading} (hr : ∀ b, r ≠ .closed b) (h : u.foldl (Reading.step quote) r = .closed value) :
    u.foldl Scan.step (.quoted quote r found) = .code quote (found ++ [value]) := by
  induction u generalizing r with
  | nil => exact absurd h (hr value)
  | cons c cs ih =>
    rw [List.foldl_cons] at h ⊢
    cases hstep : r.step quote c with
    | closed b =>
      obtain ⟨rfl, rfl⟩ := Reading.eq_of_foldl_closed (hstep ▸ h)
      simp [Scan.step, Scan.ofReading, hstep]
    | broken =>
      rw [hstep, Reading.foldl_step_broken] at h
      exact nomatch h
    | plain b | escaped b | decimal b digits code =>
      rw [show Scan.step (.quoted quote r found) c = .quoted quote _ found by
        simp only [Scan.step, hstep]; rfl]
      exact ih (fun b => by simp) (hstep ▸ h)

theorem scans_quote (text : String) : Scans (quote text).toList [bytesOf text.toList] := by
  have hquote : (quote text).toList = '"' :: (text.toList.flatMap escapeChar ++ ['"']) := by
    simp [quote, escape]
  intro a found ha
  refine ⟨'"', ⟨by decide, by decide⟩, ?_⟩
  rw [hquote, List.foldl_cons]
  have hstep : Scan.step (.code a found) '"' = .quoted '"' (.plain []) found := by
    simp [Scan.step, opensComment_of_isCalm ha, isQuote]
  rw [hstep]
  exact foldl_step_quoted (fun b => by simp) (foldl_step_quote text.toList)

end CodeTree.Lua
