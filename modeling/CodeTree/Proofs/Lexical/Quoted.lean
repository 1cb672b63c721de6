import CodeTree.Lua.Escape
import Mathlib.Tactic.IntervalCases

/-! # Reading quoted strings

Lua reads a quoted string one character at a time. A backslash starts an escape: a letter that stands
for one byte, or up to three decimal digits, as many as follow, that give a byte. A raw line break ends
the reading in failure, and so do the escapes that the emitter never writes (`\x`, `\u`, `\z` and an
escaped line break). The value of a string is a list of bytes.

* `Reading.step`: what one character does to a reading.
* `foldl_step_escape`: reading an escaped text gives the bytes of the text. -/

namespace CodeTree.Lua

set_option autoImplicit false

def bytesOf (text : List Char) : List UInt8 := text.flatMap String.utf8EncodeChar

@[simp] theorem bytesOf_nil : bytesOf [] = [] := rfl

@[simp] theorem bytesOf_cons (c : Char) (text : List Char) :
    bytesOf (c :: text) = String.utf8EncodeChar c ++ bytesOf text := rfl

/-- How far the reading of a quoted string has come. -/
inductive Reading
  | plain (value : List UInt8)
  | escaped (value : List UInt8)
  | decimal (value : List UInt8) (digits code : Nat)
  | closed (value : List UInt8)
  | broken
  deriving DecidableEq

def letterEscape? : Char → Option UInt8
  | 'a' => some 7
  | 'b' => some 8
  | 't' => some 9
  | 'n' => some 10
  | 'v' => some 11
  | 'f' => some 12
  | 'r' => some 13
  | '\\' => some 92
  | '"' => some 34
  | '\'' => some 39
  | _ => none

def digitValue (c : Char) : Nat := c.toNat - 48

namespace Reading

def plainStep (quote : Char) (value : List UInt8) (c : Char) : Reading :=
  if c == quote then closed value
  else if c == '\\' then escaped value
  else if c == '\n' || c == '\r' then broken
  else plain (value ++ String.utf8EncodeChar c)

/-- What one character does to the reading of a string that ends at `quote`. -/
def step (quote : Char) : Reading → Char → Reading
  | plain value, c => plainStep quote value c
  | escaped value, c =>
    if c.isDigit then decimal value 1 (digitValue c)
    else match letterEscape? c with
      | some code => plain (value ++ [code])
      | none => broken
  | decimal value digits code, c =>
    if digits < 3 ∧ c.isDigit then decimal value (digits + 1) (10 * code + digitValue c)
    else if code < 256 then plainStep quote (value ++ [UInt8.ofNat code]) c
    else broken
  | closed _, _ => broken
  | broken, _ => broken

/-- The value of the string, if it ends here or goes on without an escape. -/
def value? : Reading → Option (List UInt8)
  | plain value => some value
  | decimal value _ code => if code < 256 then some (value ++ [UInt8.ofNat code]) else none
  | _ => none

/-- Whether no further digit can belong to the last escape. -/
def isFull : Reading → Bool
  | plain _ => true
  | decimal _ digits _ => digits == 3
  | _ => false

theorem step_of_isFull {r : Reading} {value : List UInt8} (quote c : Char) (hfull : r.isFull)
    (hvalue : r.value? = some value) : r.step quote c = plainStep quote value c := by
  cases r with
  | plain bytes =>
    obtain rfl : bytes = value := by simpa [value?] using hvalue
    rfl
  | decimal bytes digits code =>
    obtain rfl : digits = 3 := by simpa [isFull] using hfull
    obtain ⟨hcode, rfl⟩ : code < 256 ∧ bytes ++ [UInt8.ofNat code] = value := by
      simpa [value?] using hvalue
    simp [step, hcode]
  | escaped _ | closed _ | broken => simp [value?] at hvalue

theorem step_quote {r : Reading} {value : List UInt8} {quote : Char} (hfull : r.isFull)
    (hvalue : r.value? = some value) : r.step quote quote = closed value := by
  rw [step_of_isFull quote quote hfull hvalue]
  simp [plainStep]

theorem foldl_step_broken (quote : Char) (text : List Char) :
    text.foldl (step quote) broken = broken := by
  induction text with
  | nil => rfl
  | cons _ _ ih => exact ih

theorem eq_of_foldl_closed {quote : Char} {text : List Char} {a b : List UInt8}
    (h : text.foldl (step quote) (closed a) = closed b) : text = [] ∧ a = b := by
  cases text with
  | nil => simpa using h
  | cons c cs =>
    rw [List.foldl_cons, show step quote (closed a) c = broken from rfl, foldl_step_broken] at h
    exact nomatch h

end Reading

/-! ## Escapes -/

theorem utf8EncodeChar_of_lt {c : Char} (h : c.toNat < 128) :
    String.utf8EncodeChar c = [UInt8.ofNat c.toNat] := by
  have hone : c.toNat ≤ 127 := by omega
  simp [String.utf8EncodeChar, hone]

theorem isDigit_decimalDigit {n : Nat} (h : n < 10) : (decimalDigit n).isDigit = true := by
  interval_cases n <;> rfl

theorem digitValue_decimalDigit {n : Nat} (h : n < 10) : digitValue (decimalDigit n) = n := by
  interval_cases n <;> rfl

open Reading

theorem foldl_step_decimalEscape {r : Reading} {value : List UInt8} {code : Nat}
    (hcode : code < 256) (hfull : r.isFull) (hvalue : r.value? = some value) :
    (decimalEscape code).foldl (Reading.step '"') r = decimal value 3 code := by
  have h₁ : code / 100 % 10 < 10 := Nat.mod_lt _ (by omega)
  have h₂ : code / 10 % 10 < 10 := Nat.mod_lt _ (by omega)
  have h₃ : code % 10 < 10 := Nat.mod_lt _ (by omega)
  have hdigits : 10 * (10 * (code / 100 % 10) + code / 10 % 10) + code % 10 = code := by omega
  have hbackslash : r.step '"' '\\' = escaped value := by
    rw [step_of_isFull _ _ hfull hvalue]
    rfl
  simp only [decimalEscape, List.foldl_cons, List.foldl_nil, hbackslash]
  simp [step, isDigit_decimalDigit, digitValue_decimalDigit, h₁, h₂, h₃, hdigits]

/-- Reading the form of a character gives the bytes of the character, and no digit that follows
belongs to it. -/
theorem foldl_step_escapeChar {r : Reading} {value : List UInt8} (c : Char) (hfull : r.isFull)
    (hvalue : r.value? = some value) :
    ((escapeChar c).foldl (Reading.step '"') r).isFull ∧
      ((escapeChar c).foldl (Reading.step '"') r).value?
        = some (value ++ String.utf8EncodeChar c) := by
  have hstep : ∀ d, r.step '"' d = plainStep '"' value d :=
    fun d => step_of_isFull _ d hfull hvalue
  unfold escapeChar
  split
  · simp only [List.foldl_cons, List.foldl_nil, hstep]
    exact ⟨rfl, rfl⟩
  · simp only [List.foldl_cons, List.foldl_nil, hstep]
    exact ⟨rfl, rfl⟩
  · simp only [List.foldl_cons, List.foldl_nil, hstep]
    exact ⟨rfl, rfl⟩
  · simp only [List.foldl_cons, List.foldl_nil, hstep]
    exact ⟨rfl, rfl⟩
  · simp only [List.foldl_cons, List.foldl_nil, hstep]
    exact ⟨rfl, rfl⟩
  · rename_i hbackslash hquote hfeed hreturn _
    by_cases hcontrol : c.toNat < 0x20 ∨ c.toNat = 0x7F
    · have hcode : c.toNat < 256 := by omega
      rw [if_pos hcontrol, foldl_step_decimalEscape hcode hfull hvalue,
        utf8EncodeChar_of_lt (by omega)]
      simp [isFull, value?, hcode]
    · have hplain : plainStep '"' value c = plain (value ++ String.utf8EncodeChar c) := by
        have hquote : c ≠ '"' := hquote
        have hbackslash : c ≠ '\\' := hbackslash
        have hfeed : c ≠ '\n' := hfeed
        have hreturn : c ≠ '\r' := hreturn
        simp [plainStep, hquote, hbackslash, hfeed, hreturn]
      rw [if_neg hcontrol]
      simp only [List.foldl_cons, List.foldl_nil, hstep, hplain]
      exact ⟨rfl, rfl⟩

/-- Reading an escaped text gives the bytes of the text. -/
theorem foldl_step_escape (text : List Char) {r : Reading} {value : List UInt8} (hfull : r.isFull)
    (hvalue : r.value? = some value) :
    ((text.flatMap escapeChar).foldl (Reading.step '"') r).isFull ∧
      ((text.flatMap escapeChar).foldl (Reading.step '"') r).value?
        = some (value ++ bytesOf text) := by
  induction text generalizing r value with
  | nil => simpa using ⟨hfull, hvalue⟩
  | cons c text ih =>
    obtain ⟨hfull', hvalue'⟩ := foldl_step_escapeChar c hfull hvalue
    simpa [List.append_assoc] using ih hfull' hvalue'

/-- An escaped text between double quotes reads as one string. -/
theorem foldl_step_quote (text : List Char) :
    (text.flatMap escapeChar ++ ['"']).foldl (Reading.step '"') (plain []) =
      closed (bytesOf text) := by
  obtain ⟨hfull, hvalue⟩ := foldl_step_escape text (r := plain []) rfl rfl
  simpa using step_quote hfull hvalue

end CodeTree.Lua
