import CodeTree.Proofs.Reading.Token

/-! # Strings read back

An escaped text between double quotes is read as one string, whatever text it stands in front of: the
reading ends at the second of the two quotes, with the bytes of the text as the value and with the rest
of the text behind it. So no two texts have the same form.

* `readString?`: the string at the front of a text, and the rest behind it.
* `readThrough_append`: a reading that closes does so whatever follows.
* `escape_undone`: quoted texts are read back. -/

namespace CodeTree.Lua

set_option autoImplicit false

/-- Goes on with the reading of a string up to its closing quote. -/
def readThrough (quote : Char) : Reading → List Char → Option (List UInt8 × List Char)
  | .closed value, rest => some (value, rest)
  | _, [] => none
  | r, c :: rest => readThrough quote (r.step quote c) rest

/-- The value of the string in double quotes at the front of a text, and the text behind it. -/
def readString? : List Char → Option (List UInt8 × List Char)
  | '"' :: rest => readThrough '"' (.plain []) rest
  | _ => none

@[simp] theorem readThrough_closed (quote : Char) (value : List UInt8) (rest : List Char) :
    readThrough quote (.closed value) rest = some (value, rest) := by
  cases rest <;> rfl

theorem readThrough_cons {quote : Char} {r : Reading} (hr : ∀ b, r ≠ .closed b) (c : Char)
    (rest : List Char) :
    readThrough quote r (c :: rest) = readThrough quote (r.step quote c) rest := by
  cases r with
  | closed b => exact absurd rfl (hr b)
  | _ => rfl

/-- A reading that is closed at the end of a text and not before leaves what follows the text. -/
theorem readThrough_append {quote : Char} {text : List Char} {value : List UInt8} {r : Reading}
    (hr : ∀ b, r ≠ .closed b) (h : text.foldl (Reading.step quote) r = .closed value)
    (rest : List Char) : readThrough quote r (text ++ rest) = some (value, rest) := by
  induction text generalizing r with
  | nil => exact absurd h (hr value)
  | cons c cs ih =>
    rw [List.foldl_cons] at h
    rw [List.cons_append, readThrough_cons hr]
    by_cases hclosed : ∃ b, r.step quote c = .closed b
    · -- Nothing can follow in the text, since a closed reading does not go on.
      obtain ⟨b, hb⟩ := hclosed
      obtain ⟨rfl, rfl⟩ := Reading.eq_of_foldl_closed (hb ▸ h)
      rw [hb, List.nil_append, readThrough_closed]
    · exact ih (fun b hb => hclosed ⟨b, hb⟩) h

theorem readString?_escape (s : String) (rest : List Char) :
    readString? ('"' :: (escape s).toList ++ '"' :: rest) = some (bytesOf s.toList, rest) := by
  have hread := readThrough_append (fun b => by simp) (foldl_step_quote s.toList) rest
  simpa [readString?, escape] using hread

theorem lex_escape (s : String) (rest : List Char) :
    lex ('"' :: (escape s).toList ++ '"' :: rest) = .string (bytesOf s.toList) :: lex rest := by
  have hread := lexFrom_string (fun b => by simp) (foldl_step_quote s.toList) rest
  simpa [lex, lexFrom, Lexeme.grow?, Lexeme.tokens, Lexeme.start, Lexeme.isBlank, isLetter, escape]
    using hread

theorem bytesOf_injective : Function.Injective bytesOf := by
  intro s t h
  have hencode : s.utf8Encode = t.utf8Encode := congrArg List.toByteArray h
  have hdecode : some s.toArray = some t.toArray := by
    rw [← List.utf8Decode?_utf8Encode, hencode, List.utf8Decode?_utf8Encode]
  exact congrArg Array.toList (Option.some.inj hdecode)

/-- An escaped text between double quotes, in front of any other text, is read as a single string: its
value is the text in UTF-8 and what is left is the other text. It is one token in front of the tokens of
the other text. Texts that have the same form are the same. -/
theorem escape_undone :
    (∀ (s : String) (rest : List Char),
      readString? ('"' :: (escape s).toList ++ '"' :: rest)
        = some (s.toUTF8.data.toList, rest) ∧
      lex ('"' :: (escape s).toList ++ '"' :: rest)
        = .string s.toUTF8.data.toList :: lex rest) ∧
    Function.Injective escape := by
  refine ⟨fun s rest => ?_, fun s t h => ?_⟩
  · have hbytes : s.toUTF8.data.toList = bytesOf s.toList := by
      rw [String.toUTF8_eq_toByteArray, ← String.utf8Encode_toList]
      simp [List.utf8Encode, bytesOf]
    rw [hbytes]
    exact ⟨readString?_escape s rest, lex_escape s rest⟩
  · have hread := readString?_escape s []
    rw [h, readString?_escape t []] at hread
    have hbytes : bytesOf t.toList = bytesOf s.toList := congrArg Prod.fst (Option.some.inj hread)
    exact String.toList_inj.1 (bytesOf_injective hbytes.symm)

end CodeTree.Lua
