import ListLang.Literal
import Mathlib.Data.List.Induction
import Mathlib.Data.Nat.Digits.Defs

/-! Integers as they are written. -/

namespace ListLang

/-- What a row of decimal digits is worth. -/
def decimalValue (ds : List Char) : Nat := Nat.ofDigits 10 (ds.reverse.map digitValue)

/-- A text that spells an integer: digits, with or without a minus sign before them. -/
inductive IntegerNumeral : List Char → Int → Prop where
  | plain {ds : List Char} :
      ds ≠ [] → (∀ d ∈ ds, d.isDigit = true) → IntegerNumeral ds (decimalValue ds)
  | negative {ds : List Char} : ds ≠ [] → (∀ d ∈ ds, d.isDigit = true) →
      IntegerNumeral ('-' :: ds) (-(decimalValue ds : Int))

theorem ofDigits_eq_decimalValue (ds : List Char) : ofDigits ds = decimalValue ds := by
  -- the reader counts the last digit last, and in a numeral it counts least
  induction ds using List.reverseRecOn with
  | nil => rfl
  | append_singleton ds d ih =>
    have hread : ofDigits (ds ++ [d]) = 10 * ofDigits ds + digitValue d := by
      rw [ofDigits, List.foldl_append]
      rfl
    rw [hread, ih, decimalValue, decimalValue, List.reverse_append, List.reverse_singleton,
      List.singleton_append, List.map_cons, Nat.ofDigits_cons, Nat.add_comm]

theorem splitSign_digits {ds : List Char} (hdigits : ∀ d ∈ ds, d.isDigit = true) :
    splitSign ds = (false, ds) := by
  cases ds with
  | nil => rfl
  | cons d ds =>
    have hd := hdigits d List.mem_cons_self
    have hminus : d ≠ '-' := by
      rintro rfl
      cases hd
    have hplus : d ≠ '+' := by
      rintro rfl
      cases hd
    simp [splitSign, hminus, hplus]

theorem readInt?_of_splitSign {cs ds : List Char} {negative : Bool}
    (hsplit : splitSign cs = (negative, ds)) (hds : ds ≠ []) (hdigits : ∀ d ∈ ds, d.isDigit = true)
    (hrange : inInt64 (if negative then -(decimalValue ds : Int) else decimalValue ds) = true) :
    readInt? cs = some (Int64.ofInt (if negative then -(decimalValue ds : Int)
      else decimalValue ds)) := by
  have hnonempty : (ds.isEmpty || !ds.all Char.isDigit) = false := by
    simpa [hds] using hdigits
  simp only [readInt?, hsplit, hnonempty, ofDigits_eq_decimalValue, hrange, if_true]
  rfl

/-- An integer numeral within 64 bits is read as that integer. -/
theorem ofChars?_of_numeral {cs : List Char} {i : Int} (h : IntegerNumeral cs i)
    (hrange : inInt64 i = true) :
    Literal.ofChars? cs = some (.int (Int64.ofInt i)) := by
  have hread : Literal.startsNumber cs = true ∧ readInt? cs = some (Int64.ofInt i) := by
    cases h with
    | plain hds hdigits =>
      refine ⟨?_, readInt?_of_splitSign (splitSign_digits hdigits) hds hdigits hrange⟩
      cases cs with
      | nil => exact absurd rfl hds
      | cons d ds => simp [Literal.startsNumber, hdigits d List.mem_cons_self]
    | @negative ds hds hdigits =>
      have hsplit : splitSign ('-' :: ds) = (true, ds) := rfl
      exact ⟨rfl, readInt?_of_splitSign hsplit hds hdigits hrange⟩
  simp only [Literal.ofChars?, hread.1, hread.2, if_true]

end ListLang
