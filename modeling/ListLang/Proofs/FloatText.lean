import ListLang.Number.Notation
import Mathlib.Data.List.Basic

/-! The text of a double. It has digits, signs, a point, the mark of an exponent, and the letters of
what is no finite number. A point, a mark or a letter is always there, so the text is not that of an
integer. -/

namespace ListLang

def isNumeralChar (c : Char) : Bool :=
  c.isDigit || ['-', '+', '.', 'e', 'I', 'n', 'f', 'N', 'a'].contains c

/-- The characters that integers are written with. -/
def isIntegerChar (c : Char) : Bool := c.isDigit || c = '-'

section Text

variable {cs ds : List Char}

theorem isNumeralChar_of_isIntegerChar {c : Char} (h : isIntegerChar c = true) :
    isNumeralChar c = true := by
  rcases (by simpa [isIntegerChar] using h : c.isDigit = true ∨ c = '-') with hdigit | rfl
  · simp [isNumeralChar, hdigit]
  · decide

theorem integerChars_toDigits (n : Nat) : ∀ c ∈ Nat.toDigits 10 n, isIntegerChar c = true := by
  intro c hc
  have hdigit := Nat.isDigit_of_mem_toDigits (by decide) (by decide) hc
  simp [isIntegerChar, hdigit]

theorem numeralChars_toDigits (n : Nat) : ∀ c ∈ Nat.toDigits 10 n, isNumeralChar c = true :=
  fun c hc => isNumeralChar_of_isIntegerChar (integerChars_toDigits n c hc)

theorem numeralChars_zeros (n : Nat) : ∀ c ∈ List.replicate n '0', isNumeralChar c = true := by
  intro c hc
  rw [List.eq_of_mem_replicate hc]
  decide

theorem numeralChars_positional (h : ∀ c ∈ ds, isNumeralChar c = true) (e : Int) :
    ∀ c ∈ positional ds e, isNumeralChar c = true := by
  unfold positional
  split
  · rw [List.cons_append, List.cons_append, List.forall_mem_cons, List.forall_mem_cons,
      List.forall_mem_append]
    exact ⟨by decide, by decide, numeralChars_zeros _, h⟩
  · have hfraction : ∀ c ∈ ds.drop (e.toNat + 1), isNumeralChar c = true :=
      fun c hc => h c (List.mem_of_mem_drop hc)
    simp only [List.forall_mem_append, List.forall_mem_cons]
    refine ⟨⟨fun c hc => h c (List.mem_of_mem_take hc), numeralChars_zeros _⟩, by decide, ?_⟩
    split
    · exact List.all_eq_true.1 (by decide)
    · exact hfraction

theorem numeralChars_scientific (h : ∀ c ∈ ds, isNumeralChar c = true) (width : Nat) (e : Int) :
    ∀ c ∈ scientific width ds e, isNumeralChar c = true := by
  have hsign : isNumeralChar (if e < 0 then '-' else '+') = true := by split <;> decide
  have hexponent : ∀ c ∈ padLeft width (Nat.toDigits 10 e.natAbs), isNumeralChar c = true :=
    List.forall_mem_append.2 ⟨numeralChars_zeros _, numeralChars_toDigits _⟩
  have hmark : ∀ c ∈ 'e' :: (if e < 0 then '-' else '+') :: padLeft width
    (Nat.toDigits 10 e.natAbs),
      isNumeralChar c = true :=
    List.forall_mem_cons.2 ⟨by decide, List.forall_mem_cons.2 ⟨hsign, hexponent⟩⟩
  rcases ds with _ | ⟨d, _ | ⟨f, rest⟩⟩
  · exact List.forall_mem_append.2 ⟨h, hmark⟩
  · exact List.forall_mem_append.2 ⟨h, hmark⟩
  · obtain ⟨hd, hrest⟩ := List.forall_mem_cons.1 h
    exact List.forall_mem_append.2
      ⟨List.forall_mem_cons.2 ⟨hd, List.forall_mem_cons.2 ⟨by decide, hrest⟩⟩, hmark⟩

theorem point_mem_positional (ds : List Char) (e : Int) : '.' ∈ positional ds e := by
  unfold positional
  split <;> simp

theorem mark_mem_scientific (width : Nat) (ds : List Char) (e : Int) :
    'e' ∈ scientific width ds e := by
  simp [scientific]

theorem numeralChars_write (layout : FloatLayout) (d : Shortest.Decimal) :
    ∀ c ∈ layout.write d, isNumeralChar c = true := by
  have hdigits : ∀ c ∈ dropTrailingZeros (Nat.toDigits 10 d.digits), isNumeralChar c = true := by
    intro c hc
    have hc := List.dropWhile_subset _ (List.mem_reverse.1 hc)
    exact numeralChars_toDigits _ c (List.mem_reverse.1 hc)
  unfold FloatLayout.write
  simp only
  split
  · exact numeralChars_positional hdigits _
  · exact numeralChars_scientific hdigits _ _

/-- What no text of an integer has. -/
def Marked (cs : List Char) : Prop := ∃ c ∈ cs, isIntegerChar c = false

theorem marked_write (layout : FloatLayout) (d : Shortest.Decimal) : Marked (layout.write d) := by
  unfold FloatLayout.write
  simp only
  split
  · exact ⟨'.', point_mem_positional _ _, by decide⟩
  · exact ⟨'e', mark_mem_scientific _ _ _, by decide⟩

theorem numeralChars_floatChars (x : Float) : ∀ c ∈ floatChars x, isNumeralChar c = true := by
  unfold floatChars
  split
  · exact List.all_eq_true.1 (by decide)
  · refine List.all_eq_true.1 ?_
    split <;> decide
  · refine List.forall_mem_append.2 ⟨List.all_eq_true.1 ?_, ?_⟩
    · split <;> decide
    · split
      · exact List.all_eq_true.1 (by decide)
      · exact numeralChars_write _ _

theorem marked_floatChars (x : Float) : Marked (floatChars x) := by
  unfold floatChars
  split
  · exact ⟨'N', by simp, by decide⟩
  · exact ⟨'I', by simp, by decide⟩
  · rename_i m q _
    have hrest : Marked (if m = 0 then ['0', '.', '0']
        else valueLayout.write (Shortest.ofDyadic m q)) := by
      split
      · exact ⟨'.', by simp, by decide⟩
      · exact marked_write _ _
    obtain ⟨c, hc, hmark⟩ := hrest
    exact ⟨c, List.mem_append_right _ hc, hmark⟩

end Text

end ListLang
