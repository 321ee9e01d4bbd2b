import ListLang.Text.Decode

/-! Bytes that spell a text are read as that text. Only the converse direction loses anything: bytes
that spell no text are read with replacement characters. -/

namespace ListLang.Text

/-- The bytes of a string. -/
def bytes (s : String) : List UInt8 := s.toUTF8.data.toList

theorem toNat_byte {n : Nat} (h : n < 256) : (UInt8.ofNat n).toNat = n := by
  simp [Nat.mod_eq_of_lt h]

section Sequences

variable {a b c d : UInt8} {v : Nat} (rest : List UInt8)

theorem isContinuation_iff : isContinuation b = true ↔ 0x80 ≤ b.toNat ∧ b.toNat ≤ 0xBF := by
  simp [isContinuation, UInt8.le_iff_toNat_le]

theorem sequence?_one (h : v ≤ 0x7F) (ha : a.toNat = v) :
    sequence? (a :: rest) = some (Char.ofNat v, 0) := by
  have h1 : a < 0x80 := by rw [UInt8.lt_iff_toNat_lt, ha]; exact Nat.lt_succ_of_le h
  simp [sequence?, h1, ha]

theorem sequence?_two (h : 0x7F < v) (h' : v ≤ 0x7FF) (ha : a.toNat = v / 64 + 0xC0)
    (hb : b.toNat = v % 64 + 0x80) : sequence? (a :: b :: rest) = some (Char.ofNat v, 1) := by
  have h1 : ¬ a < 0x80 := by rw [UInt8.lt_iff_toNat_lt, ha]; simp
  have h2 : 0xC2 ≤ a ∧ a ≤ 0xDF := by
    simp only [UInt8.le_iff_toNat_le, ha, UInt8.reduceToNat]
    omega
  have h3 : isContinuation b = true := isContinuation_iff.2 (by omega)
  have hv : a.toNat % 32 * 64 + tail6 b = v := by rw [tail6]; omega
  simp [sequence?, h1, h2, h3, hv]

theorem sequence?_three (h : 0x7FF < v) (h' : v ≤ 0xFFFF) (hs : v < 0xD800 ∨ 0xDFFF < v)
    (ha : a.toNat = v / 4096 + 0xE0) (hb : b.toNat = v / 64 % 64 + 0x80)
    (hc : c.toNat = v % 64 + 0x80) :
    sequence? (a :: b :: c :: rest) = some (Char.ofNat v, 2) := by
  have h1 : ¬ a < 0x80 := by rw [UInt8.lt_iff_toNat_lt, ha]; simp
  have h2 : ¬ a ≤ 0xDF := by
    simp only [UInt8.le_iff_toNat_le, ha, UInt8.reduceToNat]
    omega
  have h3 : 0xE0 ≤ a ∧ a ≤ 0xEF := by
    simp only [UInt8.le_iff_toNat_le, ha, UInt8.reduceToNat]
    omega
  -- the gap of the surrogates is what the bound on the second byte after 0xED leaves out
  have h4 : fitsSecondOfThree a b = true := by
    have hb' : isContinuation b = true := isContinuation_iff.2 (by omega)
    simp only [fitsSecondOfThree, hb', Bool.true_and, Bool.and_eq_true, Bool.or_eq_true, bne_iff_ne,
      ne_eq, decide_eq_true_eq, ← UInt8.toNat_inj, UInt8.le_iff_toNat_le, UInt8.reduceToNat]
    omega
  have h5 : isContinuation c = true := isContinuation_iff.2 (by omega)
  have hv : (a.toNat % 16 * 64 + tail6 b) * 64 + tail6 c = v := by rw [tail6, tail6]; omega
  simp [sequence?, h1, h2, h3, h4, h5, hv]

theorem sequence?_four (h : 0xFFFF < v) (h' : v < 0x110000) (ha : a.toNat = v / 262144 + 0xF0)
    (hb : b.toNat = v / 4096 % 64 + 0x80) (hc : c.toNat = v / 64 % 64 + 0x80)
    (hd : d.toNat = v % 64 + 0x80) :
    sequence? (a :: b :: c :: d :: rest) = some (Char.ofNat v, 3) := by
  have h1 : ¬ a < 0x80 := by rw [UInt8.lt_iff_toNat_lt, ha]; simp
  have h2 : ¬ a ≤ 0xDF ∧ ¬ a ≤ 0xEF := by
    simp only [UInt8.le_iff_toNat_le, ha, UInt8.reduceToNat]
    omega
  have h3 : 0xF0 ≤ a ∧ a ≤ 0xF4 := by
    simp only [UInt8.le_iff_toNat_le, ha, UInt8.reduceToNat]
    omega
  have h4 : fitsSecondOfFour a b = true := by
    have hb' : isContinuation b = true := isContinuation_iff.2 (by omega)
    simp only [fitsSecondOfFour, hb', Bool.true_and, Bool.and_eq_true, Bool.or_eq_true, bne_iff_ne,
      ne_eq, decide_eq_true_eq, ← UInt8.toNat_inj, UInt8.le_iff_toNat_le, UInt8.reduceToNat]
    omega
  have h5 : isContinuation c = true := isContinuation_iff.2 (by omega)
  have h6 : isContinuation d = true := isContinuation_iff.2 (by omega)
  have hv : ((a.toNat % 8 * 64 + tail6 b) * 64 + tail6 c) * 64 + tail6 d = v := by
    rw [tail6, tail6, tail6]
    omega
  simp [sequence?, h1, h2, h3, h4, h5, h6, hv]

end Sequences

theorem sequence?_utf8 (c : Char) (rest : List UInt8) :
    sequence? (String.utf8EncodeChar c ++ rest) =
      some (c, (String.utf8EncodeChar c).length - 1) := by
  have hv : c.val.toNat < 0xD800 ∨ 0xDFFF < c.val.toNat ∧ c.val.toNat < 0x110000 := c.valid
  have hc : Char.ofNat c.val.toNat = c := Char.ofNat_toNat c
  fun_cases String.utf8EncodeChar c with
  | case1 v h1 =>
    rw [← hc]
    exact sequence?_one rest h1 (toNat_byte (by omega))
  | case2 v h1 h2 =>
    rw [← hc]
    exact sequence?_two rest (by omega) h2 (by rw [toNat_byte] <;> omega) (toNat_byte (by omega))
  | case3 v h1 h2 h3 =>
    rw [← hc]
    exact sequence?_three rest (by omega) h3 (by omega) (by rw [toNat_byte] <;> omega)
      (toNat_byte (by omega)) (toNat_byte (by omega))
  | case4 v h1 h2 h3 =>
    rw [← hc]
    exact sequence?_four rest (by omega) (by omega) (by rw [toNat_byte] <;> omega)
      (toNat_byte (by omega)) (toNat_byte (by omega)) (toNat_byte (by omega))

theorem decode_utf8 (cs : List Char) : decode (cs.flatMap String.utf8EncodeChar) = cs := by
  induction cs with
  | nil => rw [List.flatMap_nil, decode]
  | cons c cs ih =>
    rw [List.flatMap_cons]
    have hs := sequence?_utf8 c (cs.flatMap String.utf8EncodeChar)
    obtain ⟨a, as, ha⟩ := List.exists_cons_of_ne_nil (String.utf8EncodeChar_ne_nil (c := c))
    rw [ha] at hs ⊢
    rw [List.cons_append] at hs ⊢
    rw [decode, hs]
    simp [ih]

/-- No sequence reaches over an ASCII byte. -/
theorem sequence?_append_ascii {x : UInt8} (hx : x < 0x80) (a : UInt8) (as bs : List UInt8) :
    sequence? (a :: (as ++ x :: bs)) = sequence? (a :: as) := by
  have hcontinuation : isContinuation x = false := by
    rw [Bool.eq_false_iff, ne_eq, isContinuation_iff]
    rw [UInt8.lt_iff_toNat_lt, show (0x80 : UInt8).toNat = 0x80 from rfl] at hx
    omega
  -- the byte is the second, third or fourth one that is looked at, or none of them
  rcases as with _ | ⟨b, _ | ⟨c, _ | ⟨d, as⟩⟩⟩ <;> rcases bs with _ | ⟨y, _ | ⟨z, bs⟩⟩ <;>
    simp [sequence?, fitsSecondOfThree, fitsSecondOfFour, hcontinuation]

theorem length_of_sequence? {a : UInt8} {as : List UInt8} {c : Char} {n : Nat}
    (h : sequence? (a :: as) = some (c, n)) : n ≤ as.length := by
  rcases as with _ | ⟨b, _ | ⟨d, _ | ⟨e, as⟩⟩⟩ <;> simp [sequence?] at h ⊢ <;> grind

/-- An ASCII byte is read by itself, whatever stands before and after it. -/
theorem decode_append_ascii {x : UInt8} (hx : x < 0x80) (as bs : List UInt8) :
    decode (as ++ x :: bs) = decode as ++ Char.ofNat x.toNat :: decode bs := by
  fun_induction decode as with
  | case1 =>
    have hsequence : sequence? (x :: bs) = some (Char.ofNat x.toNat, 0) := by simp [sequence?, hx]
    rw [List.nil_append, decode, hsequence]
    rfl
  | case2 a rest c more h ih =>
    rw [List.cons_append, decode, sequence?_append_ascii hx, h]
    simp only
    rw [List.drop_append_of_le_length (length_of_sequence? h), ih, List.cons_append]
  | case3 a rest h ih =>
    rw [List.cons_append, decode, sequence?_append_ascii hx, h]
    simp only
    rw [ih, List.cons_append]

theorem bytes_eq (s : String) : bytes s = s.toList.flatMap String.utf8EncodeChar := by
  have h : s.toUTF8 = s.toList.utf8Encode := String.utf8Encode_toList.symm
  rw [bytes, h, List.utf8Encode, List.toList_data_toByteArray]

/-- The bytes of a string are read as its characters. -/
theorem decode_bytes (s : String) : decode (bytes s) = s.toList := by
  rw [bytes_eq, decode_utf8]

end ListLang.Text
