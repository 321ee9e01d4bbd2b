import ListLang.Text.Quoted
import Mathlib.Algebra.Group.Nat.Defs

/-! Quoted text can be read back. What stands for a character tells which one it is, and where the
next one begins. So no two texts are quoted alike. -/

namespace ListLang.Text

def hexDigit (c : Char) : Nat := if c.isDigit then c.toNat - '0'.toNat else c.toNat - 'a'.toNat + 10

/-- What a row of hexadecimal digits is worth. -/
def hexValue (cs : List Char) : Nat := cs.foldl (fun n c => 16 * n + hexDigit c) 0

/-- The character that is meant by a letter behind a backslash. Quotes and backslashes are meant by
themselves. -/
def ofLetter (l : Char) : Char :=
  if l = 'a' then Char.ofNat 7
  else if l = 'b' then Char.ofNat 8
  else if l = 't' then Char.ofNat 9
  else if l = 'n' then Char.ofNat 10
  else if l = 'v' then Char.ofNat 11
  else if l = 'f' then Char.ofNat 12
  else if l = 'r' then Char.ofNat 13
  else l

/-- How many digits follow a letter that announces a code. -/
def codeWidth? (l : Char) : Option Nat :=
  if l = 'x' then some 2 else if l = 'u' then some 4 else if l = 'U' then some 8 else none

/-- Reads what is behind a backslash. -/
def unescapeLetter? : List Char → Option (Char × List Char)
  | [] => none
  | l :: cs =>
    match codeWidth? l with
    | some w => some (Char.ofNat (hexValue (cs.take w)), cs.drop w)
    | none => some (ofLetter l, cs)

/-- Reads one character as it stands between the quotes, and gives what is behind it. -/
def unescape? : List Char → Option (Char × List Char)
  | [] => none
  | c :: cs => if c = '\\' then unescapeLetter? cs else some (c, cs)

/-! Codes. -/

theorem hexDigit_digitChar : ∀ d < 16, hexDigit (Nat.digitChar d) = d := by decide

theorem length_hex (width n : Nat) : (hex width n).length = width := by
  induction width generalizing n with
  | zero => rfl
  | succ w ih => simp [hex, ih]

theorem hexValue_hex (width n : Nat) : hexValue (hex width n) = n % 16 ^ width := by
  induction width generalizing n with
  | zero => simp [hex, hexValue, Nat.mod_one]
  | succ w ih =>
    have hinit : (hex w (n / 16)).foldl (fun n c => 16 * n + hexDigit c) 0 = n / 16 % 16 ^ w :=
      ih (n / 16)
    have hlast : hexDigit (Nat.digitChar (n % 16)) = n % 16 :=
      hexDigit_digitChar _ (Nat.mod_lt _ (by decide))
    rw [hex, hexValue, List.foldl_append, hinit, List.foldl_cons, List.foldl_nil, hlast,
      Nat.pow_succ', Nat.mod_mul]
    omega

theorem unescapeLetter?_code {l : Char} {width : Nat} (hl : codeWidth? l = some width) {c : Char}
    (hc : c.toNat < 16 ^ width) (rest : List Char) :
    unescapeLetter? (l :: (hex width c.toNat ++ rest)) = some (c, rest) := by
  have htake : (hex width c.toNat ++ rest).take width = hex width c.toNat :=
    List.take_left' (length_hex _ _)
  have hdrop : (hex width c.toNat ++ rest).drop width = rest := List.drop_left' (length_hex _ _)
  simp only [unescapeLetter?, hl, htake, hdrop, hexValue_hex, Nat.mod_eq_of_lt hc, Char.ofNat_toNat]

/-! Letters. -/

theorem unescapeLetter?_letter {l : Char} (hl : codeWidth? l = none) (rest : List Char) :
    unescapeLetter? (l :: rest) = some (ofLetter l, rest) := by
  simp only [unescapeLetter?, hl]

theorem ofLetter_of_control {c l : Char} (h : controlLetter? c = some l) :
    codeWidth? l = none ∧ ofLetter l = c := by
  have hchar : ∀ n, c.toNat = n → Char.ofNat n = c := by
    rintro n rfl
    exact Char.ofNat_toNat c
  unfold controlLetter? at h
  split at h
  case h_8 => cases h
  all_goals
    rename_i hcode
    rw [← Option.some.inj h, ← hchar _ hcode]
    decide

/-! Characters and texts. -/

/-- A character is read back, whatever comes behind it. -/
theorem unescape?_escape (c : Char) (rest : List Char) :
    unescape? (escape c ++ rest) = some (c, rest) := by
  have hbackslash : ∀ cs, unescape? ('\\' :: cs) = unescapeLetter? cs := fun _ => rfl
  unfold escape
  split
  · rename_i hquote
    have hself : codeWidth? c = none ∧ ofLetter c = c := by
      rcases (by simpa using hquote : c = '"' ∨ c = '\\') with rfl | rfl <;> decide
    simp only [List.cons_append, List.nil_append, hbackslash,
      unescapeLetter?_letter hself.1, hself.2]
  rename_i hquote
  split
  · have hne : c ≠ '\\' := fun hc => hquote (by simp [hc])
    simp only [List.cons_append, List.nil_append, unescape?, if_neg hne]
  split
  · rename_i l hl
    obtain ⟨hwidth, hletter⟩ := ofLetter_of_control hl
    simp only [List.cons_append, List.nil_append, hbackslash,
      unescapeLetter?_letter hwidth, hletter]
  split
  · rename_i hlow
    have hcode : c.toNat < 16 ^ 2 := by
      simp only [Bool.or_eq_true, decide_eq_true_eq] at hlow
      omega
    simp only [List.cons_append, hbackslash, unescapeLetter?_code (l := 'x') rfl hcode]
  split
  · rename_i hcode
    simp only [List.cons_append, hbackslash, unescapeLetter?_code (l := 'u') rfl (show c.toNat <
      16 ^ 4 from hcode)]
  · have hcode : c.toNat < 16 ^ 8 := c.val.toNat_lt
    simp only [List.cons_append, hbackslash, unescapeLetter?_code (l := 'U') rfl hcode]

theorem escaped_injective {cs ds : List Char}
    (h : cs.flatMap escape ++ ['"'] = ds.flatMap escape ++ ['"']) : cs = ds := by
  -- what is left behind the last character is the closing quote, which no character leaves behind
  -- it
  have hread : ∀ c cs, unescape? ((c :: cs).flatMap escape ++ ['"']) =
      some (c, cs.flatMap escape ++ ['"']) := by
    intro c cs
    rw [List.flatMap_cons, List.append_assoc, unescape?_escape]
  have hend : ∀ c cs, [].flatMap escape ++ ['"'] ≠ (c :: cs).flatMap escape ++ ['"'] := by
    intro c cs hc
    have hsame := congrArg unescape? hc
    rw [hread] at hsame
    have hrest : ([] : List Char) = cs.flatMap escape ++ ['"'] :=
      congrArg Prod.snd (Option.some.inj hsame)
    simp at hrest
  induction cs generalizing ds with
  | nil =>
    cases ds with
    | nil => rfl
    | cons d ds => exact absurd h (hend d ds)
  | cons c cs ih =>
    cases ds with
    | nil => exact absurd h.symm (hend c cs)
    | cons d ds =>
      have hsame := congrArg unescape? h
      rw [hread, hread] at hsame
      obtain ⟨rfl, hrest⟩ := Prod.mk.inj (Option.some.inj hsame)
      rw [ih hrest]

theorem quote_injective {s t : String} (h : quote s = quote t) : s = t := by
  have hchars : quoteChars s.toList = quoteChars t.toList := String.ofList_injective h
  exact String.toList_injective (escaped_injective (List.cons.inj hchars).2)

end ListLang.Text
