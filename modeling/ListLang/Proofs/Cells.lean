import ListLang.Arithmetic
import ListLang.Session
import ListLang.Value.Cell

/-! Operations on cells. Where a content is asked for that is not there, a list or a text is indexed
or cut beyond its end, or the remainder by the integer zero is taken, there is no answer but a
fault. On cells that stand for values every operation does what it does on the values, and comes to
no fault. -/

namespace ListLang

/-- What an operation on cells breaks down on. -/
inductive Fault where
  /-- A content that is not of the type that is asked for. -/
  | content
  /-- An index or a cut beyond the end. -/
  | range
  /-- The remainder by the integer zero. -/
  | remainder
  deriving DecidableEq

/-- Why an operation on cells has no result. -/
inductive Stop where
  | halt (h : Halt)
  | fault (f : Fault)
  deriving DecidableEq

namespace Cell

/-- The code is that of the content, and only nil has none. -/
structure Fits (c : Cell) : Prop where
  code : c.code = (c.content.getD .nil).type.code
  content : c.content ≠ some .nil

section Checked

variable {α : Type}

def refuse (e : EvalError) : Except Stop α := .error (.halt (.error e))

def needed : Option α → Except Stop α
  | some a => .ok a
  | none => .error (.fault .content)

def index (xs : List α) (i : Nat) : Except Stop α :=
  match xs[i]? with
  | some a => .ok a
  | none => .error (.fault .range)

/-- What stands from one place to another. -/
def cut (xs : List α) (i j : Nat) : Except Stop (List α) :=
  if i ≤ j ∧ j ≤ xs.length then .ok ((xs.take j).drop i) else .error (.fault .range)

def remainder (x y : Int64) : Except Stop Int64 :=
  if y = 0 then .error (.fault .remainder) else .ok (x % y)

end Checked

def int (c : Cell) : Except Stop Int64 := needed c.int?

def float (c : Cell) : Except Stop Float := needed c.float?

def text (c : Cell) : Except Stop String := needed c.text?

def display (c : Cell) : Except Stop String := needed c.display?

def raw (c : Cell) : Except Stop String := needed c.raw?

def type (c : Cell) : Except Stop ValueType := needed (ValueType.ofCode? c.code)

/-- The record of an expression and its cell. -/
def record (e : Expr) (c : Cell) : Except Stop TraceRecord := do
  return ⟨e.encode, ← c.display, ← c.type⟩

/-! Literals. -/

/-- The content of a text in double quotes. -/
def unquote (cs : List Char) : Except Stop (Option (List Char)) :=
  if 2 ≤ cs.length then do
    let first ← index cs 0
    let last ← index cs (cs.length - 1)
    if first = '"' && last = '"' then some <$> cut cs 1 (cs.length - 1) else pure none
  else pure none

def literal (t : Token) : Except Stop Cell := do
  let cs := t.text.toList
  if Literal.startsNumber cs then
    match Literal.ofChars? cs with
    | some l => pure (ofValue (.ofLiteral l))
    | none => refuse (.invalidLiteral (.malformed t.text))
  else
    match ← unquote cs with
    | some inner => pure (ofValue (.text (String.ofList inner)))
    | none => refuse (.invalidLiteral (.malformed t.text))

/-! Arithmetic. -/

def operand (c : Cell) : Except Stop Unit := do
  if c.isNumeric then pure () else refuse (.notNumber (← c.display))

def bothInt (a b : Cell) : Bool := a.code = ValueType.int.code && b.code = ValueType.int.code

def isZero (c : Cell) : Except Stop Bool := do
  if c.code = ValueType.int.code then return (← c.int) = 0 else return (← c.float) == 0

def numeric (onInts : Int64 → Int64 → Int64) (onFloats : Float → Float → Float) (a b : Cell) :
    Except Stop Cell := do
  if bothInt a b then return ofValue (.int (onInts (← a.int) (← b.int)))
  else return ofValue (.float (onFloats (← a.float) (← b.float)))

def divide (a b : Cell) : Except Stop Cell := do
  if ← isZero b then refuse (.divisionByZero .div (← a.display) (← b.display))
  else return ofValue (.float ((← a.float) / (← b.float)))

def modulo (a b : Cell) : Except Stop Cell := do
  if ← isZero b then refuse (.divisionByZero .mod (← a.display) (← b.display))
  else if bothInt a b then do
    let x ← a.int
    let y ← b.int
    let r ← remainder x y
    return ofValue (.int (if r ≠ 0 && (r < 0) != (y < 0) then r + y else r))
  else return ofValue (.float (floorModFloat (← a.float) (← b.float)))

def apply (op : Operator) (a b : Cell) : Except Stop Cell := do
  operand a
  operand b
  match op with
  | .add => numeric (· + ·) (· + ·) a b
  | .sub => numeric (· - ·) (· - ·) a b
  | .mul => numeric (· * ·) (· * ·) a b
  | .div => divide a b
  | .mod => modulo a b

/-! Templates. -/

/-- Where the first placeholder starts. -/
def placeholder? : List Char → Option Nat
  | [] => none
  | '\x7b' :: '\x7d' :: _ => some 0
  | _ :: rest => (placeholder? rest).map (· + 1)

theorem length_of_cut {α : Type} {xs ys : List α} {i j : Nat} (h : cut xs i j = .ok ys) :
    ys.length = j - i := by
  unfold cut at h
  split at h
  · cases h
    simp
    omega
  · cases h

/-- Every cell that is left over, after a space. -/
def trailing : List Cell → Except Stop (List Char)
  | [] => pure []
  | c :: cs => do
    let shown ← c.raw
    return ' ' :: shown.toList ++ (← trailing cs)

def fill (template : List Char) (rest : List Cell) : Except Stop (List Char) :=
  if hrest : 0 < rest.length then
    match placeholder? template with
    | none => return template ++ (← trailing rest)
    | some i => do
      let before ← cut template 0 i
      let first ← index rest 0
      let shown ← first.raw
      let after ← cut template (i + 2) template.length
      match hcut : cut rest 1 rest.length with
      | .error stop => .error stop
      | .ok others =>
        have : others.length < rest.length := by
          rw [length_of_cut hcut]
          omega
        return before ++ shown.toList ++ (← fill after others)
  else pure template
termination_by rest.length

def format (values : List Cell) : Except Stop Cell := do
  let first ← index values 0
  if first.code = ValueType.text.code then
    let template ← first.text
    let rest ← cut values 1 values.length
    return ofValue (.text (String.ofList (← fill template.toList rest)))
  else refuse (.templateNotText (← first.type))

/-! Cells that stand for values. -/

theorem ok_bind {α β : Type} (a : α) (f : α → Except Stop β) : (Except.ok a >>= f) = f a := rfl

/-- What becomes of a cell, when this becomes of the value that it stands for. -/
def ofResult : Except EvalError Value → Except Stop Cell
  | .ok v => .ok (ofValue v)
  | .error e => refuse e

section OfValue

variable (v : Value)

theorem ofValue_fits : (ofValue v).Fits := by
  cases v <;> exact ⟨rfl, by simp [ofValue]⟩

theorem ofValue_display : (ofValue v).display = .ok v.display := by
  cases v <;> rfl

theorem ofValue_raw : (ofValue v).raw = .ok v.raw := by
  cases v <;> rfl

theorem record_ofValue (e : Expr) : record e (ofValue v) = .ok (.of e v) := by
  cases v <;> rfl

end OfValue

theorem cut_of_le {α : Type} {xs : List α} {i j : Nat} (h : i ≤ j) (h' : j ≤ xs.length) :
    cut xs i j = .ok ((xs.take j).drop i) := if_pos ⟨h, h'⟩

theorem cut_from {α : Type} {xs : List α} {i : Nat} (h : i ≤ xs.length) :
    cut xs i xs.length = .ok (xs.drop i) := by
  rw [cut_of_le h Nat.le.refl, List.take_length]

theorem cut_tail {α : Type} (x : α) (xs : List α) : cut (x :: xs) 1 (x :: xs).length = .ok xs :=
  cut_from (Nat.le_add_left 1 xs.length)

theorem unquote_eq (cs : List Char) : unquote cs = .ok (Literal.unquote? cs) := by
  rcases cs with _ | ⟨c, _ | ⟨d, cs⟩⟩
  · rfl
  · have hshort : Literal.unquote? [c] = none := by
      by_cases hc : c = '"' <;> simp [Literal.unquote?, hc]
    rw [hshort]
    rfl
  · have hfirst : index (c :: d :: cs) 0 = .ok c := rfl
    have hlast : index (c :: d :: cs) ((c :: d :: cs).length - 1) =
        .ok ((d :: cs).getLast (by simp)) := by
      simp [index, List.getLast_eq_getElem]
    have hcut : cut (c :: d :: cs) 1 ((c :: d :: cs).length - 1) = .ok (d :: cs).dropLast := by
      rw [cut_of_le (by simp) (Nat.sub_le _ _), List.dropLast_eq_take]
      simp
    have hunquote : Literal.unquote? (c :: d :: cs) =
        if c = '"' && (d :: cs).getLast (by simp) = '"' then some (d :: cs).dropLast else none := by
      by_cases hc : c = '"' <;> simp [Literal.unquote?, List.getLast?_eq_some_getLast, hc]
    rw [unquote, if_pos (by simp), hfirst, ok_bind, hlast, ok_bind, hcut, hunquote]
    split <;> rfl

theorem literal_eq (t : Token) : literal t =
    ofResult (((Expr.atom t).literal.map Value.ofLiteral).mapError .invalidLiteral) := by
  unfold literal Expr.literal Literal.ofText?
  simp only [unquote_eq]
  by_cases hnumber : Literal.startsNumber t.text.toList = true
  · rw [if_pos hnumber]
    cases Literal.ofChars? t.text.toList <;> rfl
  · rw [if_neg hnumber, Literal.ofChars?, if_neg hnumber]
    cases Literal.unquote? t.text.toList <;> rfl

section Number

variable (x y : Number)

theorem operand_number : operand (ofValue x.toValue) = .ok () := by
  cases x <;> rfl

theorem float_number : (ofValue x.toValue).float = .ok x.toFloat := by
  cases x <;> rfl

theorem isZero_number : isZero (ofValue x.toValue) = .ok x.isZero := by
  cases x <;> rfl

theorem number?_toValue : x.toValue.number? = some x := by
  cases x <;> rfl

theorem apply_toValue (op : Operator) : op.apply x.toValue y.toValue =
    (op.compute? x y).elim (.error (.divisionByZero op x.toValue.display y.toValue.display))
      (.ok ·.toValue) := by
  unfold Operator.apply
  rw [number?_toValue, number?_toValue]
  cases h : op.compute? x y <;> simp [h]

theorem divide_number : divide (ofValue x.toValue) (ofValue y.toValue) =
    ofResult (Operator.div.apply x.toValue y.toValue) := by
  have hcompute : Operator.div.compute? x y = if y.isZero then none
      else some (.float (x.toFloat / y.toFloat)) := by
    cases x <;> cases y <;> rfl
  rw [apply_toValue, hcompute, divide, isZero_number, ofValue_display, ofValue_display,
    float_number, float_number]
  cases y.isZero <;> rfl

theorem modulo_mixed (hboth : bothInt (ofValue x.toValue) (ofValue y.toValue) = false) :
    modulo (ofValue x.toValue) (ofValue y.toValue) =
      ofResult (Operator.mod.apply x.toValue y.toValue) := by
  have hcompute : Operator.mod.compute? x y =
      if y.isZero then none else some (.float (floorModFloat x.toFloat y.toFloat)) := by
    cases x with
    | float => cases y <;> rfl
    | int =>
      cases y with
      | float => rfl
      | int => cases hboth
  rw [apply_toValue, hcompute, modulo, isZero_number, ofValue_display, ofValue_display,
    float_number, float_number, hboth]
  cases y.isZero <;> rfl

theorem modulo_int (m n : Int64) :
    modulo (ofValue (.int m)) (ofValue (.int n)) =
      ofResult (Operator.mod.apply (.int m) (.int n)) := by
  by_cases hn : n = 0
  · subst hn
    rfl
  · -- the remainder is taken here, and the divisor is not zero
    have hremainder : remainder m n = .ok (m % n) := if_neg hn
    have hzero : isZero (ofValue (.int n)) = .ok false := congrArg Except.ok (decide_eq_false hn)
    have hcompute : Operator.mod.compute? (.int m) (.int n) = some (.int (floorModInt m n)) :=
      if_neg hn
    have hvalue : Operator.mod.apply (.int m) (.int n) = .ok (.int (floorModInt m n)) := by
      have happly := apply_toValue (.int m) (.int n) .mod
      rwa [hcompute] at happly
    rw [modulo, hzero, hvalue]
    show remainder m n >>= _ = _
    rw [hremainder, ok_bind]
    rfl

theorem apply_number (op : Operator) :
    apply op (ofValue x.toValue) (ofValue y.toValue) = ofResult (op.apply x.toValue y.toValue) := by
  unfold apply
  rw [operand_number, operand_number]
  cases op with
  | add | sub | mul => cases x <;> cases y <;> rfl
  | div => exact divide_number x y
  | mod =>
    cases hboth : bothInt (ofValue x.toValue) (ofValue y.toValue) with
    | false => exact modulo_mixed x y hboth
    | true =>
      cases x with
      | float => cases hboth
      | int m =>
        cases y with
        | float => cases hboth
        | int n => exact modulo_int m n

end Number

theorem number_or_not (v : Value) :
    (∃ x : Number, v = x.toValue) ∨ v.number? = none ∧ operand (ofValue v) =
      refuse (.notNumber v.display) := by
  cases v with
  | int n => exact Or.inl ⟨.int n, rfl⟩
  | float x => exact Or.inl ⟨.float x, rfl⟩
  | nil | text | list | function => exact Or.inr ⟨rfl, rfl⟩

theorem apply_ofValue (op : Operator) (a b : Value) :
    apply op (ofValue a) (ofValue b) = ofResult (op.apply a b) := by
  rcases number_or_not a with ⟨x, rfl⟩ | ⟨ha, hoperand⟩
  · rcases number_or_not b with ⟨y, rfl⟩ | ⟨hb, hoperand⟩
    · exact apply_number x y op
    · unfold apply Operator.apply
      rw [operand_number, hoperand, number?_toValue, hb]
      rfl
  · unfold apply Operator.apply
    rw [hoperand, ha]
    rfl

example : apply .add ⟨ValueType.int.code, some (.text "1")⟩ (ofValue (.int 1)) = .error
    (.fault .content) := rfl

theorem splitPlaceholder?_eq (template : List Char) :
    Builtin.splitPlaceholder? template =
      (placeholder? template).map fun i => (template.take i, template.drop (i + 2)) := by
  induction template using placeholder?.induct with
  | case1 => rfl
  | case2 rest => rfl
  | case3 c rest hc ih =>
    rw [placeholder?.eq_3 c rest hc, Builtin.splitPlaceholder?.eq_3 c rest hc, ih]
    cases placeholder? rest <;> rfl

theorem placeholder?_le {template : List Char} {i : Nat} (h : placeholder? template = some i) :
    i + 2 ≤ template.length := by
  induction template using placeholder?.induct generalizing i with
  | case1 => cases h
  | case2 rest =>
    cases h
    simp
  | case3 c rest hc ih =>
    rw [placeholder?.eq_3 c rest hc, Option.map_eq_some_iff] at h
    obtain ⟨j, hj, rfl⟩ := h
    have hle := ih hj
    simp only [List.length_cons]
    omega

theorem trailing_ofValue (vs : List Value) :
    trailing (vs.map ofValue) = .ok (vs.flatMap fun v => ' ' :: v.raw.toList) := by
  induction vs with
  | nil => rfl
  | cons v vs ih =>
    rw [List.map_cons, trailing, ofValue_raw, ih]
    rfl

theorem fill_nil (template : List Char) : fill template [] = .ok template := by
  unfold fill
  rfl

theorem fill_of_none {template : List Char} (h : placeholder? template = none) (v : Value)
    (vs : List Value) :
    fill template ((v :: vs).map ofValue) =
      .ok (template ++ (v :: vs).flatMap fun v => ' ' :: v.raw.toList) := by
  unfold fill
  rw [dif_pos (by simp), h, trailing_ofValue]
  rfl

theorem fill_of_some {template : List Char} {i : Nat} (h : placeholder? template = some i)
    (v : Value) (vs : List Value) : fill template ((v :: vs).map ofValue) =
      (template.take i ++ v.raw.toList ++ ·) <$> fill (template.drop (i + 2)) (vs.map ofValue) := by
  have hle := placeholder?_le h
  have hbefore : cut template 0 i = .ok (template.take i) := cut_of_le (Nat.zero_le i) (by omega)
  have hafter : cut template (i + 2) template.length = .ok (template.drop (i + 2)) := cut_from hle
  have hothers : cut ((v :: vs).map ofValue) 1 ((v :: vs).map ofValue).length =
    .ok (vs.map ofValue) := cut_tail _ _
  have hfirst : index ((v :: vs).map ofValue) 0 = .ok (ofValue v) := rfl
  rw [fill, dif_pos (by simp), h]
  simp only [hbefore, hfirst, ofValue_raw, hafter, ok_bind]
  split
  · rename_i stop hcut
    cases hothers.symm.trans hcut
  · rename_i others hcut
    cases hothers.symm.trans hcut
    cases fill (template.drop (i + 2)) (vs.map ofValue) <;> rfl

theorem fill_ofValue (template : List Char) (vs : List Value) :
    fill template (vs.map ofValue) =
      .ok (Builtin.fill template (vs.map fun v => v.raw.toList)) := by
  induction vs generalizing template with
  | nil => exact fill_nil template
  | cons v vs ih =>
    cases h : placeholder? template with
    | none =>
      have hsplit : Builtin.splitPlaceholder? template = none := by
        rw [splitPlaceholder?_eq, h, Option.map_none]
      rw [fill_of_none h, List.map_cons, Builtin.fill, hsplit]
      simp [List.flatMap_map]
    | some i =>
      have hsplit : Builtin.splitPlaceholder? template =
          some (template.take i, template.drop (i + 2)) := by
        rw [splitPlaceholder?_eq, h, Option.map_some]
      rw [fill_of_some h, ih, List.map_cons, Builtin.fill, hsplit]
      rfl

theorem format_ofValue {apply : List Value → Except EvalError Value}
    (happly : Builtin.format = .eager apply)
    (v : Value) (vs : List Value) : format ((v :: vs).map ofValue) =
      ofResult (apply (v :: vs)) := by
  cases happly
  have hfirst : index ((v :: vs).map ofValue) 0 = .ok (ofValue v) := rfl
  have hrest : cut ((v :: vs).map ofValue) 1 ((v :: vs).map ofValue).length =
    .ok (vs.map ofValue) := cut_tail _ _
  rw [format, hfirst, hrest]
  cases v with
  | text template =>
    show (do let filled ← fill template.toList (vs.map ofValue); _) = _
    rw [fill_ofValue]
    rfl
  | nil | int | float | list | function => rfl

end Cell

end ListLang
