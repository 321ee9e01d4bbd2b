import ListLang.Expr.Printer
import ListLang.Proofs.Spelling
import Mathlib.Data.List.Forall2

/-! Expressions that differ only in where they stand. For expressions whose atoms are lexemes this
is no more than `Expr.same` says: the text of an atom tells its kind. -/

namespace ListLang

namespace Expr

mutual

/-- Same shape, and the same kinds and texts of tokens. -/
def Alike : Expr → Expr → Prop
  | atom a, atom b => a.kind = b.kind ∧ a.text = b.text
  | list _ as, list _ bs => AlikeAll as bs
  | _, _ => False

def AlikeAll : List Expr → List Expr → Prop
  | [], [] => True
  | a :: as, b :: bs => Alike a b ∧ AlikeAll as bs
  | _, _ => False

end

mutual

/-- Every atom is a lexeme of its kind, and no atom is a parenthesis. -/
def WellSpelled : Expr → Prop
  | atom t => Lexeme t.kind t.text.toList ∧ t.kind ≠ .openList ∧ t.kind ≠ .closeList
  | list _ es => AllWellSpelled es

def AllWellSpelled : List Expr → Prop
  | [] => True
  | e :: es => WellSpelled e ∧ AllWellSpelled es

end

theorem alikeAll_iff {as bs : List Expr} : AlikeAll as bs ↔ List.Forall₂ Alike as bs := by
  induction as generalizing bs with
  | nil => cases bs <;> simp [AlikeAll]
  | cons a as ih => cases bs <;> simp [AlikeAll, ih]

theorem allWellSpelled_iff {es : List Expr} : AllWellSpelled es ↔ ∀ e ∈ es, e.WellSpelled := by
  induction es with
  | nil => simp [AllWellSpelled]
  | cons e es ih => simp [AllWellSpelled, ih]

mutual

theorem Alike.refl : ∀ e : Expr, Alike e e
  | atom _ => ⟨rfl, rfl⟩
  | list _ es => AlikeAll.refl es

theorem AlikeAll.refl : ∀ es : List Expr, AlikeAll es es
  | [] => trivial
  | e :: es => ⟨Alike.refl e, AlikeAll.refl es⟩

end

mutual

theorem Alike.symm : ∀ {a b : Expr}, Alike a b → Alike b a
  | atom _, atom _, h => ⟨h.1.symm, h.2.symm⟩
  | list _ _, list _ _, h => AlikeAll.symm h

theorem AlikeAll.symm : ∀ {as bs : List Expr}, AlikeAll as bs → AlikeAll bs as
  | [], [], _ => trivial
  | _ :: _, _ :: _, h => ⟨Alike.symm h.1, AlikeAll.symm h.2⟩

end

mutual

theorem Alike.trans : ∀ {a b c : Expr}, Alike a b → Alike b c → Alike a c
  | atom _, atom _, atom _, h, h' => ⟨h.1.trans h'.1, h.2.trans h'.2⟩
  | list _ _, list _ _, list _ _, h, h' => AlikeAll.trans h h'

theorem AlikeAll.trans : ∀ {as bs cs : List Expr}, AlikeAll as bs → AlikeAll bs cs → AlikeAll as cs
  | [], [], [], _, _ => trivial
  | _ :: _, _ :: _, _ :: _, h, h' => ⟨Alike.trans h.1 h'.1, AlikeAll.trans h.2 h'.2⟩

end

theorem AlikeAll.append {as bs cs ds : List Expr} (h : AlikeAll as bs) (h' : AlikeAll cs ds) :
    AlikeAll (as ++ cs) (bs ++ ds) :=
  alikeAll_iff.2 (List.rel_append (alikeAll_iff.1 h) (alikeAll_iff.1 h'))

theorem AlikeAll.length_eq {as bs : List Expr} (h : AlikeAll as bs) : as.length = bs.length :=
  (alikeAll_iff.1 h).length_eq

theorem encodeAll_cons_cons (a b : Expr) (es : List Expr) :
    encodeAll (a :: b :: es) = a.encode ++ " " ++ encodeAll (b :: es) := by
  rw [encodeAll]
  simp

mutual

theorem Alike.encode_eq : ∀ {a b : Expr}, Alike a b → a.encode = b.encode
  | atom _, atom _, h => h.2
  | list _ as, list _ bs, h => by
    have hall : encodeAll as = encodeAll bs := AlikeAll.encodeAll_eq h
    rw [encode, encode, hall]

theorem AlikeAll.encodeAll_eq : ∀ {as bs : List Expr}, AlikeAll as bs → encodeAll as = encodeAll bs
  | [], [], _ => rfl
  | [_], [_], h => Alike.encode_eq h.1
  | a :: a' :: as, b :: b' :: bs, h => by
    rw [encodeAll_cons_cons, encodeAll_cons_cons, Alike.encode_eq h.1, AlikeAll.encodeAll_eq h.2]

end

mutual

theorem Alike.same_eq : ∀ {a b : Expr}, Alike a b → same a b = true
  | atom _, atom _, h => by simpa [same] using h.2
  | list _ as, list _ bs, h => by
    have hall : sameAll as bs = true := AlikeAll.sameAll_eq h
    rw [same, hall]

theorem AlikeAll.sameAll_eq : ∀ {as bs : List Expr}, AlikeAll as bs → sameAll as bs = true
  | [], [], _ => rfl
  | a :: as, b :: bs, h => by simp [sameAll, Alike.same_eq h.1, AlikeAll.sameAll_eq h.2]

end

mutual

/-- The text of a lexeme tells its kind. -/
theorem alike_of_same : ∀ {a b : Expr}, WellSpelled a → WellSpelled b → same a b = true → Alike a b
  | atom t, atom u, ha, hb, h => by
    have htext : t.text = u.text := by simpa [same] using h
    have hkind : t.kind = u.kind := ha.1.kind_unique (htext ▸ hb.1)
    exact ⟨hkind, htext⟩
  | list _ as, list _ bs, ha, hb, h => by
    rw [same] at h
    have hall : AlikeAll as bs := alikeAll_of_sameAll ha hb h
    exact hall
  | atom _, list _ _, _, _, h => by simp [same] at h
  | list _ _, atom _, _, _, h => by simp [same] at h

theorem alikeAll_of_sameAll : ∀ {as bs : List Expr}, AllWellSpelled as → AllWellSpelled bs →
    sameAll as bs = true → AlikeAll as bs
  | [], [], _, _, _ => trivial
  | a :: as, b :: bs, ha, hb, h => by
    have h : same a b = true ∧ sameAll as bs = true := by simpa [sameAll] using h
    exact ⟨alike_of_same ha.1 hb.1 h.1, alikeAll_of_sameAll ha.2 hb.2 h.2⟩
  | [], _ :: _, _, _, h => by simp [sameAll] at h
  | _ :: _, [], _, _, h => by simp [sameAll] at h

end

end Expr

end ListLang
