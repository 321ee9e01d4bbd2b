import ListLang.Arena
import ListLang.Expr.Reader

/-! Reading into an arena. Every expression is a node that is pushed into the innermost open list,
and a push can fail. It never does: this reader comes to the same end as the one that builds
expressions, and the arena then holds what that one has built. -/

namespace ListLang

namespace Arena

variable {a b : Arena} {i k : Nat}

/-- What a node is, its parent apart. -/
def view? (a : Arena) (i : Nat) : Option (ExprKind × Option Token × List (Option Nat)) :=
  (a.nodes[i]?).map fun n => (n.kind, n.token, n.children.toList)

theorem view?_add (a : Arena) (n : ArenaNode) (k : Nat) :
    (a.add n).2.view? k = if k = a.size then some (n.kind, n.token, n.children.toList)
      else a.view? k := by
  unfold view? add size
  by_cases hk : k = a.nodes.size
  · rw [if_pos hk, Array.getElem?_push, if_pos hk]
    rfl
  · rw [if_neg hk, Array.getElem?_push, if_neg hk]

theorem view?_appendChild (a : Arena) (i : Nat) (child : Option Nat) (k : Nat) :
    (a.appendChild i child).view? k =
      if i = k then (a.view? k).map fun v => (v.1, v.2.1, v.2.2 ++ [child]) else a.view? k := by
  simp only [view?, appendChild, Array.getElem?_modify]
  split
  · cases a.nodes[k]? <;> simp
  · rfl

theorem view?_setParent (a : Arena) (child i k : Nat) :
    (a.setParent child i).view? k = a.view? k := by
  simp only [view?, setParent, Array.getElem?_modify]
  split
  · cases a.nodes[k]? <;> rfl
  · rfl

theorem push_of_list {token : Option Token} {children : List (Option Nat)}
    (h : a.view? i = some (.expression, token, children)) (c : Nat) :
    a.push i (some c) = (.ok (), (a.appendChild i (some c)).setParent c i) := by
  obtain ⟨n, hn, hview⟩ := Option.map_eq_some_iff.1 h
  have hlist : n.isList = true := by simp [ArenaNode.isList, (Prod.mk.inj hview).1]
  simp [push, hn, hlist]

theorem lt_size_of_view? {v : ExprKind × Option Token × List (Option Nat)}
    (h : a.view? i = some v) :
    i < a.size := by
  obtain ⟨n, hn, -⟩ := Option.map_eq_some_iff.1 h
  exact (Array.getElem?_eq_some_iff.1 hn).1

/-- A new node can be pushed into a list. It is the last child there, and no other node changes. -/
theorem pushNew_of_list {token : Option Token} {children : List (Option Nat)}
    (h : a.view? i = some (.expression, token, children)) (n : ArenaNode) :
    ∃ b, a.pushNew i n = (.ok a.size, b) ∧ b.size = a.size + 1 ∧
      b.view? i = some (.expression, token, children ++ [some a.size]) ∧
      b.view? a.size = some (n.kind, n.token, n.children.toList) ∧
      ∀ k, k ≠ i → k < a.size → b.view? k = a.view? k := by
  have hi := lt_size_of_view? h
  have hold : ∀ k, k < a.size → (a.add n).2.view? k = a.view? k := by
    intro k hk
    rw [view?_add, if_neg (Nat.ne_of_lt hk)]
  have hpush := push_of_list ((hold i hi).trans h) a.size
  refine ⟨_, by simp only [pushNew]; rw [show (a.add n).1 = a.size from rfl, hpush], ?_, ?_, ?_, ?_⟩
  · simp [setParent, appendChild, add, size]
  · rw [view?_setParent, view?_appendChild, if_pos rfl, hold i hi, h]
    rfl
  · rw [view?_setParent, view?_appendChild, if_neg (Nat.ne_of_lt hi), view?_add, if_pos rfl]
  · intro k hki hk
    rw [view?_setParent, view?_appendChild, if_neg (Ne.symm hki), hold k hk]

/-! Expressions in an arena. -/

mutual

/-- The node `j` is this expression, and it and all nodes in it have numbers from `lo` up to
`hi`. -/
def Holds (a : Arena) (lo hi : Nat) : Expr → Nat → Prop
  | .atom t, j => (lo ≤ j ∧ j < hi) ∧ a.view? j = some (t.kind.atomKind, some t, [])
  | .list p es, j => (lo ≤ j ∧ j < hi) ∧ ∃ js : List Nat,
      a.view? j = some (.expression, some (Expr.list p es).token, js.map some) ∧
        HoldsAll a lo hi es js

def HoldsAll (a : Arena) (lo hi : Nat) : List Expr → List Nat → Prop
  | [], [] => True
  | e :: es, j :: js => Holds a lo hi e j ∧ HoldsAll a lo hi es js
  | _, _ => False

end

def HoldsForest (a : Arena) (es : List Expr) : Prop :=
  ∃ js : List Nat, a.view? 0 = some (.expression, none, js.map some) ∧ a.HoldsAll 1 a.size es js

section Holds

variable {lo hi lo' hi' : Nat}

mutual

/-- What an arena holds, another one holds that has the same nodes there. -/
theorem Holds.frame (hlo : lo' ≤ lo) (hhi : hi ≤ hi')
    (hview : ∀ k, lo ≤ k → k < hi → b.view? k = a.view? k) :
    ∀ {e : Expr} {j : Nat}, a.Holds lo hi e j → b.Holds lo' hi' e j
  | .atom t, j, ⟨hj, ht⟩ => ⟨by omega, (hview j hj.1 hj.2).trans ht⟩
  | .list p es, j, ⟨hj, js, ht, hall⟩ =>
    ⟨by omega, js, (hview j hj.1 hj.2).trans ht, HoldsAll.frame hlo hhi hview hall⟩

theorem HoldsAll.frame (hlo : lo' ≤ lo) (hhi : hi ≤ hi')
    (hview : ∀ k, lo ≤ k → k < hi → b.view? k = a.view? k) :
    ∀ {es : List Expr} {js : List Nat}, a.HoldsAll lo hi es js → b.HoldsAll lo' hi' es js
  | [], [], _ => trivial
  | _ :: _, _ :: _, ⟨h, hall⟩ => ⟨Holds.frame hlo hhi hview h, HoldsAll.frame hlo hhi hview hall⟩

end

theorem HoldsAll.snoc {es : List Expr} {js : List Nat} {e : Expr} {j : Nat}
    (h : a.HoldsAll lo hi es js)
    (he : a.Holds lo hi e j) : a.HoldsAll lo hi (es ++ [e]) (js ++ [j]) := by
  induction es generalizing js with
  | nil =>
    cases js with
    | nil => exact ⟨he, trivial⟩
    | cons j js => exact h.elim
  | cons e es ih =>
    cases js with
    | nil => exact h.elim
    | cons j js => exact ⟨h.1, ih h.2⟩

end Holds

end Arena

/-! The reader. -/

inductive PlantError where
  | read (e : ReadError)
  | push (e : ArenaError)
  deriving DecidableEq

namespace Arena

def openingOf (a : Arena) (i : Nat) : Position :=
  (((a.nodes[i]?).bind ArenaNode.token).map Token.pos).getD ⟨0, 0⟩

def ending (a : Arena) : List Nat → Except PlantError Arena
  | [] => .ok a
  | i :: _ => .error (.read (.unclosedList (a.openingOf i)))

/-- Reads on with the lists that have the numbers `opened`, the innermost first. Outside all of them
new nodes are pushed into the root, which has number 0. -/
def plantFrom (opened : List Nat) (a : Arena) : List Token → Except PlantError Arena
  | [] => a.ending opened
  | t :: ts =>
    if t.kind = .endOfText then a.ending opened
    else if t.kind = .openList then
      match a.pushNew (opened.headD 0) (.list (some t)) with
      | (.ok i, a) => plantFrom (i :: opened) a ts
      | (.error e, _) => .error (.push e)
    else if t.kind = .closeList then
      match opened with
      | [] => .error (.read (.strayClose t.pos))
      | _ :: opened => plantFrom opened a ts
    else if t.kind.isAtom then
      match a.pushNew (opened.headD 0) (.atom t) with
      | (.ok _, a) => plantFrom opened a ts
      | (.error e, _) => .error (.push e)
    else .error (.read (.unexpectedToken t.pos))

def plant (ts : List Token) : Except PlantError Arena := plantFrom [] ⟨#[.list none]⟩ ts

def SameEnd : Except PlantError Arena → Except ReadError (List Expr) → Prop
  | .ok a, .ok es => a.HoldsForest es
  | .error (.read e), .error e' => e = e'
  | _, _ => False

/-- The lists `opened` of the one reader are the frames of the other. The innermost holds the
expressions `done`, all below `hi`, and after them the nodes `inner`. -/
inductive Stands (a : Arena) : Nat → List Nat → List Frame → List Expr → List Nat → Prop where
  | root {hi : Nat} {done : List Expr} {c inner : List Nat} : 0 < hi →
      a.view? 0 = some (.expression, none, (c ++ inner).map some) → a.HoldsAll 1 hi done.reverse c →
      Stands a hi [] [] done inner
  | list {hi i : Nat} {opened : List Nat} {f : Frame} {frames : List Frame} {done : List Expr}
      {c inner : List Nat} : i < hi →
      a.view? i = some (.expression, some ⟨.openList, "(", f.opening⟩, (c ++ inner).map some) →
      a.HoldsAll (i + 1) hi done.reverse c → Stands a i opened frames f.before [i] →
      Stands a hi (i :: opened) (f :: frames) done inner

namespace Stands

variable {a b : Arena} {hi hi' : Nat} {opened : List Nat} {frames : List Frame} {done : List Expr}
  {inner : List Nat}

theorem innermost (h : a.Stands hi opened frames done inner) :
    ∃ token children, a.view? (opened.headD 0) = some (.expression, token, children) := by
  cases h with
  | root _ hview _ => exact ⟨_, _, hview⟩
  | list _ hview _ _ => exact ⟨_, _, hview⟩

theorem frame (h : a.Stands hi opened frames done inner)
    (hview : ∀ k, k < hi → b.view? k = a.view? k) :
    b.Stands hi opened frames done inner := by
  induction h with
  | root hpos hroot hall =>
    exact .root hpos ((hview 0 hpos).trans hroot)
      (hall.frame (Nat.le_refl _) (Nat.le_refl _) fun k _ hk => hview k hk)
  | list hi' hlist hall _ ih =>
    exact .list hi' ((hview _ hi').trans hlist)
      (hall.frame (Nat.le_refl _) (Nat.le_refl _) fun k _ hk => hview k hk)
      (ih fun k hk => hview k (Nat.lt_trans hk hi'))

/-- Pushing changes the innermost open list only, which has one more child. -/
theorem push (h : a.Stands a.size opened frames done []) {token : Option Token}
    {children : List (Option Nat)}
    (hold : a.view? (opened.headD 0) = some (.expression, token, children))
    (hnew : b.view? (opened.headD 0) = some (.expression, token, children ++ [some a.size]))
    (hrest : ∀ k, k ≠ opened.headD 0 → k < a.size → b.view? k = a.view? k) :
    b.Stands a.size opened frames done [a.size] := by
  cases h with
  | @root _ _ js _ hpos hroot hall =>
    have heq := Option.some.inj (hroot.symm.trans hold)
    simp only [Prod.mk.injEq, true_and] at heq
    obtain ⟨rfl, rfl⟩ := heq
    refine .root (c := js) hpos (hnew.trans (by simp)) ?_
    exact hall.frame (Nat.le_refl _) (Nat.le_refl _) fun k hlo hk => hrest k (Nat.ne_of_gt hlo) hk
  | @list _ i opened f frames _ js _ hi' hlist hall houter =>
    have heq := Option.some.inj (hlist.symm.trans hold)
    simp only [Prod.mk.injEq, true_and] at heq
    obtain ⟨rfl, rfl⟩ := heq
    refine .list (c := js) hi' (hnew.trans (by simp)) ?_ ?_
    · exact hall.frame (Nat.le_refl _) (Nat.le_refl _) fun k hlo hk => hrest k (Nat.ne_of_gt hlo) hk
    · exact houter.frame fun k hk => hrest k (Nat.ne_of_lt hk) (Nat.lt_trans hk hi')

theorem absorb {e : Expr} {j : Nat} (h : a.Stands hi opened frames done [j]) (hhi : hi ≤ hi')
    (he : a.Holds hi hi' e j) : a.Stands hi' opened frames (e :: done) [] := by
  cases h with
  | @root _ _ js _ hpos hroot hall =>
    refine .root (c := js ++ [j]) (Nat.lt_of_lt_of_le hpos hhi) (by simpa using hroot) ?_
    rw [List.reverse_cons]
    exact (hall.frame (Nat.le_refl _) hhi fun _ _ _ => rfl).snoc
      (he.frame hpos (Nat.le_refl _) fun _ _ _ => rfl)
  | @list _ i opened f frames _ js _ hi' hlist hall houter =>
    refine .list (c := js ++ [j]) (Nat.lt_of_lt_of_le hi' hhi) (by simpa using hlist) ?_ houter
    rw [List.reverse_cons]
    exact (hall.frame (Nat.le_refl _) hhi fun _ _ _ => rfl).snoc
      (he.frame hi' (Nat.le_refl _) fun _ _ _ => rfl)

theorem close {i : Nat} {f : Frame} (h : a.Stands hi (i :: opened) (f :: frames) done []) :
    a.Stands hi opened frames (.list f.opening done.reverse :: f.before) [] := by
  cases h with
  | @list _ _ _ _ _ _ js _ hi' hlist hall houter =>
    refine houter.absorb (Nat.le_of_lt hi') ⟨⟨Nat.le_refl _, hi'⟩, js,
      by rwa [List.append_nil] at hlist, ?_⟩
    exact hall.frame (Nat.le_succ _) (Nat.le_refl _) fun _ _ _ => rfl

theorem ending (h : a.Stands a.size opened frames done []) :
    SameEnd (a.ending opened) (finish frames done) := by
  cases h with
  | @root _ _ js _ _ hroot hall => exact ⟨js, by simpa using hroot, hall⟩
  | @list _ i opened f frames _ js _ _ hlist _ _ =>
    obtain ⟨n, hn, hview⟩ := Option.map_eq_some_iff.1 hlist
    obtain ⟨-, htoken, -⟩ : n.kind = _ ∧ n.token = _ ∧ n.children.toList = _ := by simpa using hview
    show ReadError.unclosedList (a.openingOf i) = .unclosedList f.opening
    simp [openingOf, hn, htoken]

end Stands

/-- Where the lists that are open are the same, both readers go on to the same end. -/
theorem plantFrom_build {a : Arena} {opened : List Nat} {frames : List Frame} {done : List Expr}
    {ts : List Token}
    (h : a.Stands a.size opened frames done []) (hts : ∀ t ∈ ts, t.kind = .openList →
      t.text = "(") :
    SameEnd (plantFrom opened a ts) (build frames done ts) := by
  fun_induction build frames done ts generalizing a opened with
  | case1 frames done => exact h.ending
  | case2 frames done t ts hend =>
    rw [plantFrom.eq_def]
    simp only [if_pos hend]
    exact h.ending
  | case3 frames done t ts hend hopen ih =>
    obtain ⟨token, children, hinnermost⟩ := h.innermost
    obtain ⟨b, hb, hsize, hnew, hnode, hrest⟩ := pushNew_of_list hinnermost (.list (some t))
    rw [plantFrom.eq_def]
    simp only [if_neg hend, if_pos hopen, hb]
    refine ih ?_ fun u hu => hts u (List.mem_cons_of_mem _ hu)
    have ht : t = ⟨.openList, "(", t.pos⟩ := by rw [← hopen, ← hts t List.mem_cons_self hopen]
    have hstands := h.push hinnermost hnew hrest
    refine .list (c := []) (by omega) ?_ trivial hstands
    rw [hnode, ← ht]
    rfl
  | case4 done t ts hend hopen hclose =>
    cases h
    rw [plantFrom, if_neg hend, if_neg hopen, if_pos hclose]
    rfl
  | case5 done t ts hend hopen hclose f frames ih =>
    cases opened with
    | nil => cases h
    | cons i opened =>
      rw [plantFrom, if_neg hend, if_neg hopen, if_pos hclose]
      exact ih h.close fun u hu => hts u (List.mem_cons_of_mem _ hu)
  | case6 frames done t ts hend hopen hclose hatom ih =>
    obtain ⟨token, children, hinnermost⟩ := h.innermost
    obtain ⟨b, hb, hsize, hnew, hnode, hrest⟩ := pushNew_of_list hinnermost (.atom t)
    rw [plantFrom.eq_def]
    simp only [if_neg hend, if_neg hopen, if_neg hclose, if_pos hatom, hb]
    refine ih ?_ fun u hu => hts u (List.mem_cons_of_mem _ hu)
    have hstands := h.push hinnermost hnew hrest
    exact hstands.absorb (by omega) ⟨by omega, hnode⟩
  | case7 frames done t ts hend hopen hclose hatom =>
    rw [plantFrom.eq_def]
    simp only [if_neg hend, if_neg hopen, if_neg hclose, if_neg hatom]
    rfl

theorem plant_forest {ts : List Token} (hts : ∀ t ∈ ts, t.kind = .openList → t.text = "(") :
    SameEnd (plant ts) (forest ts) :=
  plantFrom_build (.root (c := []) Nat.one_pos rfl trivial) hts

end Arena

end ListLang
