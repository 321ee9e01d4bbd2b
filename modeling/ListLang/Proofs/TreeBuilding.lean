import ListLang.Arena

/-! Trees built call by call. A push writes two links: the child stands at the end of the list, and
the list is its parent. A node that is pushed again keeps the places it has and forgets the parent
it had. So an arena is told by its history, the nodes as they were made and the pushes that
succeeded, both in order. -/

namespace ListLang

inductive ArenaCall where
  | newAtom (t : Token)
  | newList (t : Option Token)
  | push (i c : Nat)
  | pushAtom (i : Nat) (t : Token)
  | pushList (i : Nat) (t : Option Token)

structure Edge where
  parent : Nat
  child : Nat
  deriving DecidableEq

namespace Edge

def childrenOf (edges : List Edge) (i : Nat) : List (Option Nat) :=
  (edges.filter fun l => l.parent = i).map fun l => some l.child

def parentOf? (edges : List Edge) (i : Nat) : Option Nat :=
  (edges.filter fun l => l.child = i).getLast?.map Edge.parent

theorem childrenOf_append (edges more : List Edge) (i : Nat) :
    childrenOf (edges ++ more) i = childrenOf edges i ++ childrenOf more i := by
  simp [childrenOf]

theorem childrenOf_snoc (edges : List Edge) (p c i : Nat) :
    childrenOf (edges ++ [⟨p, c⟩]) i = if p = i then childrenOf edges i ++ [some c]
      else childrenOf edges i := by
  rw [childrenOf_append]
  by_cases h : p = i <;> simp [childrenOf, h]

theorem parentOf?_snoc (edges : List Edge) (p c i : Nat) :
    parentOf? (edges ++ [⟨p, c⟩]) i = if c = i then some p else parentOf? edges i := by
  by_cases h : c = i <;> simp [parentOf?, h]

theorem childrenOf_eq_nil {edges : List Edge} {i : Nat} (h : ∀ l ∈ edges, l.parent ≠ i) :
    childrenOf edges i = [] := by
  simpa [childrenOf] using h

theorem parentOf?_eq_none {edges : List Edge} {i : Nat} (h : ∀ l ∈ edges, l.child ≠ i) :
    parentOf? edges i = none := by
  simpa [parentOf?] using h

theorem mem_childrenOf {edges : List Edge} {i c : Nat} :
    some c ∈ childrenOf edges i ↔ ⟨i, c⟩ ∈ edges := by
  simp only [childrenOf, List.mem_map, List.mem_filter, decide_eq_true_eq, Option.some.injEq]
  constructor
  · rintro ⟨l, ⟨hl, rfl⟩, rfl⟩
    exact hl
  · intro h
    exact ⟨_, ⟨h, rfl⟩, rfl⟩

theorem mem_of_parentOf? {edges : List Edge} {c p : Nat} (h : parentOf? edges c = some p) :
    ⟨p, c⟩ ∈ edges := by
  obtain ⟨l, hl, rfl⟩ := Option.map_eq_some_iff.1 h
  obtain ⟨hmem, hchild⟩ := List.mem_filter.1 (List.mem_of_getLast? hl)
  rw [← of_decide_eq_true hchild]
  exact hmem

end Edge

def ArenaNode.linked (edges : List Edge) (i : Nat) (n : ArenaNode) : ArenaNode :=
  { n with children := (Edge.childrenOf edges i).toArray, parent := Edge.parentOf? edges i }

namespace ArenaCall

def node? : ArenaCall → Option ArenaNode
  | newAtom t => some (.atom t)
  | newList t => some (.list t)
  | push _ _ => none
  | pushAtom _ t => some (.atom t)
  | pushList _ t => some (.list t)

def target? : ArenaCall → Option Nat
  | newAtom _ => none
  | newList _ => none
  | push i _ => some i
  | pushAtom i _ => some i
  | pushList i _ => some i

/-- The node that is made or pushed, in an arena of this size. -/
def child (size : Nat) : ArenaCall → Nat
  | push _ c => c
  | _ => size

def named : ArenaCall → List Nat
  | newAtom _ => []
  | newList _ => []
  | push i c => [i, c]
  | pushAtom i _ => [i]
  | pushList i _ => [i]

theorem target_mem_named {call : ArenaCall} {i : Nat} (h : call.target? = some i) :
    i ∈ call.named := by
  cases call <;> cases h <;> exact List.mem_cons_self

theorem child_lt {call : ArenaCall} {size : Nat} (h : ∀ i ∈ call.named, i < size) :
    call.child size < size + call.node?.toList.length := by
  cases call with
  | push i c => exact h c (by simp [named])
  | newAtom t => exact Nat.lt_succ_self size
  | newList t => exact Nat.lt_succ_self size
  | pushAtom i t => exact Nat.lt_succ_self size
  | pushList i t => exact Nat.lt_succ_self size

def edge? (call : ArenaCall) : Except ArenaError Nat → Option Edge
  | .ok c => call.target?.map fun i => ⟨i, c⟩
  | .error _ => none

/-- The node that is there after the answer and was not before. -/
def made? (call : ArenaCall) : Except ArenaError Nat → Option ArenaNode
  | .ok _ => call.node?
  | .error _ => none

end ArenaCall

namespace Arena

/-- Makes a call. It answers with the node that is made or pushed. -/
def perform (a : Arena) : ArenaCall → Except ArenaError Nat × Arena
  | .newAtom t => (.ok (a.add (.atom t)).1, (a.add (.atom t)).2)
  | .newList t => (.ok (a.add (.list t)).1, (a.add (.list t)).2)
  | .push i c => ((a.push i (some c)).1.map fun _ => c, (a.push i (some c)).2)
  | .pushAtom i t => a.pushNew i (.atom t)
  | .pushList i t => a.pushNew i (.list t)

def after (a : Arena) (calls : List ArenaCall) : Arena :=
  calls.foldl (fun a call => (a.perform call).2) a

def pushes (a : Arena) : List ArenaCall → List Edge
  | [] => []
  | call :: calls => (call.edge? (a.perform call).1).toList ++ (a.perform call).2.pushes calls

def made (a : Arena) : List ArenaCall → List ArenaNode
  | [] => []
  | call :: calls => (call.made? (a.perform call).1).toList ++ (a.perform call).2.made calls

/-- Every call is made with nodes that are there by then. -/
def Admits (a : Arena) : List ArenaCall → Prop
  | [] => True
  | call :: calls => (∀ i ∈ call.named, i < a.size) ∧ (a.perform call).2.Admits calls

instance decidableAdmits : (a : Arena) → (calls : List ArenaCall) → Decidable (a.Admits calls)
  | _, [] => .isTrue trivial
  | a, call :: calls =>
    @instDecidableAnd _ _ inferInstance (decidableAdmits (a.perform call).2 calls)

theorem after_append (a : Arena) (calls later : List ArenaCall) :
    a.after (calls ++ later) = (a.after calls).after later := List.foldl_append

theorem admits_append {a : Arena} {calls later : List ArenaCall} :
    a.Admits (calls ++ later) ↔ a.Admits calls ∧ (a.after calls).Admits later := by
  induction calls generalizing a with
  | nil => exact (iff_of_eq (true_and _)).symm
  | cons call calls ih =>
    rw [List.cons_append, Admits, Admits, ih, and_assoc]
    rfl

/-! What one call does. -/

def link (a : Arena) (i c : Nat) : Arena := (a.appendChild i (some c)).setParent c i

/-- The arena with the node that a call makes, if it makes one. -/
def making (a : Arena) : Option ArenaNode → Arena
  | none => a
  | some n => (a.add n).2

section Perform

variable {a : Arena} {call : ArenaCall} {i : Nat} {n : ArenaNode}

theorem perform_of_new (h : call.target? = none) :
    a.perform call = (.ok a.size, a.making call.node?) := by
  cases call with
  | newAtom t => rfl
  | newList t => rfl
  | push i c => cases h
  | pushAtom i t => cases h
  | pushList i t => cases h

theorem push_of_node (hn : a.nodes[i]? = some n) (c : Nat) :
    a.push i (some c) = if n.isList then (.ok (), a.link i c) else (.error .notList, a) := by
  cases h : n.isList <;> simp [push, hn, h, link]

theorem pushNew_of_node (hn : a.nodes[i]? = some n) (m : ArenaNode) :
    a.pushNew i m =
      if n.isList then (.ok a.size, (a.making (some m)).link i a.size)
        else (.error .notList, a) := by
  have hi : i < a.nodes.size := (Array.getElem?_eq_some_iff.1 hn).1
  have hold : (a.add m).2.nodes[i]? = some n := by
    rw [add, Array.getElem?_push_lt hi, ← hn, Array.getElem?_eq_getElem hi]
  simp only [pushNew, push_of_node hold]
  cases n.isList <;> rfl

/-- A push into a list succeeds, and a push into an atom changes nothing. -/
theorem perform_of_target (h : call.target? = some i) (hn : a.nodes[i]? = some n) :
    a.perform call =
      if n.isList then (.ok (call.child a.size), (a.making call.node?).link i (call.child a.size))
      else (.error .notList, a) := by
  cases call with
  | newAtom t => cases h
  | newList t => cases h
  | push j c =>
    cases h
    rw [perform, push_of_node hn]
    cases n.isList <;> rfl
  | pushAtom j t =>
    cases h
    rw [perform, pushNew_of_node hn]
    rfl
  | pushList j t =>
    cases h
    rw [perform, pushNew_of_node hn]
    rfl

end Perform

/-! The history of an arena. -/

/-- The nodes are as they were made, with the children that were pushed into them and the list that
they were pushed into last. -/
structure Told (made : List ArenaNode) (edges : List Edge) (a : Arena) : Prop where
  size : a.size = made.length
  node : ∀ i, a.nodes[i]? = (made[i]?).map (ArenaNode.linked edges i)
  parent : ∀ l ∈ edges, ∃ n, made[l.parent]? = some n ∧ n.isList
  child : ∀ l ∈ edges, l.child < made.length

namespace Told

variable {a : Arena} {made : List ArenaNode} {edges : List Edge}

theorem empty : Told [] [] Arena.empty where
  size := rfl
  node _ := rfl
  parent _ h := absurd h List.not_mem_nil
  child _ h := absurd h List.not_mem_nil

theorem node_of (h : Told made edges a) {i : Nat} {n : ArenaNode} (hn : a.nodes[i]? = some n) :
    ∃ m, made[i]? = some m ∧ n = m.linked edges i := by
  rw [h.node] at hn
  obtain ⟨m, hm, rfl⟩ := Option.map_eq_some_iff.1 hn
  exact ⟨m, hm, rfl⟩

theorem parent_lt (h : Told made edges a) {l : Edge} (hl : l ∈ edges) : l.parent < made.length := by
  obtain ⟨n, hn, -⟩ := h.parent l hl
  exact (List.getElem?_eq_some_iff.1 hn).1

theorem add (h : Told made edges a) {n : ArenaNode} (hchildren : n.children = #[])
    (hparent : n.parent = none) :
    Told (made ++ [n]) edges (a.add n).2 where
  size := by simp [Arena.add, Arena.size, ← h.size]
  node i := by
    have hsize : a.nodes.size = made.length := h.size
    rw [Arena.add, Array.getElem?_push, hsize]
    by_cases hi : i = made.length
    · -- nothing was pushed into the new node, and it was pushed nowhere
      have hnew : n.linked edges i = n := by
        rw [ArenaNode.linked, Edge.childrenOf_eq_nil fun l hl => hi ▸ Nat.ne_of_lt (h.parent_lt hl),
          Edge.parentOf?_eq_none fun l hl => hi ▸ Nat.ne_of_lt (h.child l hl), ← hparent]
        exact congrArg (ArenaNode.mk n.kind n.token · n.parent) hchildren.symm
      rw [hi, if_pos rfl, List.getElem?_concat_length, Option.map_some, ← hi, hnew]
    · rw [if_neg hi, h.node i, List.getElem?_append]
      split
      · rfl
      · rename_i hlt
        rw [List.getElem?_eq_none (by omega), List.getElem?_eq_none (by simp; omega)]
  parent l hl := by
    obtain ⟨m, hm, hlist⟩ := h.parent l hl
    exact ⟨m, by rw [List.getElem?_append_left (h.parent_lt hl), hm], hlist⟩
  child l hl := by
    have := h.child l hl
    simp
    omega

theorem making (h : Told made edges a) (call : ArenaCall) :
    Told (made ++ call.node?.toList) edges (a.making call.node?) := by
  cases call with
  | newAtom t => exact h.add rfl rfl
  | newList t => exact h.add rfl rfl
  | push i c => exact (List.append_nil made).symm ▸ h
  | pushAtom i t => exact h.add rfl rfl
  | pushList i t => exact h.add rfl rfl

theorem link (h : Told made edges a) {i c : Nat} {n : ArenaNode} (hn : made[i]? = some n)
    (hlist : n.isList) (hc : c < made.length) : Told made (edges ++ [⟨i, c⟩]) (a.link i c) where
  size := by simpa [Arena.link, setParent, appendChild, Arena.size] using h.size
  node k := by
    simp only [Arena.link, setParent, appendChild, Array.getElem?_modify, h.node]
    cases made[k]? with
    | none => simp
    | some m =>
      -- a list may be pushed into itself
      by_cases hi : i = k <;> by_cases hc : c = k <;>
        simp [ArenaNode.linked, Edge.childrenOf_snoc, Edge.parentOf?_snoc, hi, hc]
  parent l hl := by
    rcases List.mem_append.1 hl with hl | hl
    · exact h.parent l hl
    · cases List.mem_singleton.1 hl
      exact ⟨n, hn, hlist⟩
  child l hl := by
    rcases List.mem_append.1 hl with hl | hl
    · exact h.child l hl
    · cases List.mem_singleton.1 hl
      exact hc

theorem perform (h : Told made edges a) {call : ArenaCall} (hnamed : ∀ i ∈ call.named, i < a.size) :
    Told (made ++ (call.made? (a.perform call).1).toList)
      (edges ++ (call.edge? (a.perform call).1).toList)
      (a.perform call).2 := by
  cases htarget : call.target? with
  | none =>
    simp only [perform_of_new htarget, ArenaCall.edge?, ArenaCall.made?, htarget, Option.map_none,
      Option.toList_none, List.append_nil]
    exact h.making call
  | some i =>
    have hi : i < a.size := hnamed i (ArenaCall.target_mem_named htarget)
    obtain ⟨n, hn⟩ : ∃ n, made[i]? = some n := ⟨_, List.getElem?_eq_getElem (h.size ▸ hi)⟩
    have hnode := h.node i
    rw [hn] at hnode
    rw [perform_of_target htarget hnode]
    split
    · rename_i hlist
      have hchild : call.child a.size < (made ++ call.node?.toList).length := by
        rw [List.length_append, ← h.size]
        exact ArenaCall.child_lt hnamed
      have hkept : (made ++ call.node?.toList)[i]? = some n := by
        rw [List.getElem?_append_left (h.size ▸ hi), hn]
      have hlinked := (h.making call).link hkept hlist hchild
      simpa only [ArenaCall.edge?, ArenaCall.made?, htarget, Option.map_some,
        Option.toList_some] using hlinked
    · simpa only [ArenaCall.edge?, ArenaCall.made?, Option.toList_none, List.append_nil] using h

theorem run {calls : List ArenaCall} (h : Told made edges a) (hcalls : a.Admits calls) :
    Told (made ++ a.made calls) (edges ++ a.pushes calls) (a.after calls) := by
  induction calls generalizing a made edges with
  | nil => simpa only [Arena.made, pushes, after, List.foldl_nil, List.append_nil] using h
  | cons call calls ih =>
    obtain ⟨hcall, hrest⟩ := hcalls
    have := ih (h.perform hcall) hrest
    rw [List.append_assoc, List.append_assoc] at this
    exact this

end Told

/-! What the history says about the tree. -/

/-- The two links of every push agree, and nothing else is linked. -/
structure Consistent (a : Arena) (made : List ArenaNode) (edges : List Edge) : Prop where
  nodes : a.nodes.toList.map (fun n => (n.kind, n.token)) = made.map fun n => (n.kind, n.token)
  atom : ∀ (i : Nat) (n : ArenaNode), a.nodes[i]? = some n → n.kind ≠ .expression → n.children = #[]
  parent : ∀ (c p : Nat) (n : ArenaNode), a.nodes[c]? = some n → n.parent = some p →
    ∃ m : ArenaNode, a.nodes[p]? = some m ∧ m.kind = .expression ∧ some c ∈ m.children
  /-- A node is the child of a list as often as it was pushed into it, in the order of the
  pushes. -/
  children : ∀ (i : Nat) (n : ArenaNode), a.nodes[i]? = some n → n.children.toList =
    Edge.childrenOf edges i
  lastParent : ∀ (c : Nat) (n : ArenaNode), a.nodes[c]? = some n → n.parent = Edge.parentOf? edges c

/-- Nodes stay what they are, and children are added at the end. -/
def Grows (a b : Arena) : Prop :=
  ∀ (i : Nat) (n : ArenaNode), a.nodes[i]? = some n → ∃ m : ArenaNode, b.nodes[i]? = some m ∧
    m.kind = n.kind ∧ m.token = n.token ∧ m.text = n.text ∧ n.children.toList <+: m.children.toList

namespace Told

variable {a b : Arena} {made more : List ArenaNode} {edges pushed : List Edge}

theorem consistent (h : Told made edges a) : a.Consistent made edges := by
  have hnodes : a.nodes.toList.map (fun n => (n.kind, n.token)) =
      made.map fun n => (n.kind, n.token) := by
    refine List.ext_getElem? fun i => ?_
    rw [List.getElem?_map, List.getElem?_map, Array.getElem?_toList, h.node, Option.map_map]
    rfl
  have hchildren : ∀ (i : Nat) (n : ArenaNode), a.nodes[i]? = some n →
      n.children.toList = Edge.childrenOf edges i := by
    intro i n hn
    obtain ⟨m, -, rfl⟩ := h.node_of hn
    rfl
  have hparent : ∀ (c : Nat) (n : ArenaNode), a.nodes[c]? = some n → n.parent =
      Edge.parentOf? edges c := by
    intro c n hn
    obtain ⟨m, -, rfl⟩ := h.node_of hn
    rfl
  have hlist : ∀ l ∈ edges, ∃ m : ArenaNode, a.nodes[l.parent]? = some m ∧ m.kind =
      .expression := by
    intro l hl
    obtain ⟨m, hm, hkind⟩ := h.parent l hl
    exact ⟨m.linked edges l.parent, by rw [h.node, hm, Option.map_some], of_decide_eq_true hkind⟩
  refine ⟨hnodes, ?_, ?_, hchildren, hparent⟩
  · intro i n hn hkind
    rw [← Array.toList_eq_nil_iff, hchildren i n hn]
    refine Edge.childrenOf_eq_nil fun l hl hi => ?_
    obtain ⟨m, hm, hexpr⟩ := hlist l hl
    rw [hi, hn] at hm
    exact hkind (Option.some.inj hm ▸ hexpr)
  · intro c p n hn hp
    have hl := Edge.mem_of_parentOf? ((hparent c n hn).symm.trans hp)
    obtain ⟨m, hm, hkind⟩ := hlist _ hl
    refine ⟨m, hm, hkind, ?_⟩
    rw [← Array.mem_toList_iff, hchildren p m hm]
    exact Edge.mem_childrenOf.2 hl

theorem grows (h : Told made edges a) (hb : Told (made ++ more) (edges ++ pushed) b) :
    a.Grows b := by
  intro i n hn
  obtain ⟨m, hm, rfl⟩ := h.node_of hn
  have hi : i < made.length := (List.getElem?_eq_some_iff.1 hm).1
  refine ⟨m.linked (edges ++ pushed) i, ?_, rfl, rfl, rfl, ?_⟩
  · rw [hb.node, List.getElem?_append_left hi, hm, Option.map_some]
  · simp only [ArenaNode.linked, Edge.childrenOf_append]
    exact List.prefix_append _ _

end Told

end Arena

/-- Whatever is built, with nodes that are there: the nodes are those that were made, their links
are those of the pushes that succeeded, and they stay what they are while lists grow at the end.
Nodes can always be made, and a push succeeds into a list and only there. -/
theorem built_trees_are_consistent (calls later : List ArenaCall)
    (h : Arena.empty.Admits (calls ++ later)) :
    (Arena.empty.after calls).Consistent (Arena.empty.made calls) (Arena.empty.pushes calls) ∧
      (Arena.empty.after calls).Grows (Arena.empty.after (calls ++ later)) ∧
      ∀ call : ArenaCall,
        (call.target? = none → ((Arena.empty.after calls).perform call).1 =
          .ok (Arena.empty.after calls).size) ∧
        ∀ (i : Nat) (n : ArenaNode), call.target? = some i → (Arena.empty.after calls).nodes[i]? =
          some n →
          (n.kind = .expression →
            ((Arena.empty.after calls).perform call).1 =
              .ok (call.child (Arena.empty.after calls).size)) ∧
          (n.kind ≠ .expression →
            (Arena.empty.after calls).perform call =
              (.error .notList, Arena.empty.after calls)) := by
  obtain ⟨hcalls, hlater⟩ := Arena.admits_append.1 h
  have htold := Arena.Told.empty.run hcalls
  refine ⟨htold.consistent, ?_, fun call => ⟨fun htarget => ?_, fun i n htarget hn => ?_⟩⟩
  · rw [Arena.after_append]
    exact htold.grows (htold.run hlater)
  · rw [Arena.perform_of_new htarget]
  · rw [Arena.perform_of_target htarget hn]
    constructor
    · intro hlist
      rw [if_pos (show n.isList = true from decide_eq_true hlist)]
    · intro hatom
      rw [if_neg (show ¬ n.isList = true from fun h => hatom (of_decide_eq_true h))]

/-- One atom in two lists, twice in the first; the inner list is in itself too, and a push into the
atom comes between. -/
def sharedAtom : List ArenaCall :=
  [.newList none, .newAtom ⟨.word, "x", ⟨1, 1⟩⟩, .push 0 1, .pushList 0 none, .push 2 1,
    .push 1 2, .push 2 2,
    .push 0 1]

theorem built_trees_are_consistent_sharedAtom :
    Arena.empty.pushes sharedAtom = [⟨0, 1⟩, ⟨0, 2⟩, ⟨2, 1⟩, ⟨2, 2⟩, ⟨0, 1⟩] ∧
      (Arena.empty.after sharedAtom).Consistent [.list none, .atom ⟨.word, "x", ⟨1, 1⟩⟩, .list none]
        [⟨0, 1⟩, ⟨0, 2⟩, ⟨2, 1⟩, ⟨2, 2⟩, ⟨0, 1⟩] ∧
      (Arena.empty.after (sharedAtom.take 5)).Grows (Arena.empty.after sharedAtom) ∧
      (Arena.empty.after sharedAtom).perform (.pushList 1 none) =
        (.error .notList, Arena.empty.after sharedAtom) := by
  have hpushes : Arena.empty.pushes sharedAtom = [⟨0, 1⟩, ⟨0, 2⟩, ⟨2, 1⟩, ⟨2, 2⟩, ⟨0, 1⟩] := by
    decide +kernel
  have hkind : ((Arena.empty.after sharedAtom).nodes[1]?).map ArenaNode.kind = some .symbol := by
    decide +kernel
  obtain ⟨hconsistent, -, hpush⟩ := built_trees_are_consistent sharedAtom [] (by decide +kernel)
  obtain ⟨-, hgrows, -⟩ :=
    built_trees_are_consistent (sharedAtom.take 5) (sharedAtom.drop 5) (by decide +kernel)
  obtain ⟨n, hn, hsymbol⟩ := Option.map_eq_some_iff.1 hkind
  refine ⟨hpushes, hpushes ▸ hconsistent, hgrows, ((hpush (.pushList 1 none)).2 1 n rfl hn).2 ?_⟩
  rw [hsymbol]
  decide

end ListLang
