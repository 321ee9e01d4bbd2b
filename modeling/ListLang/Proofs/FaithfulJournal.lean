import ListLang.Proofs.Shadowing

/-! The journal tells what became of the environment. A list that defines a function or calls one
appends to the environment and makes an entry in the same step, and no other step does either. So
the entries since an evaluation began are, one for one and in order, the definitions and the
bindings since then. -/

namespace ListLang

open Eval Machine Relation

/-- A definition or a call of a function, by a list at this depth. -/
structure Deed where
  event : JournalEvent
  function : Function
  depth : Nat

namespace Deed

def entry (d : Deed) : JournalEntry := ⟨d.depth, d.event, d.function.display⟩

def definition? (d : Deed) : Option Function :=
  match d.event with
  | .define => some d.function
  | .call => none

/-- A call binds the parameter without a value. -/
def binding? (d : Deed) : Option Binding :=
  match d.event with
  | .define => none
  | .call => some ⟨d.function.param, none⟩

/-- What a list with these items does when it is begun in this environment. A function that is
called is the first one of its name. -/
inductive Of (env : Environment) : List Expr → Deed → Prop where
  | define {t name : Token} {param : Expr} {body : List Expr} {depth : Nat} : t.text = "def" →
      Of env (.atom t :: .atom name :: param :: body) ⟨.define,
        ⟨name.text, some param, body⟩, depth⟩
  | call {t : Token} {args : List Expr} {f : Function} {depth : Nat} : t.IsName → t.text = f.name →
      env.lookup? f.name = none → env.functions.find? (·.name = f.name) = some f →
      Of env (.atom t :: args) ⟨.call, f, depth⟩

end Deed

/-- From `s` to `t` there were these deeds: the journal, the definitions and the bindings have each
grown by what the deeds add, in their order. -/
structure Written (ctx : Context) (s : Session) (deeds : List Deed) (t : Session) : Prop where
  journal : t.journal.toList = s.journal.toList ++ if ctx.journaling then deeds.map Deed.entry
    else []
  functions : t.env.functions.toList = s.env.functions.toList ++ deeds.filterMap Deed.definition?
  bindings : t.env.bindings.toList = s.env.bindings.toList ++ deeds.filterMap Deed.binding?

/-- Since an evaluation began there were these deeds. Each was done by one step, which began the
list in focus: the deeds before it were written by then, and it was written by that step. Its depth
counts the lists around that list, and the list itself. -/
structure Faithful (ctx : Context) (start : Machine) (deeds : List Deed) (t : Session) : Prop where
  written : Written ctx start.session deeds t
  moment : ∀ (before later : List Deed) (d : Deed), deeds = before ++ d :: later →
    ∃ (m n : Machine) (p : Position) (items : List Expr), Reaches ctx start m ∧ Steps ctx m n ∧
      m.focus = .expr (.list p items) ∧ d.Of m.session.env items ∧
      d.depth = start.session.depth + m.active + 1 ∧
      Written ctx start.session before m.session ∧
        Written ctx start.session (before ++ [d]) n.session

section Written

variable {ctx : Context} {s t u : Session} {deeds more : List Deed}

theorem written_of_same (henv : t.env = s.env) (hjournal : t.journal = s.journal) :
    Written ctx s [] t where
  journal := by simp [hjournal]
  functions := by simp [henv]
  bindings := by simp [henv]

theorem Written.trans (h : Written ctx s deeds t) (h' : Written ctx t more u) :
    Written ctx s (deeds ++ more) u where
  journal := by
    rw [h'.journal, h.journal, List.append_assoc]
    split <;> simp
  functions := by rw [h'.functions, h.functions, List.filterMap_append, List.append_assoc]
  bindings := by rw [h'.bindings, h.bindings, List.filterMap_append, List.append_assoc]

theorem written_define (ctx : Context) (f : Function) (s : Session) :
    Written ctx s [⟨.define, f, s.depth⟩]
      (Session.noting { s with env := s.env.define f } ctx .define f) where
  journal := by
    unfold Session.noting
    split <;> simp [Deed.entry]
  functions := by simp [Session.noting, Environment.define, Deed.definition?]
  bindings := by simp [Session.noting, Environment.define, Deed.binding?]

theorem written_call (ctx : Context) (f : Function) (s : Session) :
    Written ctx s [⟨.call, f, s.depth⟩]
      (Session.noting { s with env := s.env.bind f.param none } ctx .call f) where
  journal := by
    unfold Session.noting
    split <;> simp [Deed.entry]
  functions := by simp [Session.noting, Environment.bind, Deed.definition?]
  bindings := by simp [Session.noting, Environment.bind, Deed.binding?]

end Written

/-! What a step writes. -/

section Step

variable {ctx : Context} {m n : Machine}

/-- A list with these items writes nothing when it is begun, or its one deed. -/
def BeginsWriting (ctx : Context) (s : Session) (items : List Expr) (t : Session) : Prop :=
  Written ctx s [] t ∨ ∃ d : Deed, d.Of s.env items ∧ d.depth = s.depth ∧ Written ctx s [d] t

theorem definition_writes {t : Token} (ht : t.text = "def") (args : List Expr) (k : List Pending)
    (s : Session) :
    BeginsWriting ctx s (.atom t :: args) (definition ctx args k s).session := by
  unfold definition
  split
  · exact .inr ⟨_, .define ht, rfl, written_define ctx _ s⟩
  · exact .inl (written_of_same rfl rfl)
  · exact .inl (written_of_same rfl rfl)

theorem call_writes {t : Token} (ht : t.IsName) (args : List Expr) (k : List Pending)
    (s : Session) :
    BeginsWriting ctx s (.atom t :: args) (call ctx t.text args k s).session := by
  unfold call
  cases hl : s.env.lookup? t.text with
  | some v => exact .inl (written_of_same rfl rfl)
  | none =>
    cases hf : s.env.function? t.text with
    | some f =>
      have hname : f.name = t.text :=
        of_decide_eq_true (Array.find?_some (p := fun g : Function => g.name = t.text) hf)
      refine .inr ⟨_, .call ht hname.symm (hname ▸ hl) (hname ▸ hf), rfl, ?_⟩
      simp only [session_body]
      exact written_call ctx f s
    | none =>
      cases ctx.builtin? t.text with
      | none => exact .inl (written_of_same rfl rfl)
      | some b =>
        cases b with
        | eager apply =>
          exact .inl (written_of_same (by simp [session_arguments]) (by simp [session_arguments]))
        | lazy apply => exact .inl (written_of_same rfl rfl)

theorem form_writes (p : Position) (items : List Expr) (k : List Pending) (s : Session) :
    BeginsWriting ctx s items (form ctx p items k s).session := by
  cases items with
  | nil => exact .inl (written_of_same rfl rfl)
  | cons head args =>
    cases head with
    | list q xs => exact .inl (written_of_same rfl rfl)
    | atom t =>
      cases hop : operatorOf? t with
      | some op =>
        simp only [form, hop, session_arithmetic]
        exact .inl (written_of_same rfl rfl)
      | none =>
        by_cases hquote : isQuote t.text = true
        · simp only [form, hop, if_pos hquote]
          exact .inl (written_of_same rfl rfl)
        · by_cases hdef : t.text = "def"
          · simp only [form, hop, if_neg hquote, if_pos hdef]
            exact definition_writes hdef args k s
          · rw [form_of_name ⟨hop, hquote, hdef⟩]
            exact call_writes ⟨hop, hquote, hdef⟩ args k s

theorem resume_writes (v : Value) (first : Pending) (k : List Pending) (s : Session) :
    Written ctx s [] (resume ctx v first k s).session := by
  cases first with
  | operand op y => exact written_of_same rfl rfl
  | operator op a => exact written_of_same rfl rfl
  | body es =>
    rw [resume, session_body]
    exact written_of_same rfl rfl
  | builtin apply values es =>
    rw [resume, session_arguments]
    exact written_of_same rfl rfl
  | list p es =>
    unfold resume
    simp only
    split <;> exact written_of_same rfl rfl

/-- A step writes nothing, or it begins the list in focus and writes what that does. -/
theorem Machine.Steps.writes (h : Steps ctx m n) :
    Written ctx m.session [] n.session ∨
      ∃ (d : Deed) (p : Position) (items : List Expr), m.focus = .expr (.list p items) ∧
        d.Of m.session.env items ∧
        d.depth = m.session.depth + 1 ∧ Written ctx m.session [d] n.session := by
  obtain ⟨focus, k, s⟩ := m
  cases focus with
  | expr e =>
    cases e with
    | atom t =>
      rw [h.unique (steps_atom t)]
      exact .inl (written_of_same rfl rfl)
    | list p items =>
      by_cases hdeep : (ctx.limit ≠ 0 && ctx.limit ≤ s.depth) = true
      · rw [h.unique (steps_deep p items hdeep)]
        exact .inl (written_of_same rfl rfl)
      · rw [h.unique (steps_enter p items hdeep)]
        -- entering changes the depth only
        have hdown : Written ctx s [] s.down := written_of_same rfl rfl
        rcases form_writes p items (.list p items :: k) s.down with hnone | ⟨d, hof, hdepth, hone⟩
        · exact .inl (hdown.trans hnone)
        · exact .inr ⟨d, p, items, rfl, hof, hdepth, hdown.trans hone⟩
  | value v =>
    cases k with
    | nil => cases h
    | cons first k =>
      rw [h.unique (steps_value v first)]
      exact .inl (resume_writes v first k s)
  | error e =>
    cases k with
    | nil => cases h
    | cons first k =>
      refine .inl ?_
      cases first with
      | list p es =>
        rw [h.unique (steps_error_list e p es)]
        exact written_of_same rfl rfl
      | _ =>
        rw [h.unique (steps_error e rfl)]
        exact written_of_same rfl rfl

end Step

/-! What a run writes. -/

section Run

variable {ctx : Context} {start m n : Machine} {deeds : List Deed}

theorem Faithful.quiet (h : Faithful ctx start deeds m.session)
    (hquiet : Written ctx m.session [] n.session) :
    Faithful ctx start deeds n.session :=
  ⟨List.append_nil deeds ▸ h.written.trans hquiet, h.moment⟩

theorem Faithful.snoc {d : Deed} {p : Position} {items : List Expr}
    (h : Faithful ctx start deeds m.session)
    (hreaches : Reaches ctx start m) (hstep : Steps ctx m n) (hfocus : m.focus =
      .expr (.list p items))
    (hof : d.Of m.session.env items) (hdepth : d.depth = start.session.depth + m.active + 1)
    (hwritten : Written ctx m.session [d] n.session) :
      Faithful ctx start (deeds ++ [d]) n.session := by
  refine ⟨h.written.trans hwritten, fun before later x hsplit => ?_⟩
  rcases List.eq_nil_or_concat later with rfl | ⟨rest, last, rfl⟩
  · -- the last deed is the one of this step
    obtain ⟨rfl, hlast⟩ := List.append_inj' hsplit rfl
    obtain rfl := List.singleton_inj.1 hlast
    exact ⟨m, n, p, items, hreaches, hstep, hfocus, hof, hdepth, h.written,
      h.written.trans hwritten⟩
  · rw [List.concat_eq_append, ← List.cons_append, ← List.append_assoc] at hsplit
    obtain ⟨rfl, -⟩ := List.append_inj' hsplit rfl
    exact h.moment before rest x rfl

/-- At every moment of an evaluation the journal is faithful. -/
theorem Machine.Reaches.faithful (h : Reaches ctx start n) (hactive : start.active = 0) :
    ∃ deeds, Faithful ctx start deeds n.session := by
  induction h with
  | refl =>
    exact ⟨[], written_of_same rfl rfl, fun before later d hsplit => by simp at hsplit⟩
  | @tail m n hreaches hstep ih =>
    obtain ⟨deeds, hfaithful⟩ := ih
    rcases hstep.writes with hquiet | ⟨d, p, items, hfocus, hof, hdepth, hwritten⟩
    · exact ⟨deeds, hfaithful.quiet hquiet⟩
    · have hlevel : m.session.depth = start.session.depth + m.active :=
        Reaches.depth_of_active hreaches (by rw [hactive, Nat.add_zero])
      exact ⟨deeds ++ [d], hfaithful.snoc hreaches hstep hfocus hof
        (by rw [hdepth, hlevel]) hwritten⟩

theorem Machine.Yields.reaches_final {d : Nat} {r : EStateM.Result Halt Session Value}
    (h : Yields ctx d [] m r)
    (hgoes : failure? r ≠ some .exhausted) : ∃ n, Reaches ctx m n ∧ n.session = final r := by
  cases r with
  | ok v t => exact ⟨_, h, rfl⟩
  | error halt t =>
    cases halt with
    | error e => exact ⟨_, h, rfl⟩
    | exhausted => exact absurd rfl hgoes

theorem eval_faithful (e : Expr) (s : Session)
    (hgoes : failure? (eval ctx ctx.fuel e s) ≠ some .exhausted) :
    ∃ deeds, Faithful ctx (.start e s) deeds (final (eval ctx ctx.fuel e s)) := by
  have hyields := (carries_eval ctx ctx.fuel s.depth).yields e [] s rfl
  obtain ⟨n, hreaches, hsession⟩ := hyields.reaches_final hgoes
  exact hsession ▸ Reaches.faithful hreaches rfl

theorem active_body (last : Value) (es : List Expr) (s : Session) :
    (body last es [] s).active = 0 :=
  (within_body last es).active

/-- Expressions that are evaluated in order are evaluated as a body is. -/
theorem evalAll_faithful (es : List Expr) (s : Session)
    (hgoes : failure? (evalAll ctx es s) ≠ some .exhausted) :
    ∃ deeds, Faithful ctx (.body .nil es [] s) deeds (final (evalAll ctx es s)) := by
  have hyields := (carries_eval ctx ctx.fuel s.depth).evalBody .nil es [] (s := s) rfl
  have hsame : final (evalBody (eval ctx ctx.fuel) .nil es s) = final (evalAll ctx es s) ∧
      failure? (evalBody (eval ctx ctx.fuel) .nil es s) = failure? (evalAll ctx es s) := by
    rw [evalBody_eq_evalEach, evalAll]
    cases h : evalEach (eval ctx ctx.fuel) es s with
    | ok vs t =>
      rw [bind_of_ok h]
      exact ⟨rfl, rfl⟩
    | error halt t =>
      rw [bind_of_error h]
      exact ⟨rfl, rfl⟩
  rw [← hsame.2] at hgoes
  obtain ⟨n, hreaches, hsession⟩ := hyields.reaches_final hgoes
  have hfaithful := Reaches.faithful hreaches (active_body .nil es s)
  rwa [hsession, hsame.1] at hfaithful

end Run

/-! Sessions whose host binds nothing. -/

/-- No variable has a value. -/
def Session.Uninitialized (s : Session) : Prop := ∀ b ∈ s.env.bindings.toList, b.value = none

def Action.isBind : Action → Bool
  | .bind _ _ => true
  | _ => false

section Uninitialized

variable {ctx : Context} {s t : Session}

theorem Written.uninitialized {deeds : List Deed} (h : Written ctx s deeds t)
    (hs : s.Uninitialized) :
    t.Uninitialized := by
  intro b hb
  rw [h.bindings] at hb
  rcases List.mem_append.1 hb with hb | hb
  · exact hs b hb
  · obtain ⟨d, -, hd⟩ := List.mem_filterMap.1 hb
    unfold Deed.binding? at hd
    split at hd
    · cases hd
    · cases hd
      rfl

theorem Session.Uninitialized.lookup? (h : s.Uninitialized) {name : String} {v : Value}
    (hv : s.env.lookup? name = some v) : v = .nil := by
  obtain ⟨b, hb, rfl⟩ := Option.map_eq_some_iff.1 hv
  rw [h b (Array.mem_toList_iff.2 (Array.mem_of_find?_eq_some hb))]
  rfl

/-- Evaluation gives no variable a value, however it ends. -/
theorem uninitialized_steady (ctx : Context) :
    Steady ctx fun s t => s.Uninitialized → t.Uninitialized where
  refl _ := id
  trans h h' := h' ∘ h
  level h := h
  record e v s := by
    rw [record_run]
    split <;> exact id
  define f s := by
    rw [addFunction_run]
    exact (written_define ctx f s).uninitialized
  call s _ f _ _ := by
    rw [addCall_run]
    exact (written_call ctx f s).uninitialized

theorem performAll_uninitialized {as : List Action} (has : ∀ a ∈ as, a.isBind = false)
    (hs : s.Uninitialized) :
    (performAll ctx as s).2.Uninitialized := by
  have hsteady := uninitialized_steady ctx
  refine hsteady.performAll (fun a ha => hsteady.perform a (fun _ _ _ => id) ?_) s hs
  rintro param value s rfl
  cases has _ ha

theorem start_uninitialized : Session.start.Uninitialized := by
  intro b hb
  cases hb

end Uninitialized

/-- The journal is faithful at every moment of an evaluation and when it has ended, with a value or
an error. So where the host binds nothing, no variable ever has a value, and to read one gives
nil. -/
theorem journal_is_faithful (ctx : Context) :
    (∀ (es : List Expr) (s : Session) (n : Machine), Reaches ctx (.body .nil es [] s) n →
      ∃ deeds, Faithful ctx (.body .nil es [] s) deeds n.session) ∧
    (∀ (es : List Expr) (s : Session), failure? (evalAll ctx es s) ≠ some .exhausted →
      ∃ deeds, Faithful ctx (.body .nil es [] s) deeds (final (evalAll ctx es s))) ∧
    (∀ (e : Expr) (s : Session), failure? (eval ctx ctx.fuel e s) ≠ some .exhausted →
      ∃ deeds, Faithful ctx (.start e s) deeds (final (eval ctx ctx.fuel e s))) ∧
    ∀ as : List Action, (∀ a ∈ as, a.isBind = false) →
      ∀ (es : List Expr) (m : Machine),
        Reaches ctx (.body .nil es [] (performAll ctx as .start).2) m →
        m.session.Uninitialized ∧
        ∀ (fuel : Nat) (p : Position) (t : Token) (args : List Expr) (v : Value), t.IsName →
          m.session.env.lookup? t.text = some v →
          ReadsVariable ctx m.session .nil
            (eval ctx (fuel + 1) (.list p (.atom t :: args)) m.session) := by
  refine ⟨fun es s n hreaches => Reaches.faithful hreaches (active_body .nil es s),
    evalAll_faithful, eval_faithful, ?_⟩
  intro as has es m hreaches
  obtain ⟨deeds, hfaithful⟩ := Reaches.faithful hreaches (active_body .nil es _)
  have hbefore : (performAll ctx as .start).2.Uninitialized :=
    performAll_uninitialized has start_uninitialized
  have hm : m.session.Uninitialized := by
    refine hfaithful.written.uninitialized ?_
    rwa [session_body]
  refine ⟨hm, fun fuel p t args v hname hv => ?_⟩
  obtain rfl := hm.lookup? hv
  exact eval_readsVariable hname hv fuel p args

def wordAt (column : Nat) (text : String) : Expr := .atom ⟨.word, text, ⟨1, column⟩⟩

/-- Two functions `f`. The first one defines `g`, calls it, and then uses a name that stands for
nothing. -/
def brokenOff : List Expr :=
  [.list ⟨1, 1⟩ [wordAt 2 "def", wordAt 6 "f", wordAt 8 "x",
      .list ⟨1, 10⟩ [wordAt 11 "def", wordAt 15 "g", wordAt 17 "y", .list ⟨1, 19⟩ []],
      .list ⟨1, 23⟩ [wordAt 24 "g"], .list ⟨1, 27⟩ [wordAt 28 "h"]],
    .list ⟨1, 31⟩ [wordAt 32 "def", wordAt 36 "f", wordAt 38 "z"],
    .list ⟨1, 41⟩ [wordAt 42 "f"]]

def journaled : Context := { Context.plain "run" "0x1" with journaling := true }

def brokenOffSession : Session := final (evalAll journaled brokenOff .start)

theorem journal_is_faithful_brokenOff :
    failure? (evalAll journaled brokenOff .start) = some (.error (.unbound "h")) ∧
    brokenOffSession.journal.toList.map (·.line "" "run" "0x1") =
      ["[run]: depth 1 (0x1): def <function f x>\n", "[run]: depth 1 (0x1): def <function f z>\n",
        "[run]: depth 1 (0x1): call <function f x>\n", "[run]: depth 2 (0x1): def <function g y>\n",
        "[run]: depth 2 (0x1): call <function g y>\n"] ∧
    (∃ deeds, Faithful journaled (.body .nil brokenOff [] .start) deeds brokenOffSession) ∧
    (brokenOffSession.env.lookup? "x").isSome = true ∧
    ReadsVariable journaled brokenOffSession .nil
      (eval journaled 1000 (.list ⟨2, 1⟩ [wordAt 2 "x"]) brokenOffSession) := by
  have hfails : failure? (evalAll journaled brokenOff .start) = some (.error (.unbound "h")) := by
    decide +kernel
  have hbound : (brokenOffSession.env.lookup? "x").isSome = true := by decide +kernel
  have hsession : (performAll journaled [.evalAll brokenOff] .start).2 = brokenOffSession := by
    rw [performAll, performAll, Action.perform, brokenOffSession]
  obtain ⟨-, hall, -, hhost⟩ := journal_is_faithful journaled
  have hfaithful := hall brokenOff .start (by rw [hfails]; decide)
  rw [← brokenOffSession] at hfaithful
  refine ⟨hfails, by decide +kernel, hfaithful, hbound, ?_⟩
  obtain ⟨v, hv⟩ := Option.isSome_iff_exists.1 hbound
  have hreads :=
    (hhost [.evalAll brokenOff] (by simp [Action.isBind]) [] _ .refl).2 999 ⟨2, 1⟩ ⟨.word,
      "x", ⟨1, 2⟩⟩ []
  rw [session_body, hsession] at hreads
  exact hreads v (by decide) hv

end ListLang
