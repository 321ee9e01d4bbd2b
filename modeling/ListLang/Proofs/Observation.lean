import ListLang.Proofs.Simulation

/-! Observation. Whether a run is traced, in which format, and whether it is journaled changes
nothing of what it computes. A sink that takes a number of records and no more cuts the run at the
next record: up to there it is the run of a sink without bounds. -/

namespace ListLang

open Eval

/-- The same context with another tracer, and with a journal or without. -/
def Context.watched (ctx : Context) (tracer : Option Tracer) (journaling : Bool) : Context :=
  { ctx with tracer := tracer, journaling := journaling }

section Watched

variable (ctx : Context) {tracer tracer' : Option Tracer} (journaling journaling' : Bool)

theorem canRecord_of_reliable (h : Reliable tracer) (s : Session) :
    (ctx.watched tracer journaling).canRecord s = true := by
  unfold Context.canRecord Context.watched
  cases tracer with
  | none => rfl
  | some t => simp [Tracer.hasRoom, h t rfl]

/-! Runs that differ in what is observed of them. -/

/-- Two sessions with the same environment, at the same depth. -/
def watchLink : Link := .same (fun s t => s.env = t.env ∧ s.depth = t.depth) fun _ _ _ => False

theorem watchLink_sound (h : Reliable tracer) (h' : Reliable tracer') :
    watchLink.Sound (ctx.watched tracer journaling) (ctx.watched tracer' journaling') := by
  refine Link.sound_same rfl (fun _ => rfl) (fun hcut _ => hcut) (fun h => h.2)
    (fun h => h.1) ?_ ?_ ?_
  · intro f s t hst
    rw [addFunction_run, addFunction_run]
    exact ⟨rfl, congrArg (·.define f) hst.1, hst.2⟩
  · intro f s t hst
    rw [addCall_run, addCall_run]
    exact ⟨rfl, congrArg (·.bind f.param none) hst.1, hst.2⟩
  · intro e v s t hst
    rw [record_run, record_run, if_pos (canRecord_of_reliable ctx journaling h s),
      if_pos (canRecord_of_reliable ctx journaling' h' t)]
    exact ⟨rfl, hst⟩

theorem watchLink_nests : watchLink.Nests watchLink where
  down h := ⟨h.1, congrArg (· + 1) h.2⟩
  up h := ⟨h.1, congrArg (· - 1) h.2⟩
  cut h := h

theorem evalAll_watched (h : Reliable tracer) (h' : Reliable tracer') (es : List Expr) :
    watchLink.Follows Eq (evalAll (ctx.watched tracer journaling) es)
      (evalAll (ctx.watched tracer' journaling') es) := by
  have hes : List.Forall₂ Eq es es := List.forall₂_refl es
  have hfollows :=
    (watchLink_sound ctx journaling journaling' h h').evalAll rfl rfl watchLink_nests hes
  exact hfollows.mono fun _ _ => forall₂_valueRel_eq

end Watched

/-! Runs with a sink that fills up. -/

/-- One session for both runs as long as the sink has taken no more than `k` records. -/
def sinkLink (k : Nat) : Link :=
  .same (fun s t => s = t ∧ s.trace.size ≤ k)
    fun h s t => h = .error .sinkFull ∧ s.trace.size = k ∧ k < t.trace.size ∧ s.Grows t

section Sink

variable (ctx : Context) (format : TraceFormat) (journaling : Bool) (k : Nat)

/-- A trace in a sink that takes `capacity` records, or any number. -/
def Context.sinking (capacity : Option Nat) : Context :=
  ctx.watched (some ⟨format, capacity⟩) journaling

theorem sinkLink_record (e : Expr) (v : Value) :
    (sinkLink k).Follows Eq (record (ctx.sinking format journaling (some k)) e v)
      (record (ctx.sinking format journaling none) e v) := by
  rintro s _ ⟨rfl, hsize⟩
  have hroom : (ctx.sinking format journaling (some k)).canRecord s = decide (s.trace.size < k) :=
    rfl
  have hwritten : record (ctx.sinking format journaling none) e v s =
      .ok () (s.recording (ctx.sinking format journaling none) (.of e v)) := rfl
  have hgrows := record_grows (ctx.sinking format journaling none) e v s
  have hpush : (s.recording (ctx.sinking format journaling none) (.of e v)).trace.size =
    s.trace.size + 1 :=
    Array.size_push _
  rw [hwritten] at hgrows ⊢
  rw [record_run, hroom]
  by_cases hfull : s.trace.size < k
  · rw [if_pos (by simpa using hfull)]
    exact ⟨rfl, rfl, Nat.le_trans (Nat.le_of_eq hpush) hfull⟩
  · -- the runs part here: the one is cut with its sink full, the other has written one record more
    rw [if_neg (by simpa using hfull)]
    exact Or.inl ⟨rfl, by omega, Nat.lt_of_lt_of_eq (by omega) hpush.symm, hgrows⟩

theorem sinkLink_sound :
    (sinkLink k).Sound (ctx.sinking format journaling (some k))
      (ctx.sinking format journaling none) := by
  refine Link.sound_same rfl (fun _ => rfl) ?_ (fun h => congrArg Session.depth h.1)
    (fun h => congrArg Session.env h.1) ?_ ?_ (sinkLink_record ctx format journaling k)
  · rintro h s t u ⟨rfl, hfull, hmore, hgrows⟩ htu
    have hsize : t.trace.size ≤ u.trace.size := by simpa using htu.trace.length_le
    exact ⟨rfl, hfull, by omega, hgrows.trans htu⟩
  · rintro f s _ ⟨rfl, hsize⟩
    rw [addFunction_run, addFunction_run]
    exact ⟨rfl, rfl, hsize⟩
  · rintro f s _ ⟨rfl, hsize⟩
    rw [addCall_run, addCall_run]
    exact ⟨rfl, rfl, hsize⟩

theorem sinkLink_nests : (sinkLink k).Nests (sinkLink k) where
  down := by
    rintro s _ ⟨rfl, hsize⟩
    exact ⟨rfl, hsize⟩
  up := by
    rintro s _ ⟨rfl, hsize⟩
    exact ⟨rfl, hsize⟩
  cut := fun ⟨hsink, hfull, hmore, hgrows⟩ =>
    ⟨hsink, hfull, hmore, hgrows.functions, hgrows.bindings, hgrows.trace, hgrows.journal⟩

/-- A run into a sink that takes `k` records goes to its end, or stops where it has written them
all. -/
theorem evalAll_sinking (es : List Expr) {s : Session} (hs : s.trace.size ≤ k) :
    (evalAll (ctx.sinking format journaling (some k)) es s =
      evalAll (ctx.sinking format journaling none) es s ∧
      (final (evalAll (ctx.sinking format journaling none) es s)).trace.size ≤ k) ∨
    (answer (evalAll (ctx.sinking format journaling (some k)) es s) = .error (.error .sinkFull) ∧
      (final (evalAll (ctx.sinking format journaling (some k)) es s)).trace.size = k ∧
      k < (final (evalAll (ctx.sinking format journaling none) es s)).trace.size ∧
      (final (evalAll (ctx.sinking format journaling (some k)) es s)).Grows
        (final (evalAll (ctx.sinking format journaling none) es s))) := by
  have hes : List.Forall₂ Eq es es := List.forall₂_refl es
  have hends :=
    (sinkLink_sound ctx format journaling k).evalAll rfl rfl (sinkLink_nests k) hes s s ⟨rfl, hs⟩
  rcases hends.cases with ⟨vs, ws, s', t', hcut, hfull, hvs, rfl, hsize⟩ |
    ⟨e, s', t', hcut, hfull, rfl, hsize⟩ | ⟨e, s', hcut, rfl, hstop⟩
  · rw [hcut, hfull, forall₂_valueRel_eq hvs]
    exact Or.inl ⟨rfl, hsize⟩
  · rw [hcut, hfull]
    exact Or.inl ⟨rfl, hsize⟩
  · rw [hcut]
    exact Or.inr ⟨rfl, hstop⟩

end Sink

/-! Whole runs. -/

/-- What becomes of a text that was read. -/
def Outcome.ofResult : EStateM.Result Halt Session (List Value) → Outcome
  | .ok vs s => ⟨.ok vs, s⟩
  | .error h s => ⟨.error (.halt h), s⟩

theorem runIn_of_read {ctx : Context} {text : List Char} {es : List Expr} (h : read text = .ok es)
    (s : Session) :
    runIn ctx s text = .ofResult (evalAll ctx es s) := by
  simp only [runIn, h]
  cases evalAll ctx es s <;> rfl

theorem runIn_of_unread {ctx : Context} {text : List Char} {e : ReadError}
    (h : read text = .error e) (s : Session) :
    runIn ctx s text = ⟨.error (.read e), s⟩ := by
  simp only [runIn, h]

theorem session_ofResult (r : EStateM.Result Halt Session (List Value)) :
    (Outcome.ofResult r).session = final r := by
  cases r <;> rfl

theorem result_ofResult (r : EStateM.Result Halt Session (List Value)) :
    (Outcome.ofResult r).result = (answer r).mapError .halt := by
  cases r <;> rfl

/-- A run whose trace goes into a sink that takes `capacity` records, or any number. -/
def Context.runInto (ctx : Context) (format : TraceFormat) (journaling : Bool)
    (capacity : Option Nat) (text : List Char) : Outcome :=
  run (ctx.sinking format journaling capacity) text

/-- A run computes the same whether and how it is traced, and whether it is journaled, as long as
the trace can be written. With a sink that takes `k` records a run of no more records is unchanged;
any other one fails there, has written the first `k`, and leaves a beginning of what the whole run
leaves. -/
theorem observation_cuts_exactly (ctx : Context) (text : List Char) :
    (∀ tracer tracer' journaling journaling', Reliable tracer → Reliable tracer' →
      (run (ctx.watched tracer journaling) text).result =
        (run (ctx.watched tracer' journaling') text).result ∧
      (run (ctx.watched tracer journaling) text).session.env =
        (run (ctx.watched tracer' journaling') text).session.env) ∧
    ∀ format journaling k,
      ((ctx.runInto format journaling none text).session.trace.size ≤ k →
        ctx.runInto format journaling (some k) text = ctx.runInto format journaling none text) ∧
      (k < (ctx.runInto format journaling none text).session.trace.size →
        (ctx.runInto format journaling (some k) text).result = .error (.halt (.error .sinkFull)) ∧
        (ctx.runInto format journaling (some k) text).session.trace.toList =
          (ctx.runInto format journaling none text).session.trace.toList.take k ∧
        (ctx.runInto format journaling (some k) text).session.Grows
          (ctx.runInto format journaling none text).session) := by
  unfold Context.runInto run
  cases hread : read text with
  | error e =>
    simp only [runIn_of_unread hread]
    exact ⟨fun _ _ _ _ _ _ => ⟨trivial, trivial⟩,
      fun _ _ _ => ⟨fun _ => trivial, fun h => absurd h (Nat.not_lt_zero _)⟩⟩
  | ok es =>
    simp only [runIn_of_read hread, session_ofResult, result_ofResult]
    refine ⟨?_, ?_⟩
    · intro tracer tracer' journaling journaling' h h'
      have hfollows := evalAll_watched ctx journaling journaling' h h' es
      obtain ⟨hanswer, henv, -⟩ :=
        hfollows.answer_eq (fun _ _ _ h => h) (s := .start) (t := .start) ⟨rfl, rfl⟩
      exact ⟨by rw [hanswer], henv⟩
    · intro format journaling k
      rcases evalAll_sinking ctx format journaling k es (s := .start) (Nat.zero_le k) with
        ⟨hsame, hsize⟩ | ⟨hanswer, hfull, hmore, hgrows⟩
      · exact ⟨fun _ => by rw [hsame], fun h => absurd h (by omega)⟩
      · refine ⟨fun h => absurd h (by omega), fun _ => ⟨by rw [hanswer]; rfl, ?_, hgrows⟩⟩
        have htake := List.prefix_iff_eq_take.1 hgrows.trace
        rwa [Array.length_toList, hfull] at htake

/-- A definition and a call: three records, one of them from within the call. -/
def threeRecords : List Char := "(def f x (+ 1 2)) (f)".toList

/-- The run of these under the default settings, journaled. -/
def threeRecordsInto (capacity : Option Nat) : Outcome :=
  (Context.plain "run" "0x1").runInto .yaml true capacity threeRecords

theorem observation_cuts_exactly_threeRecords :
    Reliable none ∧ Reliable (some ⟨.text, none⟩) ∧
    (run ((Context.plain "run" "0x1").watched none false) threeRecords).result =
      (run ((Context.plain "run" "0x1").watched (some ⟨.text, none⟩) true) threeRecords).result ∧
    (threeRecordsInto none).session.trace.size = 3 ∧ threeRecordsInto (some 3) =
      threeRecordsInto none ∧
    (threeRecordsInto (some 2)).result = .error (.halt (.error .sinkFull)) ∧
    (threeRecordsInto (some 2)).session.trace.toList =
      (threeRecordsInto none).session.trace.toList.take 2 ∧
    (threeRecordsInto (some 2)).session.Grows (threeRecordsInto none).session := by
  have hnone : Reliable none := fun t h => by cases h
  have htext : Reliable (some ⟨.text, none⟩) := fun t h => by cases h; rfl
  have hsize : (threeRecordsInto none).session.trace.size = 3 := by decide +kernel
  obtain ⟨hwatched, hsinking⟩ := observation_cuts_exactly (.plain "run" "0x1") threeRecords
  have hroom := (hsinking .yaml true 3).1 (Nat.le_of_eq hsize)
  have hcut := (hsinking .yaml true 2).2 (hsize ▸ Nat.lt_succ_self 2)
  exact ⟨hnone, htext, (hwatched _ _ false true hnone htext).1, hsize, hroom, hcut⟩

end ListLang
