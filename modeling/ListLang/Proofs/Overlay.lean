import ListLang.Settings.Reader

/-! What a settings document says. A decoder that keeps what a document does not set reads it alike
over all settings: it gives values to some of them and leaves the others as they are. The decoder of
this library is one. -/

namespace ListLang.Settings

/-- Values for some of the settings. -/
structure Overlay where
  source : Option String
  trace : Option TraceChoice
  maxDepth : Option Int
  debug : Option Bool

namespace Overlay

def nothing : Overlay := ⟨none, none, none, none⟩

/-- The settings with the values of the overlay in place of their own. -/
def laidOn (o : Overlay) (s : Settings) : Settings where
  source := o.source.getD s.source
  trace := o.trace.getD s.trace
  maxDepth := o.maxDepth.getD s.maxDepth
  debug := o.debug.getD s.debug

end Overlay

/-- Read over any settings, a document gives the values of the overlay and no others. -/
def Says (decode : Settings → List UInt8 → Except String Settings) (bytes : List UInt8)
    (o : Overlay) :
    Prop :=
  ∀ base, decode base bytes = .ok (o.laidOn base)

/-- A decoder that leaves what a document does not set as it was. -/
def KeepsUnset (decode : Settings → List UInt8 → Except String Settings) : Prop :=
  ∀ base bytes s, decode base bytes = .ok s → ∃ o, Says decode bytes o

/-! ## Reading that does not look at the settings

The reader carries the settings along. For all of them it ends in one way: with one failure, or with
one result into which `lay` puts them. -/

def Uniform {α β : Type} (lay : β → Settings → α) (x : Settings → Except Failure α) : Prop :=
  (∃ e, ∀ base, x base = .error e) ∨ ∃ b, ∀ base, x base = .ok (lay b base)

section Uniform

variable {α β γ δ : Type} {lay : β → Settings → α} {lay' : δ → Settings → γ}

theorem uniform_error (e : Failure) : Uniform lay fun _ => .error e := Or.inl ⟨e, fun _ => rfl⟩

theorem uniform_ok (b : β) : Uniform lay fun base => .ok (lay b base) := Or.inr ⟨b, fun _ => rfl⟩

theorem uniform_const (x : Except Failure α) : Uniform (fun a _ => a) fun _ => x := by
  cases x with
  | error e => exact uniform_error e
  | ok a => exact Or.inr ⟨a, fun _ => rfl⟩

theorem Uniform.bind {x : Settings → Except Failure α} {k : Settings → α → Except Failure γ}
    (hx : Uniform lay x)
    (hk : ∀ b, Uniform lay' fun base => k base (lay b base)) :
      Uniform lay' fun base => x base >>= k base := by
  rcases hx with ⟨e, he⟩ | ⟨b, hb⟩
  · refine Or.inl ⟨e, fun base => ?_⟩
    simp only [he]
    rfl
  · rcases hk b with ⟨e, he⟩ | ⟨c, hc⟩
    · refine Or.inl ⟨e, fun base => ?_⟩
      simp only [hb]
      exact he base
    · refine Or.inr ⟨c, fun base => ?_⟩
      simp only [hb]
      exact hc base

theorem Uniform.ite {p : Prop} [Decidable p] {x y : Settings → Except Failure α}
    (hx : Uniform lay x)
    (hy : Uniform lay y) : Uniform lay fun base => if p then x base else y base := by
  by_cases h : p
  · simpa only [h, if_true] using hx
  · simpa only [h, if_false] using hy

end Uniform

/-! ## One value -/

/-- Settings with complaints. -/
def laySettings (p : Overlay × List String) (base : Settings) : Settings × List String :=
  (p.1.laidOn base, p.2)

theorem laySettings_getD {α : Type} (x : Option α) (f : α → Overlay × List String)
    (p : Overlay × List String) (base : Settings) :
    laySettings ((x.map f).getD p) base = (x.map fun a => laySettings (f a) base).getD
      (laySettings p base) := by
  cases x <;> rfl

/-- What a scalar that is put into a field makes of the overlay. -/
def Overlay.put (o : Overlay) (f : Field) (m : Yaml.Meaning) (bytes : List UInt8)
    (complaints : List String) :
    Overlay × List String :=
  match f, m with
  | _, .null => (o, [])
  | .source, _ => ({ o with source := some (Text.decodeString bytes) }, [])
  | .trace, _ => ({ o with trace := some (.ofBytes bytes) }, [])
  | .maxDepth, m =>
    ((depth? m).map fun d => ({ o with maxDepth := some d }, [])).getD (o, complaints)
  | .debug, m =>
    ((truth? m (Text.decodeString bytes)).map fun b => ({ o with debug := some b }, [])).getD
      (o, complaints)

theorem set_uniform (o : Overlay) (f : Field) (value : Yaml.Node) :
    Uniform laySettings fun base => telling ((o.laidOn base).set f value) := by
  cases hnode : value.resolved with
  | scalar line tag text =>
    cases hcontent : Yaml.content tag text with
    | error problem =>
      exact Or.inl ⟨.told problem, fun base => by simp only [set, hnode, hcontent]; rfl⟩
    | ok content =>
      obtain ⟨m, bytes⟩ := content
      refine Or.inr ⟨o.put f m bytes (misfit (.scalar line tag text) f.typeName), fun base => ?_⟩
      simp only [set, hnode, hcontent]
      cases f <;> cases m <;> first | rfl | (simp only [Overlay.put, laySettings_getD]; rfl)
  | _ => exact Or.inr ⟨(o, misfit value.resolved f.typeName),
    fun base => by simp only [set, hnode]; rfl⟩

/-! ## Mappings -/

namespace Draft

/-- The draft with the overlay on other settings. -/
def laidOn (d : Draft) (o : Overlay) (base : Settings) : Draft :=
  { d with settings := o.laidOn base }

def lay (p : Draft × Overlay) : Settings → Draft := p.1.laidOn p.2

def layDone (p : (Draft × Overlay) × List String) (base : Settings) : Draft × List String :=
  (lay p.1 base, p.2)

theorem count_uniform (d : Draft) (o : Overlay) (inReference : Bool) :
    Uniform lay fun base => (d.laidOn o base).count inReference := by
  by_cases h : isExcessive (d.looks + 1) (if inReference then d.expanded + 1 else d.expanded)
  · exact Or.inl ⟨_, fun base => if_pos h⟩
  · exact Or.inr ⟨({ d with
      looks := d.looks + 1
      expanded := if inReference then d.expanded + 1 else d.expanded }, o), fun base => if_neg h⟩

theorem look_uniform (d : Draft) (o : Overlay) (inReference : Bool) (node : Yaml.Node) :
    Uniform lay fun base => (d.laidOn o base).look inReference node := by
  cases node with
  | reference => exact (count_uniform d o inReference).bind fun (d, o) => count_uniform d o true
  | _ => exact count_uniform d o inReference

/-- The part of `add` that comes after the name is noted. -/
theorem addNamed_uniform (inReference : Bool) (done : List String) (d : Draft)
    (o : Overlay) (line : Nat) (name : String) (value : Yaml.Node) :
    Uniform layDone fun base =>
      let refuse (reason : String) : Draft × List String :=
        ((d.laidOn o base).complain [atLine line ("field " ++ name ++ reason ++ typeName)], done)
      match Field.ofName? name with
      | none => return refuse " not found in type "
      | some f =>
        if done.contains name then return refuse " already set in type "
        else do
          let d ← (d.laidOn o base).look inReference value
          let (s, problems) ← telling (d.settings.set f value)
          return ({ d with settings := s }.complain problems, name :: done) := by
  cases Field.ofName? name with
  | none => exact uniform_ok ((d.complain _, o), done)
  | some f =>
    refine Uniform.ite (uniform_ok ((d.complain _, o), done)) ?_
    refine (look_uniform d o inReference value).bind fun (d, o) => ?_
    exact (set_uniform o f value).bind fun (o, problems) => uniform_ok ((d.complain problems, o),
      name :: done)

theorem add_uniform (merging inReference : Bool) (done : List String) (d : Draft) (o : Overlay)
    (key value : Yaml.Node) :
      Uniform layDone fun base => (d.laidOn o base).add merging inReference done key value := by
  unfold add
  refine (look_uniform d o inReference key).bind fun (d, o) => ?_
  refine (uniform_const (telling (name? key))).bind fun (name, problems) => ?_
  cases name with
  | none => exact uniform_ok ((d.complain problems, o), done)
  | some name =>
    refine Uniform.ite (p := merging && d.taken.contains name)
      (uniform_ok ((d.complain problems, o), done)) ?_
    cases merging with
    | false => exact addNamed_uniform inReference done (d.complain problems) o key.line name value
    | true =>
      exact addNamed_uniform inReference done
        { d.complain problems with taken := name :: d.taken } o key.line name
        value

theorem addAll_uniform (merging inReference : Bool) (done : List String) (d : Draft) (o : Overlay)
    (entries : List (Yaml.Node × Yaml.Node)) :
    Uniform lay fun base => (d.laidOn o base).addAll merging inReference done entries := by
  induction entries generalizing done d o with
  | nil => exact uniform_ok (d, o)
  | cons entry rest ih =>
    obtain ⟨key, value⟩ := entry
    simp only [addAll]
    by_cases hmerge : isMerge key
    · simp only [hmerge, if_true]
      exact ih done d o
    · simp only [hmerge, Bool.false_eq_true, if_false]
      exact (add_uniform merging inReference done d o key value).bind fun ((d, o),
        done) => ih done d o

theorem takeNames_uniform (d : Draft) (o : Overlay) (entries : List (Yaml.Node × Yaml.Node)) :
    Uniform lay fun base => (d.laidOn o base).takeNames entries := by
  induction entries generalizing d o with
  | nil => exact uniform_ok (d, o)
  | cons entry rest ih =>
    obtain ⟨key, value⟩ := entry
    unfold takeNames
    refine (look_uniform d o false key).bind fun (d, o) => ?_
    -- a reference is as good as the node that it stands for, unless it stands within that node
    cases key
    case' reference line name whole target =>
      cases whole
      case' true => cases target
    case reference.false => exact uniform_error (containsItself _)
    case cons.scalar line tag text | cons.reference.true.scalar line tag text =>
      refine (uniform_const (telling (Yaml.content tag text))).bind fun (m, bytes) => ?_
      cases m with
      | text => exact ih { d with taken := Text.decodeString bytes :: d.taken } o
      | _ => exact ih d o
    case cons.mapping line tag entries | cons.reference.true.mapping line tag entries =>
      dsimp only [Yaml.Node.resolved]
      cases repeatedKeys entries with
      | nil => exact uniform_error .breakdown
      | cons problem problems => exact ih (d.complain (problem :: problems)) o
    case cons.sequence | cons.reference.true.sequence | cons.reference.true.reference =>
      exact uniform_error .breakdown

section Merging

variable {fuel : Nat}

theorem addMapping_uniform_succ
    (hmerged : ∀ inReference (d : Draft) (o : Overlay) sources,
      Uniform lay fun base => addMerged fuel inReference (d.laidOn o base) sources)
    (merging inReference : Bool) (d : Draft) (o : Overlay)
      (entries : List (Yaml.Node × Yaml.Node)) :
    Uniform lay fun base => (d.laidOn o base).addMapping
      (fuel + 1) merging inReference entries := by
  unfold addMapping
  cases repeatedKeys entries with
  | cons problem problems => exact uniform_ok (d.complain (problem :: problems), o)
  | nil =>
    refine (addAll_uniform merging inReference [] d o entries).bind fun (d, o) => ?_
    generalize List.getLast? _ = last
    cases last with
    | none => exact uniform_ok (d, o)
    | some entry =>
      obtain ⟨key, source⟩ := entry
      have hsources : ∀ sources, Uniform lay fun base =>
          if merging then addMerged fuel inReference (d.laidOn o base) sources
          else takeNames { d.laidOn o base with taken := [] } entries >>= fun d =>
            addMerged fuel inReference d sources := by
        intro sources
        refine Uniform.ite (hmerged inReference d o sources) ?_
        exact (takeNames_uniform { d with taken := [] } o entries).bind fun (d,
          o) => hmerged inReference d o sources
      cases source with
      | sequence line tag items => exact hsources items
      | _ => exact hsources [_]

theorem addMerged_uniform_succ
    (hmapping : ∀ merging inReference (d : Draft) (o : Overlay) entries,
      Uniform lay fun base => (d.laidOn o base).addMapping fuel merging inReference entries)
    (hmerged : ∀ inReference (d : Draft) (o : Overlay) sources,
      Uniform lay fun base => addMerged fuel inReference (d.laidOn o base) sources)
    (inReference : Bool) (d : Draft) (o : Overlay) (sources : List Yaml.Node) :
    Uniform lay fun base => addMerged (fuel + 1) inReference (d.laidOn o base) sources := by
  unfold addMerged
  match sources with
  | [] => exact uniform_ok (d, o)
  | .mapping line tag entries :: rest =>
    refine (look_uniform d o inReference (.mapping line tag entries)).bind fun (d, o) => ?_
    exact (hmapping true inReference d o entries).bind fun (d, o) => hmerged inReference d o rest
  | .reference line name whole (.mapping line' tag entries) :: rest =>
    refine (look_uniform d o inReference
      (.reference line name whole (.mapping line' tag entries))).bind
      fun (d, o) => ?_
    cases whole with
    | false => exact uniform_error (containsItself name)
    | true => exact (hmapping true true d o entries).bind fun (d, o) => hmerged inReference d o rest
  | .scalar .. :: _ | .sequence .. :: _ | .reference _ _ _ (.scalar ..) :: _ | .reference _ _ _
    (.sequence ..) :: _
  | .reference _ _ _ (.reference ..) :: _ => exact uniform_error (.told needsMapping)

end Merging

/-- Mappings and merged mappings call each other, so one induction is on the fuel of both. -/
theorem addMapping_addMerged_uniform (fuel : Nat) :
    (∀ merging inReference (d : Draft) (o : Overlay) entries,
      Uniform lay fun base => (d.laidOn o base).addMapping fuel merging inReference entries) ∧
    ∀ inReference (d : Draft) (o : Overlay) sources,
      Uniform lay fun base => addMerged fuel inReference (d.laidOn o base) sources := by
  induction fuel with
  | zero =>
    refine ⟨fun merging inReference d o entries => ?_, fun inReference d o sources => ?_⟩
    · unfold addMapping
      exact uniform_ok (d, o)
    · unfold addMerged
      exact uniform_ok (d, o)
  | succ fuel ih => exact ⟨addMapping_uniform_succ ih.2, addMerged_uniform_succ ih.1 ih.2⟩

end Draft

theorem ofNode_uniform (fuel : Nat) (node : Yaml.Node) :
    Uniform laySettings fun base => ofNode base fuel node := by
  have hbase : ∀ problems, Uniform laySettings fun base => .ok (base, problems) :=
    fun problems => Or.inr ⟨(.nothing, problems), fun _ => rfl⟩
  unfold ofNode
  refine (Draft.look_uniform ⟨default, [], [], 1, 0⟩ .nothing false node).bind fun (d, o) => ?_
  cases node.resolved with
  | mapping line tag entries =>
    refine ((Draft.addMapping_addMerged_uniform fuel).1 false false d o entries).bind
      fun (d, o) => ?_
    exact Or.inr ⟨(o, d.problems), fun _ => rfl⟩
  | scalar line tag text =>
    refine (uniform_const (telling (Yaml.content tag text))).bind fun (m, bytes) => ?_
    cases m with
    | null => exact hbase []
    | _ => exact hbase (misfit (.scalar line tag text) typeName)
  | sequence line tag items => exact hbase (misfit (.sequence line tag items) typeName)
  | reference line name whole target =>
    exact hbase (misfit (.reference line name whole target) typeName)

theorem decodeOver_eq_ok_iff {base s : Settings} {text : List Char} :
    decodeOver base text = .ok s ↔
      ∃ node, Yaml.document? text = .ok (some node) ∧ ofNode base (text.length + 2) node =
        .ok (s, []) := by
  unfold decodeOver
  cases Yaml.document? text with
  | error p => simp
  | ok node? =>
    cases node? with
    | none => simp
    | some node =>
      dsimp only
      cases hnode : ofNode base (text.length + 2) node with
      | error e => cases e <;> simp [hnode]
      | ok result =>
        obtain ⟨s', problems⟩ := result
        cases problems <;> simp [hnode]

theorem decode_eq_ok_iff {base s : Settings} {bytes : List UInt8} :
    decode base bytes = .ok s ↔
      ∃ text, Yaml.decode bytes = .ok text ∧ decodeOver base text = .ok s := by
  unfold decode decodeBytes
  cases Yaml.decode bytes with
  | error fault => simp
  | ok text =>
    dsimp only
    cases hover : decodeOver base text with
    | error failure => simp [hover]
    | ok s' => simp [hover]

theorem decode_keepsUnset : KeepsUnset decode := by
  intro base bytes s hdecode
  obtain ⟨text, htext, hover⟩ := decode_eq_ok_iff.1 hdecode
  obtain ⟨node, hdocument, hnode⟩ := decodeOver_eq_ok_iff.1 hover
  rcases ofNode_uniform (text.length + 2) node with ⟨e, he⟩ | ⟨⟨o, problems⟩, ho⟩
  · cases hnode.symm.trans (he base)
  · cases hnode.symm.trans (ho base)
    refine ⟨o, fun base' => decode_eq_ok_iff.2 ⟨text, htext, ?_⟩⟩
    exact decodeOver_eq_ok_iff.2 ⟨node, hdocument, ho base'⟩

/-! ## Deciding what a document says -/

/-- No setting here is as in the defaults. -/
def apart : Settings := ⟨"?", .unknown "?", -1, true⟩

theorem getD_ext {α : Type} {x y : Option α} {a b : α} (hne : a ≠ b) (ha : x.getD a = y.getD a)
    (hb : x.getD b = y.getD b) : x = y := by
  cases x <;> cases y <;> simp_all

theorem Overlay.eq_of_laidOn {o p : Overlay} (hdefault : o.laidOn default = p.laidOn default)
    (hapart : o.laidOn apart = p.laidOn apart) : o = p := by
  obtain ⟨source, trace, maxDepth, debug⟩ := o
  obtain ⟨source', trace', maxDepth', debug'⟩ := p
  simp only [laidOn, Settings.mk.injEq] at hdefault hapart
  obtain ⟨hsource, htrace, hdepth, hdebug⟩ := hdefault
  obtain ⟨hsource', htrace', hdepth', hdebug'⟩ := hapart
  rw [getD_ext (by decide) hsource hsource', getD_ext (by decide) htrace htrace',
    getD_ext (by decide) hdepth hdepth', getD_ext (by decide) hdebug hdebug']

theorem toOption_eq_some_iff {x : Except String Settings} {s : Settings} :
    x.toOption = some s ↔ x = .ok s := by
  cases x <;> simp [Except.toOption]

/-- Two readings tell what a document says. -/
theorem says_iff {bytes : List UInt8} {o : Overlay} :
    Says decode bytes o ↔ (decode default bytes).toOption = some (o.laidOn default) ∧
      (decode apart bytes).toOption = some (o.laidOn apart) := by
  rw [toOption_eq_some_iff, toOption_eq_some_iff]
  refine ⟨fun h => ⟨h default, h apart⟩, fun ⟨hdefault, hapart⟩ => ?_⟩
  obtain ⟨p, hsaid⟩ := decode_keepsUnset _ _ _ hdefault
  have hp : p = o := Overlay.eq_of_laidOn (Except.ok.inj ((hsaid default).symm.trans hdefault))
    (Except.ok.inj ((hsaid apart).symm.trans hapart))
  exact hp ▸ hsaid

instance (bytes : List UInt8) (o : Overlay) : Decidable (Says decode bytes o) :=
  decidable_of_iff _ says_iff.symm

example : Says decode "trace: yaml\n".toUTF8.toList
    { Overlay.nothing with trace := some (.format (some .yaml)) } := by decide +kernel

end ListLang.Settings
