import ListLang.Command.Flags
import Mathlib.Data.List.TakeWhile

/-! The flags that an argument list gives: a grammar of argument lists, and that the parser follows
it. -/

namespace ListLang.Flags

inductive Given where
  | config (value : String)
  | source (value : String)
  | trace (value : String)
  | debug (value : Bool)

namespace Given

def config? : Given → Option String
  | config value => some value
  | _ => .none

def source? : Given → Option String
  | source value => some value
  | _ => .none

def trace? : Given → Option String
  | trace value => some value
  | _ => .none

def debug? : Given → Option Bool
  | debug value => some value
  | _ => .none

end Given

/-- The names of the flags that take a text. -/
inductive Names : String → (String → Given) → Prop where
  | config : Names "config" .config
  | source : Names "f" .source
  | trace : Names "trace" .trace

/-- The arguments that give one flag. -/
inductive Spells : List String → Given → Prop where
  | attached {dashes name value : String} {flag : String → Given} :
      dashes ∈ ["-", "--"] → Names name flag →
      Spells [dashes ++ name ++ "=" ++ value] (flag value)
  | apart {dashes name value : String} {flag : String → Given} :
      dashes ∈ ["-", "--"] → Names name flag →
      Spells [dashes ++ name, value] (flag value)
  | turnedOn {dashes : String} : dashes ∈ ["-", "--"] → Spells [dashes ++ "debug"] (.debug true)
  | switch {dashes word : String} {value : Bool} : dashes ∈ ["-", "--"] → truth? word = some value →
      Spells [dashes ++ "debug" ++ "=" ++ word] (.debug value)

/-- An argument at which the flags end. -/
def Stops (arg : String) : Prop := arg = "-" ∨ arg = "--" ∨ arg.toList.head? ≠ some '-'

/-- The flags that arguments give, in turn. -/
inductive Reads : List String → List Given → Prop where
  | nil : Reads [] []
  | stop {arg : String} {rest : List String} : Stops arg → Reads (arg :: rest) []
  | flag {words rest : List String} {given : Given} {more : List Given} :
      Spells words given → Reads rest more →
      Reads (words ++ rest) (given :: more)

/-- A flag has the last of the values that it is given. -/
def lastOf (given : List Given) : Flags where
  config := (given.filterMap Given.config?).getLast?
  source := (given.filterMap Given.source?).getLast?
  trace := (given.filterMap Given.trace?).getLast?
  debug := (given.filterMap Given.debug?).getLast?

/-- Later flags put over earlier ones. -/
def onto (later earlier : Flags) : Flags where
  config := later.config.or earlier.config
  source := later.source.or earlier.source
  trace := later.trace.or earlier.trace
  debug := later.debug.or earlier.debug

theorem lastOf_cons_onto (given : Given) (more : List Given) (flags : Flags) :
    (lastOf (given :: more)).onto flags = (lastOf more).onto ((lastOf [given]).onto flags) := by
  have hlast : ∀ {α : Type} (x : α) (xs : List α) (y : Option α),
      ((x :: xs).getLast?).or y = xs.getLast?.or ((some x).or y) := by
    intro α x xs y
    rw [List.getLast?_cons]
    cases xs.getLast? <;> rfl
  cases given <;> simp [lastOf, onto, Given.config?, Given.source?, Given.trace?,
    Given.debug?, hlast]

/-! ## One argument -/

/-- What stands after the dashes. -/
def body (name : String) : Option String → List Char
  | .none => name.toList
  | some value => name.toList ++ '=' :: value.toList

def spelling (dashes name : String) : Option String → String
  | .none => dashes ++ name
  | some value => dashes ++ name ++ "=" ++ value

theorem toList_spelling (dashes name : String) (value : Option String) :
    (spelling dashes name value).toList = dashes.toList ++ body name value := by
  cases value <;> simp [spelling, body]

theorem splitValue_eq_flag {chars : List Char} {name : String} {value : Option String}
    (h : splitValue chars = .flag name value) : chars = body name value := by
  have hwhole : (chars.take 1 ++ (chars.drop 1).takeWhile (· ≠ '=')) ++ (chars.drop 1).dropWhile
    (· ≠ '=') =
      chars := by
    rw [List.append_assoc, List.takeWhile_append_dropWhile, List.take_append_drop]
  unfold splitValue at h
  split at h
  · rename_i hend
    cases h
    rw [hend, List.append_nil] at hwhole
    rw [body, String.toList_ofList, hwhole]
  · rename_i c rest hend
    cases h
    have hc : c = '=' := by
      have hhead := List.head?_dropWhile_not (· ≠ '=') (chars.drop 1)
      simpa only [hend, List.head?_cons, decide_eq_false_iff_not, ne_eq, not_not] using hhead
    rw [hend, hc] at hwhole
    rw [body, String.toList_ofList, String.toList_ofList, hwhole]

/-- An argument that starts a flag is made of dashes, the name, and the value if there is one. -/
theorem classify_eq_flag {arg name : String} {value : Option String}
    (h : classify arg = .flag name value) :
    ∃ dashes ∈ ["-", "--"], arg = spelling dashes name value := by
  simp only [← String.toList_inj, toList_spelling]
  unfold classify at h
  split at h
  · cases h
  · rename_i c rest hchars harg
    by_cases hdash : c = '-'
    · simp only [if_pos hdash] at h
      split at h
      · cases h
      · exact ⟨"--", by simp, by simp [harg, hdash, splitValue_eq_flag h]⟩
    · simp only [if_neg hdash] at h
      split at h
      · cases h
      · exact ⟨"-", by simp, by simp [harg, ← splitValue_eq_flag h]⟩
  · cases h

theorem splitValue_ne_stop (chars : List Char) : splitValue chars ≠ .stop := by
  unfold splitValue
  split <;> exact Argument.noConfusion

theorem classify_eq_stop_iff {arg : String} : classify arg = .stop ↔ Stops arg := by
  unfold Stops classify
  simp only [← String.toList_inj]
  split
  · rename_i harg
    simp [harg]
  · rename_i c rest hdashes harg
    have hstops : ¬(arg.toList = "-".toList ∨ arg.toList = "--".toList ∨ arg.toList.head? ≠
        some '-') := by
      simpa [harg] using hdashes
    refine iff_of_false ?_ hstops
    generalize (if c = '-' then rest else c :: rest) = name
    split
    · exact Argument.noConfusion
    · exact splitValue_ne_stop name
  · rename_i hdashes hflag
    refine iff_of_true rfl ?_
    cases harg : arg.toList with
    | nil => simp
    | cons c rest =>
      by_cases hc : c = '-'
      · cases rest with
        | nil => simp [hc]
        | cons d rest => exact absurd (hc ▸ harg) (hflag d rest)
      · simp [hc]

/-- A name that starts with no dash and has no equals sign. -/
def Plain (name : String) : Prop := ∃ c cs, name.toList = c :: cs ∧ c ≠ '-' ∧ '=' ∉ c :: cs

theorem splitValue_body {name : String} (hname : Plain name) (value : Option String) :
    splitValue (body name value) = .flag name value := by
  obtain ⟨c, cs, hcs, -, heq⟩ := hname
  have hne : ∀ x ∈ cs, decide (x ≠ '=') = true := fun x hx =>
    decide_eq_true fun h => heq (h ▸ List.mem_cons_of_mem _ hx)
  have hname : String.ofList (c :: cs) = name := by rw [← hcs, String.ofList_toList]
  cases value with
  | none =>
    have htake : cs.takeWhile (· ≠ '=') = cs := List.takeWhile_eq_self_iff.2 hne
    have hdrop : cs.dropWhile (· ≠ '=') = [] := List.dropWhile_eq_nil_iff.2 hne
    simp only [splitValue, body, hcs, List.take_succ_cons, List.take_zero, List.drop_succ_cons,
      List.drop_zero, htake, hdrop, List.cons_append, List.nil_append, hname]
  | some value =>
    have htake : (cs ++ '=' :: value.toList).takeWhile (· ≠ '=') = cs := by
      rw [List.takeWhile_append_of_pos hne, List.takeWhile_cons_of_neg (by simp), List.append_nil]
    have hdrop : (cs ++ '=' :: value.toList).dropWhile (· ≠ '=') = '=' :: value.toList := by
      rw [List.dropWhile_append_of_pos hne, List.dropWhile_cons_of_neg (by simp)]
    simp only [splitValue, body, hcs, List.cons_append, List.take_succ_cons, List.take_zero,
      List.drop_succ_cons,
      List.drop_zero, htake, hdrop, List.nil_append, hname, String.ofList_toList]

theorem classify_spelling {dashes name : String} (hd : dashes ∈ ["-", "--"]) (hname : Plain name)
    (value : Option String) : classify (spelling dashes name value) = .flag name value := by
  have hsplit := splitValue_body hname value
  have hchars := toList_spelling dashes name value
  obtain ⟨c, cs, hcs, hdash, heq⟩ := hname
  obtain ⟨rest, hbody⟩ : ∃ rest, body name value = c :: rest := by
    cases value <;> simp [body, hcs]
  have hc : c ≠ '=' := fun h => heq (h ▸ List.mem_cons_self)
  rw [hbody] at hchars hsplit
  simp only [List.mem_cons, List.not_mem_nil, or_false] at hd
  rcases hd with rfl | rfl <;> simp [classify, hchars, hdash, hc, hsplit]

/-! ## All arguments -/

theorem Names.plain {name : String} {flag : String → Given} (h : Names name flag) : Plain name := by
  cases h <;> exact ⟨_, _, rfl, by decide⟩

theorem plain_debug : Plain "debug" := ⟨_, _, rfl, by decide⟩

theorem Names.setText? {name : String} {flag : String → Given} (h : Names name flag) (flags : Flags)
    (value : String) :
    flags.setText? name value = some ((lastOf [flag value]).onto flags) := by
  cases h <;> rfl

theorem exists_names_of_setText? {flags flags' : Flags} {name value : String}
    (h : flags.setText? name value = some flags') : ∃ flag, Names name flag := by
  unfold Flags.setText? at h
  split at h
  · exact ⟨_, .config⟩
  · exact ⟨_, .source⟩
  · exact ⟨_, .trace⟩
  · cases h

theorem exists_names_of_isText {name : String} (h : isText name) : ∃ flag, Names name flag := by
  simp only [isText, Bool.or_eq_true, decide_eq_true_eq] at h
  rcases h with (rfl | rfl) | rfl
  · exact ⟨_, .config⟩
  · exact ⟨_, .source⟩
  · exact ⟨_, .trace⟩

theorem Spells.parseFrom {words : List String} {given : Given} (h : Spells words given)
    (flags : Flags)
    (rest : List String) : parseFrom flags (words ++ rest) =
      parseFrom ((lastOf [given]).onto flags) rest := by
  cases h with
  | @attached dashes name value flag hd hname =>
    have hclass : classify (dashes ++ name ++ "=" ++ value) = _ :=
      classify_spelling hd hname.plain (some value)
    cases hname <;>
    · simp only [List.singleton_append, Flags.parseFrom, hclass]
      rfl
  | @apart dashes name value flag hd hname =>
    have hclass : classify (dashes ++ name) = _ := classify_spelling hd hname.plain .none
    cases hname <;>
    · simp only [List.cons_append, List.nil_append, Flags.parseFrom, hclass]
      rfl
  | @turnedOn dashes hd =>
    have hclass : classify (dashes ++ "debug") = _ := classify_spelling hd plain_debug .none
    simp only [List.singleton_append, Flags.parseFrom, hclass]
    rfl
  | @switch dashes word value hd htruth =>
    have hclass : classify (dashes ++ "debug" ++ "=" ++ word) = _ :=
      classify_spelling hd plain_debug (some word)
    simp only [List.singleton_append, Flags.parseFrom, hclass, htruth]
    rfl

theorem Reads.parseFrom {args : List String} {given : List Given} (h : Reads args given)
    (flags : Flags) :
    parseFrom flags args = .ok ((lastOf given).onto flags) := by
  induction h generalizing flags with
  | nil => rfl
  | stop hstops =>
    simp only [Flags.parseFrom, classify_eq_stop_iff.2 hstops]
    rfl
  | flag hspells _ ih => rw [hspells.parseFrom, ih, ← lastOf_cons_onto]

theorem reads_of_spells {words rest : List String} {given : Given} {flags flags' : Flags}
    (h : Spells words given)
    (hmore : ∃ more, Reads rest more ∧ flags' = (lastOf more).onto ((lastOf [given]).onto flags)) :
    ∃ given, Reads (words ++ rest) given ∧ flags' = (lastOf given).onto flags := by
  obtain ⟨more, hreads, rfl⟩ := hmore
  exact ⟨given :: more, .flag h hreads, (lastOf_cons_onto ..).symm⟩

theorem reads_of_parseFrom {flags flags' : Flags} {args : List String}
    (h : parseFrom flags args = .ok flags') :
    ∃ given, Reads args given ∧ flags' = (lastOf given).onto flags := by
  fun_induction parseFrom flags args with
  | case1 flags =>
    cases h
    exact ⟨[], .nil, rfl⟩
  | case2 flags arg rest hstop =>
    cases h
    exact ⟨[], .stop (classify_eq_stop_iff.1 hstop), rfl⟩
  | case4 flags arg rest hclass ih =>
    obtain ⟨dashes, hd, rfl⟩ := classify_eq_flag hclass
    exact reads_of_spells (.turnedOn hd) (ih h)
  | case5 flags arg rest word hclass b htruth ih =>
    obtain ⟨dashes, hd, rfl⟩ := classify_eq_flag hclass
    exact reads_of_spells (.switch hd htruth) (ih h)
  | case7 flags arg rest name value _ hclass flags₁ hset ih =>
    obtain ⟨dashes, hd, rfl⟩ := classify_eq_flag hclass
    obtain ⟨flag, hname⟩ := exists_names_of_setText? hset
    cases hset.symm.trans (hname.setText? flags value)
    exact reads_of_spells (.attached hd hname) (ih h)
  | case10 flags arg name _ hclass htext value rest ih =>
    obtain ⟨dashes, hd, rfl⟩ := classify_eq_flag hclass
    obtain ⟨flag, hname⟩ := exists_names_of_isText htext
    simp only [hname.setText? flags value, Option.getD_some] at ih h
    exact reads_of_spells (.apart hd hname) (ih h)
  | case3 | case6 | case8 | case9 | case11 => cases h

theorem lastOf_onto_none (given : List Given) : (lastOf given).onto none = lastOf given := by
  simp [onto, none, lastOf]

/-- The parser takes exactly the argument lists that can be read as flags, and of each flag the last
value. -/
theorem parse_eq_ok_iff {args : List String} {flags : Flags} :
    parse args = .ok flags ↔ ∃ given, Reads args given ∧ flags = lastOf given := by
  constructor
  · intro h
    obtain ⟨given, hreads, rfl⟩ := reads_of_parseFrom h
    exact ⟨given, hreads, lastOf_onto_none given⟩
  · rintro ⟨given, hreads, rfl⟩
    rw [parse, hreads.parseFrom, lastOf_onto_none]

end ListLang.Flags
