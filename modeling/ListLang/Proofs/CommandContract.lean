import ListLang.Command
import ListLang.Proofs.Observation
import ListLang.Proofs.Segments

/-! What a report of the command says. Code 2 refuses the arguments or the settings, and then
nothing is run; code 1 is a program that cannot be had or that fails, and code 0 one that succeeds.
The first output is the trace of the run and nothing else. -/

namespace ListLang

open Eval

/-- Settings that a run can go by. -/
structure Settings.Valid (s : Settings) : Prop where
  trace : ∃ format, s.trace = .format format
  maxDepth : 0 ≤ s.maxDepth

theorem Settings.fault?_eq_none_iff {s : Settings} : s.fault? = none ↔ s.Valid := by
  obtain ⟨source, trace, maxDepth, debug⟩ := s
  cases trace with
  | unknown quoted =>
    exact ⟨fun h => (Option.some_ne_none _ h).elim, fun h => nomatch h.trace.choose_spec⟩
  | format f =>
    have hfault : Settings.fault? ⟨source, .format f, maxDepth, debug⟩ =
        if maxDepth < 0 then some "config: max_depth must not be negative" else none := rfl
    rw [hfault]
    split
    · rename_i hneg
      exact ⟨fun h => (Option.some_ne_none _ h).elim,
        fun h => absurd h.maxDepth (Int.not_le.2 hneg)⟩
    · rename_i hneg
      exact ⟨fun _ => ⟨⟨f, rfl⟩, Int.not_lt.1 hneg⟩, fun _ => rfl⟩

theorem Settings.fault?_of_not_valid {s : Settings} (h : ¬s.Valid) :
    ∃ fault, s.fault? = some fault :=
  Option.ne_none_iff_exists'.1 (mt Settings.fault?_eq_none_iff.1 h)

namespace Command

/-! What becomes of the settings. -/

/-- The settings of the file, or the defaults where none is named. -/
inductive Loads (w : Surroundings) (flags : Flags) : Settings → Prop where
  | default : settingsFile? w.directory flags = none → Loads w flags .default
  | file {path : String} {bytes : List UInt8} {s : Settings} :
      settingsFile? w.directory flags = some path → w.contents path = .ok bytes →
      w.decode .default bytes = .ok s → s.Valid → Loads w flags s

/-- Why a command is refused. -/
inductive Refused (w : Surroundings) (args : List String) : Prop where
  | flags {e : FlagError} : Flags.parse args = .error e → Refused w args
  | unopened {flags : Flags} {path : String} {e : FileError} : Flags.parse args = .ok flags →
      settingsFile? w.directory flags = some path → w.contents path = .error e → Refused w args
  | undecoded {flags : Flags} {path problem : String} {bytes : List UInt8} :
      Flags.parse args = .ok flags → settingsFile? w.directory flags = some path →
      w.contents path = .ok bytes → w.decode .default bytes = .error problem → Refused w args
  | invalidFile {flags : Flags} {path : String} {bytes : List UInt8} {s : Settings} :
      Flags.parse args = .ok flags → settingsFile? w.directory flags = some path →
      w.contents path = .ok bytes → w.decode .default bytes = .ok s → ¬s.Valid → Refused w args
  | invalid {flags : Flags} {s : Settings} : Flags.parse args = .ok flags → Loads w flags s →
      ¬(merge s flags).Valid → Refused w args

/-- The settings that a command goes by. -/
inductive Accepted (w : Surroundings) (args : List String) : Settings → Prop where
  | merged {flags : Flags} {s : Settings} : Flags.parse args = .ok flags → Loads w flags s →
      (merge s flags).Valid → Accepted w args (merge s flags)

section Settings

variable {w : Surroundings} {args : List String} {flags : Flags} {path : String}
    {bytes : List UInt8}
  {s : Settings}

theorem loadSettings_unopened {e : FileError} (hpath : settingsFile? w.directory flags = some path)
    (he : w.contents path = .error e) : ∃ problem, loadSettings w flags = .error problem := by
  simp only [loadSettings, hpath, he]
  cases e <;> exact ⟨_, rfl⟩

theorem loadSettings_undecoded {problem : String}
    (hpath : settingsFile? w.directory flags = some path) (hbytes : w.contents path = .ok bytes)
    (hdecode : w.decode .default bytes = .error problem) :
    ∃ problem', loadSettings w flags = .error problem' := by
  simp only [loadSettings, hpath, hbytes, hdecode]
  exact ⟨_, rfl⟩

theorem loadSettings_decoded (hpath : settingsFile? w.directory flags = some path)
    (hbytes : w.contents path = .ok bytes) (hdecode : w.decode .default bytes = .ok s) :
    (s.Valid → loadSettings w flags = .ok s) ∧
    (¬s.Valid → ∃ problem, loadSettings w flags = .error problem) := by
  simp only [loadSettings, hpath, hbytes, hdecode]
  refine ⟨fun hvalid => ?_, fun hinvalid => ?_⟩
  · rw [Settings.fault?_eq_none_iff.2 hvalid]
  · obtain ⟨fault, hfault⟩ := Settings.fault?_of_not_valid hinvalid
    rw [hfault]
    exact ⟨_, rfl⟩

theorem Loads.loadSettings (h : Loads w flags s) : loadSettings w flags = .ok s := by
  cases h with
  | default hpath => simp only [Command.loadSettings, hpath]
  | file hpath hbytes hdecode hvalid => exact (loadSettings_decoded hpath hbytes hdecode).1 hvalid

theorem configure_of_loaded (hflags : Flags.parse args = .ok flags)
    (hload : loadSettings w flags = .ok s) :
    ((merge s flags).Valid → configure w args = .ok (merge s flags)) ∧
    (¬(merge s flags).Valid → ∃ text, configure w args = .error text) := by
  simp only [configure, hflags, hload]
  refine ⟨fun hvalid => ?_, fun hinvalid => ?_⟩
  · rw [Settings.fault?_eq_none_iff.2 hvalid]
  · obtain ⟨fault, hfault⟩ := Settings.fault?_of_not_valid hinvalid
    rw [hfault]
    exact ⟨_, rfl⟩

theorem configure_of_unloaded {problem : String} (hflags : Flags.parse args = .ok flags)
    (hload : loadSettings w flags = .error problem) : ∃ text, configure w args = .error text := by
  simp only [configure, hflags, hload]
  exact ⟨_, rfl⟩

theorem Refused.configure (h : Refused w args) : ∃ text, configure w args = .error text := by
  cases h with
  | flags he =>
    simp only [Command.configure, he]
    exact ⟨_, rfl⟩
  | unopened hflags hpath he =>
    obtain ⟨problem, hload⟩ := loadSettings_unopened hpath he
    exact configure_of_unloaded hflags hload
  | undecoded hflags hpath hbytes hdecode =>
    obtain ⟨problem, hload⟩ := loadSettings_undecoded hpath hbytes hdecode
    exact configure_of_unloaded hflags hload
  | invalidFile hflags hpath hbytes hdecode hinvalid =>
    obtain ⟨problem, hload⟩ := (loadSettings_decoded hpath hbytes hdecode).2 hinvalid
    exact configure_of_unloaded hflags hload
  | invalid hflags hloads hinvalid =>
    exact (configure_of_loaded hflags hloads.loadSettings).2 hinvalid

theorem Accepted.configure (h : Accepted w args s) : configure w args = .ok s := by
  obtain ⟨hflags, hloads, hvalid⟩ := h
  exact (configure_of_loaded hflags hloads.loadSettings).1 hvalid

theorem Accepted.valid (h : Accepted w args s) : s.Valid := by
  obtain ⟨-, -, hvalid⟩ := h
  exact hvalid

end Settings

/-! What becomes of the run. -/

/-- The program that is run: the sample, or what the source file holds. -/
def source? (w : Surroundings) (s : Settings) : Option (List Char) :=
  if s.source = "" then some sample.toList else (w.contents s.source).toOption.map Text.decode

/-- Records in the format of the settings; nothing without a format. -/
def written (w : Surroundings) (s : Settings) (records : List TraceRecord) : String :=
  s.trace.format?.elim "" (renderTraceBy w.item · w.id records)

section Run

variable {w : Surroundings} {s : Settings} {text : List Char}

end Run

/-- Surroundings in which every path leads to the same text, with the YAML of this library. -/
def everywhere (content : String) : Surroundings :=
  Host.surroundings ⟨"/", fun _ => .ok content.toUTF8.toList, "run", "0x1"⟩

end Command

end ListLang
