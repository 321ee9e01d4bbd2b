import ListLang.Proofs.CommandContract
import ListLang.Proofs.FlagReading
import ListLang.Proofs.Overlay

/-! How the settings of a run are made of flags, a settings file and the defaults. A file has to be
valid by itself; of the settings of one that is, those that a flag decides leave no mark on the
report. Of the decoder it is used that it keeps what a document does not set. -/

namespace ListLang.Command

open Settings (Overlay Says KeepsUnset)

/-- A flag that is given a value other than its empty one. -/
def Decides {β : Type} (empty : β) (flag : Option β) : Prop := ∃ v, flag = some v ∧ v ≠ empty

/-- A setting is the one of the flag where that is given, else the one of the file, else the
default. Nothing is said of a flag that is given its empty value where the file, or else the
default, has another. -/
structure Overridden {α β : Type} (mean : β → α) (empty : β) (flag : Option β) (file : Option α)
    (default used : α) :
    Prop where
  given : ∀ {v}, flag = some v → v ≠ empty ∨ file.getD default = mean v → used = mean v
  absent : flag = none → used = file.getD default

/-- The settings that come of the flags, of what the file says and of the defaults. No flag sets the
depth. -/
structure Overrides (flags : Flags) (o : Overlay) (used : Settings) : Prop where
  source : Overridden id "" flags.source o.source Settings.default.source used.source
  trace : Overridden TraceChoice.ofText "" flags.trace o.trace Settings.default.trace used.trace
  debug : Overridden id false flags.debug o.debug Settings.default.debug used.debug
  maxDepth : used.maxDepth = o.maxDepth.getD Settings.default.maxDepth

/-- Two files say the same of every setting that the flags do not decide. -/
structure AgreeBut (flags : Flags) (o o' : Overlay) : Prop where
  source : ¬Decides "" flags.source → o'.source = o.source
  trace : ¬Decides "" flags.trace → o'.trace = o.trace
  debug : ¬Decides false flags.debug → o'.debug = o.debug
  maxDepth : o'.maxDepth = o.maxDepth

/-- Surroundings that differ in nothing but files, and not in the program. -/
structure SameProgram (w w' : Surroundings) (source : String) : Prop where
  directory : w'.directory = w.directory
  decode : w'.decode = w.decode
  item : w'.item = w.item
  id : w'.id = w.id
  handle : w'.handle = w.handle
  contents : source ≠ "" → w'.contents source = w.contents source

/-! ## The settings -/

theorem not_decides_iff {β : Type} {empty : β} {flag : Option β} :
    ¬Decides empty flag ↔ flag.getD empty = empty := by
  cases flag with
  | none => simp [Decides]
  | some v => simp [Decides]

theorem overridden_text {α : Type} (mean : String → α) (flag : Option String) (file : Option α)
    (default : α) :
    Overridden mean "" flag file default
      (if flag.getD "" = "" then file.getD default else mean (flag.getD "")) where
  given := by
    rintro v rfl hv
    rcases hv with hne | hsame
    · exact if_neg hne
    · rw [hsame]
      exact ite_self _
  absent := by
    rintro rfl
    exact if_pos rfl

theorem overridden_switch (flag file : Option Bool) (default : Bool) :
    Overridden id false flag file default (flag.getD false || file.getD default) where
  given := by
    rintro v rfl hv
    cases v with
    | true => rfl
    | false => simpa using hv
  absent := by
    rintro rfl
    rfl

theorem merge_overrides (flags : Flags) (o : Overlay) :
    Overrides flags o (merge (o.laidOn .default) flags) where
  source := overridden_text id flags.source o.source _
  trace := overridden_text TraceChoice.ofText flags.trace o.trace _
  debug := overridden_switch flags.debug o.debug _
  maxDepth := rfl

theorem merge_eq_of_agreeBut {flags : Flags} {o o' : Overlay} (h : AgreeBut flags o o') :
    merge (o'.laidOn .default) flags = merge (o.laidOn .default) flags := by
  obtain ⟨hsource, htrace, hdebug, hdepth⟩ := h
  rw [not_decides_iff] at hsource htrace hdebug
  simp only [merge, Overlay.laidOn, hdepth, Settings.mk.injEq, true_and]
  refine ⟨?_, ?_, ?_⟩
  · split
    · rename_i hempty
      rw [hsource hempty]
    · rfl
  · split
    · rename_i hempty
      rw [htrace hempty]
    · rfl
  · cases hflag : flags.debug.getD false with
    | true => rfl
    | false => rw [hdebug hflag]

/-! ## The report -/

section Report

variable {w w' : Surroundings} {args : List String} {flags : Flags} {s : Settings}

theorem runWith_congr (h : SameProgram w w' s.source) : runWith w' s = runWith w s := by
  have hsource : readSource w' s = readSource w s := by
    unfold readSource
    split
    · rfl
    · rename_i hne
      rw [h.contents hne]
  simp only [runWith, hsource, context, traceText, h.item, h.id, h.handle]

theorem report_of_loaded (hflags : Flags.parse args = .ok flags)
    (hload : loadSettings w flags = .ok s) :
    ((merge s flags).Valid → report w args = runWith w (merge s flags)) ∧
    (¬(merge s flags).Valid → ∃ text, report w args = ⟨2, "", text⟩) := by
  obtain ⟨haccepted, hrefused⟩ := configure_of_loaded hflags hload
  refine ⟨fun hvalid => ?_, fun hinvalid => ?_⟩
  · rw [report, haccepted hvalid]
  · obtain ⟨text, hconfigure⟩ := hrefused hinvalid
    exact ⟨text, by rw [report, hconfigure]⟩

theorem report_congr {s' : Settings} (hflags : Flags.parse args = .ok flags)
    (hload : loadSettings w flags = .ok s) (hload' : loadSettings w' flags = .ok s')
    (hmerge : merge s' flags = merge s flags) (hprogram : SameProgram w w' (merge s flags).source) :
    report w' args = report w args := by
  simp only [report, configure, hflags, hload, hload', hmerge]
  cases (merge s flags).fault? with
  | none => exact runWith_congr hprogram
  | some fault => rfl

end Report

/-- A file with settings that are not valid is refused whatever the flags. With any other the run
has of each setting the value that was given last on the command line, else the one of the file,
else the default, and what the file says of a setting that a flag decides does not show in the
report. -/
theorem flags_override_file {w : Surroundings} (hkeeps : KeepsUnset w.decode) {args : List String}
    {flags : Flags} {path : String} {bytes : List UInt8} {s : Settings}
    (hflags : Flags.parse args = .ok flags) (hpath : settingsFile? w.directory flags = some path)
    (hbytes : w.contents path = .ok bytes) (hdecode : w.decode .default bytes = .ok s) :
    (∃ given, Flags.Reads args given) ∧ (∃ o, Says w.decode bytes o) ∧
    ∀ given o, Flags.Reads args given → Says w.decode bytes o →
      (¬s.Valid → ∃ text, report w args = ⟨2, "", text⟩) ∧
      (s.Valid → ∃ used, Overrides (Flags.lastOf given) o used ∧
        (used.Valid → report w args = runWith w used) ∧
        (¬used.Valid → ∃ text, report w args = ⟨2, "", text⟩) ∧
        ∀ w' bytes' o', w'.contents path = .ok bytes' → Says w.decode bytes' o' →
          (o'.laidOn .default).Valid → AgreeBut (Flags.lastOf given) o o' →
          SameProgram w w' used.source → report w' args = report w args) := by
  obtain ⟨given, hreads, -⟩ := Flags.parse_eq_ok_iff.1 hflags
  refine ⟨⟨given, hreads⟩, hkeeps _ _ _ hdecode, fun given o hreads hsaid => ?_⟩
  obtain rfl : flags = Flags.lastOf given :=
    Except.ok.inj (hflags.symm.trans (Flags.parse_eq_ok_iff.2 ⟨given, hreads, rfl⟩))
  obtain rfl : s = o.laidOn .default := Except.ok.inj (hdecode.symm.trans (hsaid .default))
  obtain ⟨hvalidFile, hinvalidFile⟩ := loadSettings_decoded hpath hbytes hdecode
  refine ⟨fun hinvalid => ?_, fun hvalid => ?_⟩
  · obtain ⟨problem, hload⟩ := hinvalidFile hinvalid
    obtain ⟨text, hconfigure⟩ := configure_of_unloaded hflags hload
    exact ⟨text, by rw [report, hconfigure]⟩
  · have hload := hvalidFile hvalid
    obtain ⟨haccepted, hrefused⟩ := report_of_loaded hflags hload
    refine ⟨_, merge_overrides (Flags.lastOf given) o, haccepted, hrefused, ?_⟩
    intro w' bytes' o' hbytes' hsaid' hvalid' hagree hprogram
    rw [← hprogram.directory] at hpath
    rw [← hprogram.decode] at hsaid'
    have hload' := (loadSettings_decoded hpath hbytes' (hsaid' .default)).1 hvalid'
    exact report_congr hflags hload hload' (merge_eq_of_agreeBut hagree) hprogram

/-- Two files with other formats, only one of which turns the log on, under flags that decide
both. -/
theorem flags_override_file_logged :
    KeepsUnset (everywhere "trace: yaml\n").decode ∧
    (∃ used, Overrides ⟨some "c", none, some "none", some true⟩
        ⟨none, some (.format (some .yaml)), none, none⟩ used ∧
      used.trace = .format none ∧ used.debug = true ∧
      report (everywhere "trace: yaml\n") ["-config", "c", "--trace=none", "-debug"] =
        runWith (everywhere "trace: yaml\n") used) ∧
    report (everywhere "trace: text\ndebug: on\n") ["-config", "c", "--trace=none", "-debug"] =
      report (everywhere "trace: yaml\n") ["-config", "c", "--trace=none", "-debug"] := by
  have hkeeps : KeepsUnset (everywhere "trace: yaml\n").decode := Settings.decode_keepsUnset
  have hflags : Flags.parse ["-config", "c", "--trace=none", "-debug"] =
      .ok ⟨some "c", none, some "none", some true⟩ := by decide +kernel
  have hsaid : Says Settings.decode "trace: yaml\n".toUTF8.toList
      ⟨none, some (.format (some .yaml)), none, none⟩ := by decide +kernel
  have hsaid' : Says Settings.decode "trace: text\ndebug: on\n".toUTF8.toList
      ⟨none, some (.format (some .text)), none, some true⟩ := by decide +kernel
  have hpath : settingsFile? "/" ⟨some "c", none, some "none", some true⟩ =
      some (Path.absolute "/" "c") := if_neg (by decide)
  obtain ⟨⟨given, hreads⟩, -, hall⟩ := flags_override_file hkeeps hflags hpath rfl (hsaid .default)
  have hgiven : Flags.lastOf given = ⟨some "c", none, some "none", some true⟩ :=
    Except.ok.inj ((Flags.parse_eq_ok_iff.2 ⟨given, hreads, rfl⟩).symm.trans hflags)
  obtain ⟨-, hvalid⟩ := hall given _ hreads hsaid
  obtain ⟨used, hoverrides, hruns, -, hsame⟩ := hvalid ⟨⟨_, rfl⟩, by decide⟩
  rw [hgiven] at hoverrides hsame
  have hsource : used.source = "" := hoverrides.source.absent rfl
  have htrace : used.trace = .format none :=
    (hoverrides.trace.given rfl (.inl (by decide))).trans (by decide +kernel)
  have hdebug : used.debug = true := hoverrides.debug.given rfl (.inl (by decide))
  have hdepth : used.maxDepth = Settings.default.maxDepth := hoverrides.maxDepth
  have hvalidUsed : used.Valid := ⟨⟨_, htrace⟩, by rw [hdepth]; decide⟩
  refine ⟨hkeeps, ⟨used, hoverrides, htrace, hdebug, hruns hvalidUsed⟩, ?_⟩
  refine hsame _ _ _ rfl hsaid' ⟨⟨_, rfl⟩, by decide⟩ ?_
    ⟨rfl, rfl, rfl, rfl, rfl, fun hne => absurd hsource hne⟩
  exact ⟨fun _ => rfl, fun h => absurd ⟨_, rfl, by decide⟩ h,
    fun h => absurd ⟨_, rfl, by decide⟩ h, rfl⟩

/-- A file is refused for a format that the flag would replace, and `-debug=false` leaves the log of
the file on. -/
theorem file_shows_through_flags :
    report (everywhere "trace: xml\n") ["-config", "c", "-trace", "none"] =
      ⟨2, "", "steed: config: unknown trace format \"xml\"\n"⟩ ∧
    report (everywhere "trace: yaml\n") ["-config", "c", "-trace", "none"] = ⟨0, "", ""⟩ ∧
    report (everywhere "debug: true\n") ["-config", "c", "-trace", "none", "-debug=false"] ≠
      ⟨0, "", ""⟩ ∧
    report (everywhere "debug: false\n") ["-config", "c", "-trace", "none", "-debug=false"] =
      ⟨0, "", ""⟩ := by
  decide +kernel

end ListLang.Command
