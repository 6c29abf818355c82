import SourceStyle.Proofs.Modes
import SourceStyle.Proofs.Sessions

/-!
What the modes of an invocation leave alone. Arguments are refused before anything has happened,
help, version and inference change no file, and clearing the cache changes nothing but the default
cache's directory and file.
-/

namespace SourceStyle

open FileTree

/-! ### Failures of the work itself -/

/-- No failure of the action is one of usage. -/
structure NotUsage {σ α : Type} (action : EStateM Failure σ α) : Prop where
  kind_ne : ∀ state failure after, action state = .error failure after → failure.kind ≠ .usage

section
variable {σ α β : Type}

theorem notUsage_pure (value : α) : NotUsage (pure value : EStateM Failure σ α) :=
  ⟨nofun⟩

theorem notUsage_get : NotUsage (get : EStateM Failure σ σ) :=
  ⟨nofun⟩

theorem notUsage_throw {failure : Failure} (h : failure.kind ≠ .usage) :
    NotUsage (throw failure : EStateM Failure σ α) := by
  refine ⟨fun state other after he => ?_⟩
  cases he
  exact h

theorem NotUsage.bind {action : EStateM Failure σ α} {next : α → EStateM Failure σ β}
    (ha : NotUsage action) (hn : ∀ value, NotUsage (next value)) : NotUsage (action >>= next) := by
  refine ⟨fun state failure after h => ?_⟩
  obtain h | ⟨value, middle, -, h⟩ := Action.bind_eq_error.1 h
  · exact ha.kind_ne state failure after h
  · exact (hn value).kind_ne middle failure after h

theorem NotUsage.ite {c : Prop} [Decidable c] {action other : EStateM Failure σ α}
    (ha : NotUsage action) (ho : NotUsage other) : NotUsage (if c then action else other) := by
  split
  · exact ha
  · exact ho

theorem NotUsage.map {action : EStateM Failure σ α} (ha : NotUsage action) (f : α → β) :
    NotUsage (f <$> action) := by
  rw [← bind_pure_comp]
  exact ha.bind fun value => notUsage_pure (f value)

theorem notUsage_mapError {ε : Type} {action : Action ε α} {f : ε → Failure}
    (hf : ∀ cause, (f cause).kind ≠ .usage) : NotUsage (action.mapError f) := by
  refine ⟨fun tree failure after h => ?_⟩
  obtain ⟨cause, rfl, -⟩ := Action.mapError_eq_error.1 h
  exact hf cause

end

theorem notUsage_writeFile (path contents : String) : NotUsage (writeFile path contents) :=
  notUsage_mapError fun _ => nofun

namespace Batch

theorem notUsage_processFile (batch : Batch) (file destination : String) :
    NotUsage (batch.processFile file destination) := by
  refine ⟨fun tree failure after h => ?_⟩
  have ht := turn_processFile batch file destination tree
  rw [h] at ht
  cases ht with
  | failed _ _ _ _ writes =>
      exact (notUsage_writeFile destination _).kind_ne tree failure after writes

theorem notUsage_processFiles (batch : Batch) (input : String) (output : Option String)
    (files : List String) : NotUsage (batch.processFiles input output files) := by
  induction files generalizing batch with
  | nil => exact notUsage_pure batch
  | cons file rest ih =>
      exact notUsage_get.bind fun _ => (notUsage_processFile ..).bind fun _ => ih _

theorem notUsage_processInputs (batch : Batch) (output : Option String) (inputs : List String) :
    NotUsage (batch.processInputs output inputs) := by
  induction inputs generalizing batch with
  | nil => exact notUsage_pure batch
  | cons input rest ih =>
      refine notUsage_get.bind fun tree => ?_
      split
      · exact ih _
      · exact (notUsage_processFiles ..).bind fun _ => ih _

theorem notUsage_saveCache (batch : Batch) (path : Option String) :
    NotUsage (batch.saveCache path) := by
  refine ⟨fun tree failure after h => ?_⟩
  unfold saveCache at h
  split at h
  · split at h <;> cases h
  · cases h

theorem notUsage_run (inputs : List String) (output : Option String) (options : Options)
    (cachePath : Option String) : NotUsage (run inputs output options cachePath) :=
  notUsage_get.bind fun _ => (notUsage_processInputs ..).bind fun _ =>
    (notUsage_saveCache ..).bind fun _ => notUsage_pure _

end Batch

theorem Inference.kind_ne_usage_of_inferOptions {tree : FileTree} {root : String}
    {failure : Failure} (h : inferOptions tree root = .error failure) : failure.kind ≠ .usage := by
  rw [inferOptions] at h
  split at h
  · rename_i hs
    cases h
    rw [sourceFiles] at hs
    split at hs
    · cases hs
      nofun
    · split at hs <;> cases hs
  · cases h

theorem Cache.notUsage_clear (path : String) : NotUsage (clear path) := by
  refine notUsage_get.bind fun tree => .ite ?_ (notUsage_pure false)
  exact (notUsage_mapError fun _ => by nofun).bind fun _ => notUsage_pure true

/-! ### Clearing the cache -/

namespace Cache

variable {host : Host} {tree middle : FileTree} {path : Option String}
  {place : SourceStyle.Location}

/-- All that changed is that directories were made where the path of the default cache's directory
leads or comes through, only at its end if the host's cache directory was there, and that the
default cache's file is gone. -/
def Clears (host : Host) (tree after : FileTree) : Prop :=
  ∀ place, after.entry? place ≠ tree.entry? place → ∃ base ∈ host.cacheDirectory,
    let directory := Path.join base directoryName
    (tree.entry? place = none ∧ after.entry? place = some .directory ∧
      tree.ComesThrough directory place ∧
      (tree.isDirectory base = true → place = tree.lead directory)) ∨
    (∃ bytes, tree.entry? place = some (.file bytes)) ∧ after.entry? place = none ∧
      place = tree.lead (Path.join directory fileName)

theorem leaves_clear (file : String) (tree : FileTree) :
    (clear file).leaves tree = tree ∨
      ∃ bytes, tree.lead file ≠ [] ∧ tree.entry? (tree.lead file) = some (.file bytes) ∧
        (clear file).leaves tree = tree.remove (tree.lead file) := by
  cases hc : clear file tree with
  | ok removed after =>
      rw [Action.leaves_of_ok hc]
      rw [clear, Batch.get_bind] at hc
      split at hc
      · obtain ⟨_, middle, hr, hp⟩ := Action.bind_eq_ok.1 hc
        cases hp
        exact .inr (removeFile_eq_ok (Action.mapError_eq_ok.1 hr))
      · cases hc
        exact .inl rfl
  | error failure after =>
      rw [Action.leaves_of_error hc]
      rw [clear, Batch.get_bind] at hc
      split at hc
      · obtain hr | ⟨_, _, _, hp⟩ := Action.bind_eq_error.1 hc
        · obtain ⟨cause, -, hr⟩ := Action.mapError_eq_error.1 hr
          exact .inl (removeFile_eq_error hr)
        · cases hp
      · cases hc

/-- What goes when a cache is cleared is a file where its path leads. -/
theorem eq_lead_of_clear (hs : tree.Sound) {file : String}
    (h : FileTree.entry? ((clear file).leaves tree) place ≠ tree.entry? place) :
    (∃ bytes, tree.entry? place = some (.file bytes)) ∧
      FileTree.entry? ((clear file).leaves tree) place = none ∧ place = tree.lead file := by
  obtain hl | ⟨bytes, hn, hf, hl⟩ := leaves_clear file tree <;> rw [hl] at h ⊢
  · exact absurd rfl h
  · rw [hs.entry?_remove_file hn hf] at h ⊢
    split at h
    · rw [‹place = _›]
      exact ⟨⟨bytes, hf⟩, if_pos rfl, rfl⟩
    · exact absurd rfl h

/-- Locating the default cache and clearing it changes nothing else. -/
theorem Locates.clears (hs : tree.Sound) (hl : Locates host tree path middle) :
    Clears host tree (path.elim middle fun file => (clear file).leaves middle) := by
  intro place hc
  cases hb : host.cacheDirectory with
  | none =>
      obtain ⟨rfl, rfl⟩ := hl.none hb
      exact absurd rfl hc
  | some base =>
      obtain ⟨hp, hf⟩ := hl.some base hb
      refine ⟨base, rfl, ?_⟩
      by_cases hm : middle.entry? place = tree.entry? place
      · cases path with
        | none => exact absurd hm hc
        | some file =>
            obtain ⟨⟨bytes, hb⟩, hg, he⟩ := eq_lead_of_clear (hp.sound hs) (hm ▸ hc)
            rw [lead, start, hp.workingDirectory, ← start, ← lead, hf file rfl] at he
            exact .inr ⟨⟨bytes, hm ▸ hb⟩, hg, he⟩
      · obtain ⟨hn, hd⟩ := (hp.stands place).resolve_left hm
        have hw := hp.along place hm
        refine .inl ⟨hn, ?_, hw, fun hb => ?_⟩
        · cases path with
          | none => exact hd
          | some file =>
              by_contra hg
              obtain ⟨⟨bytes, hb⟩, -, -⟩ := eq_lead_of_clear (hp.sound hs) (hd ▸ hg)
              cases hd.symm.trans hb
        · refine (hw.of_join (by decide) hb).resolve_left fun he => ?_
          rw [hn] at he
          cases he

end Cache

namespace Invocation

open CommandLine

variable {setting : Setting} {arguments : Arguments} {console after : Console} {failure : Failure}

/-! ### What does not depend on standard input -/

theorem reportAll_withInput (input : List StandardInput.ReadEvent) (failures : List Failure) :
    reportAll { setting with input } failures = reportAll setting failures := by
  induction failures with
  | nil => rfl
  | cons failure rest ih =>
      rw [reportAll, reportAll, ih]
      rfl

theorem settle_withInput (setting : Setting) (input : List StandardInput.ReadEvent) :
    settle { setting with input } arguments = settle setting arguments := by
  have hf : ∀ options, settleFormatting { setting with input } arguments options =
      settleFormatting setting arguments options := fun options => by
    simp only [settleFormatting, reportAll_withInput]
    rfl
  simp only [settle, hf]

/-! ### What a mode does to the files -/

def filesAfter {α : Type} (step : Step α) (console : Console) : FileTree :=
  match step console with
  | .ok _ after | .error _ after => after.files

theorem filesAfter_bind_of_ok {α β : Type} {step : Step α} {next : α → Step β} {value : α}
    (h : step console = .ok value after) :
    filesAfter (step >>= next) console = filesAfter (next value) after := by
  rw [filesAfter, Action.bind_of_ok h, filesAfter]

theorem filesAfter_bind_of_error {α β : Type} {step : Step α} {next : α → Step β}
    (h : step console = .error failure after) :
    filesAfter (step >>= next) console = after.files := by
  rw [filesAfter, Action.bind_of_error h]

/-- The step changes no file, whether or not it fails. -/
structure KeepsFiles {α : Type} (step : Step α) : Prop where
  files_eq : ∀ console, filesAfter step console = console.files

theorem keepsFiles_pure {α : Type} (value : α) : KeepsFiles (pure value) :=
  ⟨fun _ => rfl⟩

theorem keepsFiles_throw {α : Type} (failure : Failure) : KeepsFiles (throw failure : Step α) :=
  ⟨fun _ => rfl⟩

theorem keepsFiles_get : KeepsFiles (get : Step Console) :=
  ⟨fun _ => rfl⟩

theorem KeepsFiles.bind {α β : Type} {step : Step α} {next : α → Step β} (hs : KeepsFiles step)
    (hn : ∀ value, KeepsFiles (next value)) : KeepsFiles (step >>= next) := by
  refine ⟨fun console => ?_⟩
  have hf := hs.files_eq console
  rw [filesAfter] at hf
  cases h : step console with
  | ok value middle =>
      rw [h] at hf
      rw [filesAfter_bind_of_ok h, (hn value).files_eq]
      exact hf
  | error failure middle =>
      rw [h] at hf
      rw [filesAfter_bind_of_error h]
      exact hf

theorem keepsFiles_print (setting : Setting) (text : String) : KeepsFiles (print setting text) := by
  refine ⟨fun console => ?_⟩
  obtain hp | ⟨_, -, _, _, -, hp⟩ := print_cases setting text console <;> rw [filesAfter, hp]

theorem keepsFiles_printed {α : Type} (setting : Setting) (text : String) (value : α) :
    KeepsFiles (do print setting text; pure value) :=
  (keepsFiles_print setting text).bind fun _ => keepsFiles_pure value

theorem keepsFiles_infer (services : Services) (setting : Setting) (root : String) :
    KeepsFiles (infer services setting root) := by
  rw [infer]
  split
  · exact keepsFiles_throw _
  · refine (keepsFiles_print ..).bind fun _ => keepsFiles_get.bind fun console => ?_
    split
    · exact keepsFiles_throw _
    · exact keepsFiles_printed ..

theorem filesAfter_clearCache (setting : Setting) (path : Option String) (console : Console) :
    filesAfter (clearCache setting path) console =
      path.elim console.files fun path => (Cache.clear path).leaves console.files := by
  cases path with
  | none => exact (keepsFiles_printed ..).files_eq console
  | some path =>
      rw [clearCache, Option.elim_some, Action.leaves]
      dsimp only
      cases hc : Cache.clear path console.files with
      | ok removed files =>
          rw [filesAfter_bind_of_ok (onFiles_of_ok hc)]
          exact (keepsFiles_printed ..).files_eq _
      | error failure files => rw [filesAfter_bind_of_error (onFiles_of_error hc)]

theorem notUsage_onFiles {α : Type} {action : FileTree.Action Failure α} (h : NotUsage action) :
    NotUsage (onFiles action) := by
  refine ⟨fun console failure after ho => ?_⟩
  rw [onFiles] at ho
  split at ho
  · cases ho
  · cases ho
    exact h.kind_ne _ _ _ ‹_›

theorem notUsage_print (setting : Setting) (text : String) : NotUsage (print setting text) := by
  refine ⟨fun console failure after h => ?_⟩
  obtain hp | ⟨_, -, _, _, -, hp⟩ := print_cases setting text console
  · cases hp.symm.trans h
  · cases hp.symm.trans h
    nofun

theorem notUsage_printed {α : Type} (setting : Setting) (text : String) (value : α) :
    NotUsage (do print setting text; pure value) :=
  (notUsage_print setting text).bind fun _ => notUsage_pure value

theorem notUsage_reportAll (setting : Setting) (failures : List Failure) :
    NotUsage (reportAll setting failures) := by
  refine ⟨fun console failure after h => ?_⟩
  obtain ⟨err, he | ⟨_, -, he⟩⟩ := reportAll_cases setting failures console
  · cases he.symm.trans h
  · cases he.symm.trans h
    nofun

theorem notUsage_checkStream (fault? : Option SystemFault) : NotUsage (checkStream fault?) := by
  cases fault? with
  | none => exact notUsage_pure ()
  | some fault => exact notUsage_throw nofun

theorem notUsage_flushAfter {step : Step Outcome} (h : NotUsage step) :
    NotUsage (flushAfter setting step) :=
  h.bind fun _ => (notUsage_checkStream _).bind fun _ => notUsage_pure _

theorem notUsage_handleInput (options : Options) (output : Option String) (text : String) :
    NotUsage (handleInput toolchain options output text) := by
  rw [handleInput]
  split
  · exact notUsage_throw nofun
  · split
    · exact notUsage_pure _
    · exact (notUsage_writeFile ..).bind fun _ => notUsage_pure none

theorem notUsage_handleInputUntil (options : Options) (output : Option String) (progress : Progress)
    (text : String) : NotUsage (handleInputUntil toolchain options output progress text) := by
  refine ⟨fun tree failure after h => ?_⟩
  obtain ⟨left, he, -⟩ := handleInputUntil_cases options output progress text tree
  cases he.symm.trans h
  nofun

theorem notUsage_workOnInput (options : Options) (output : Option String) (text : String) :
    NotUsage (workOnInput toolchain setting options output text) := by
  rw [workOnInput]
  cases setting.lag with
  | none => exact notUsage_handleInput options output text
  | some progress => exact notUsage_handleInputUntil options output progress text

theorem notUsage_session {α : Type} {handler : String → FileTree.Action Failure α}
    (hh : ∀ text, NotUsage (handler text)) (events : List StandardInput.ReadEvent) :
    NotUsage (StandardInput.session handler events) := by
  rw [StandardInput.session_eq_outcome]
  cases StandardInput.endingOf events with
  | input => exact .ite (notUsage_pure none) ((hh _).map some)
  | failed cause => exact notUsage_throw nofun
  | stalled => exact .ite (notUsage_pure none) (notUsage_throw nofun)
  | died => exact .ite (notUsage_pure none) (notUsage_throw nofun)

/-- The work of a mode never fails for its usage. -/
theorem notUsage_carryOut {mode : Mode} (hm : mode ≠ .infer "") :
    NotUsage (carryOut toolchain setting mode) := by
  cases mode with
  | help => exact notUsage_printed ..
  | version => exact notUsage_printed ..
  | infer root =>
      rw [carryOut, infer, if_neg (mt (congrArg Mode.infer) hm)]
      refine (notUsage_print ..).bind fun _ => notUsage_get.bind fun console => ?_
      split
      · exact notUsage_throw (Inference.kind_ne_usage_of_inferOptions ‹_›)
      · exact notUsage_printed ..
  | clearCache path =>
      cases path with
      | none => exact (notUsage_pure _).bind fun _ => notUsage_printed ..
      | some path =>
          exact (notUsage_onFiles (Cache.notUsage_clear path)).bind fun _ => notUsage_printed ..
  | formatInput options output =>
      rw [carryOut, formatInput]
      refine notUsage_flushAfter
        ((notUsage_onFiles (notUsage_session (notUsage_workOnInput options output) _)).bind ?_)
      intro result
      split <;> exact notUsage_printed ..
  | formatFiles options inputs output cachePath =>
      exact notUsage_flushAfter <| (notUsage_print ..).bind fun _ =>
        (notUsage_onFiles (Batch.notUsage_run ..)).bind fun _ =>
          (notUsage_reportAll ..).bind fun _ => notUsage_printed ..

theorem settled_mode_ne {mode : Mode} {middle : Console}
    (hm : settle setting arguments console = .ok mode middle) : mode ≠ .infer "" := by
  have hs := settled_settle setting arguments console
  rw [hm] at hs
  rintro rfl
  cases hs with
  | infer asked named => exact named rfl

/-- Only settling a mode fails for usage, and it does so before anything has happened. -/
theorem settle_eq_error_of_usage (hr : run setting arguments console = .error failure after)
    (hu : failure.kind = .usage) :
    settle setting arguments console = .error failure console ∧ after = console := by
  rw [run, runWith_eq] at hr
  obtain hr | ⟨mode, middle, hm, hw⟩ := Action.bind_eq_error.1 hr
  · have hs := settled_settle setting arguments console
    rw [hr] at hs
    cases hs with
    | refused usage => exact ⟨hr, rfl⟩
    | unreported formats ends => cases hu
  · exact absurd hu ((notUsage_carryOut (settled_mode_ne hm)).kind_ne middle failure after hw)

theorem filesAfter_run_of_asked (ha : (arguments.flag? "help").isSome ∨
      (arguments.flag? "version").isSome ∨ (arguments.flag? "inferoptions").isSome)
    (console : Console) : filesAfter (run setting arguments) console = console.files := by
  have hs := settled_settle setting arguments console
  rw [run, runWith_eq]
  cases hm : settle setting arguments console with
  | error failure after =>
      rw [hm] at hs
      rw [filesAfter_bind_of_error hm]
      cases hs with
      | refused usage => rfl
      | unreported formats => exact absurd ha formats.not_asked
  | ok mode middle =>
      rw [hm] at hs
      rw [filesAfter_bind_of_ok hm]
      cases hs with
      | help asked => exact (keepsFiles_printed ..).files_eq console
      | version asked => exact (keepsFiles_printed ..).files_eq console
      | infer asked named => exact (keepsFiles_infer toolchain setting _).files_eq console
      | clearCache formats => exact absurd ha formats.not_asked
      | formatInput formats => exact absurd ha formats.not_asked
      | formatFiles formats => exact absurd ha formats.not_asked

/-- Asked to clear the cache, an invocation is refused or its mode is just that. -/
theorem settle_of_clear (setting : Setting) (hf : Formats arguments)
    (hc : arguments.flag? "cache" = some "clear") (console : Console) :
    (∃ failure after, settle setting arguments console = .error failure after ∧
        Cache.Locates setting.host console.files none after.files) ∨
      ∃ path files err,
        settle setting arguments console = .ok (.clearCache path) { console with files, err } ∧
        Cache.Locates setting.host console.files path files := by
  have hs := settled_settle setting arguments console
  cases hm : settle setting arguments console with
  | error failure after =>
      rw [hm] at hs
      refine .inl ⟨failure, after, rfl, ?_⟩
      cases hs with
      | refused usage => exact .refl setting.host console.files
      | unreported formats ends furnished located => exact located hc
  | ok mode middle =>
      rw [hm] at hs
      cases hs with
      | help asked => exact absurd (.inl asked) hf.not_asked
      | version asked => exact absurd (.inr (.inl asked)) hf.not_asked
      | infer asked named =>
          exact absurd (.inr (.inr (Option.isSome_of_eq_some asked))) hf.not_asked
      | clearCache formats clear located => exact .inr ⟨_, _, _, rfl, located⟩
      | formatInput formats use => exact absurd hc use
      | formatFiles formats use => exact absurd hc use

/-- An invocation that is refused for its usage has done nothing, and it is whatever standard input
holds. Asked for help, its version or inference it changes no file. Asked to clear the cache it
formats nothing, does not look at standard input, and changes nothing but the default cache. -/
theorem run_keeps_files (setting : Setting) (arguments : Arguments) (console : Console) :
    (∀ failure after, run setting arguments console = .error failure after →
      failure.kind = .usage →
      after = console ∧
        ∀ input, run { setting with input } arguments console = .error failure console) ∧
    ((arguments.flag? "help").isSome ∨ (arguments.flag? "version").isSome ∨
        (arguments.flag? "inferoptions").isSome →
      filesAfter (run setting arguments) console = console.files) ∧
    (Formats arguments → arguments.flag? "cache" = some "clear" →
      (∀ services input,
        runWith services { setting with input } arguments console = run setting arguments console) ∧
      (console.files.Sound →
        Cache.Clears setting.host console.files (filesAfter (run setting arguments) console))) := by
  refine ⟨fun failure after hr hu => ?_, fun ha => filesAfter_run_of_asked ha console,
    fun hf hc => ?_⟩
  · obtain ⟨hm, rfl⟩ := settle_eq_error_of_usage hr hu
    refine ⟨rfl, fun input => ?_⟩
    rw [run, runWith_eq, settle_withInput]
    exact Action.bind_of_error hm
  · obtain ⟨failure, after, hm, hl⟩ | ⟨path, files, err, hm, hl⟩ :=
      settle_of_clear setting hf hc console
    · refine ⟨fun services input => ?_, fun ht => ?_⟩
      · rw [run, runWith_eq, runWith_eq, settle_withInput, Action.bind_of_error hm,
          Action.bind_of_error hm]
      · rw [run, runWith_eq, filesAfter_bind_of_error hm]
        exact hl.clears ht
    · refine ⟨fun services input => ?_, fun ht => ?_⟩
      · rw [run, runWith_eq, runWith_eq, settle_withInput, Action.bind_of_ok hm,
          Action.bind_of_ok hm]
        rfl
      · rw [run, runWith_eq, filesAfter_bind_of_ok hm, carryOut, filesAfter_clearCache]
        exact hl.clears ht

/-- A host that keeps caches, with a cache and a source file. -/
def exampleSetting : Setting where
  host := { workingDirectory := "/w", cacheDirectory := some "/c" }

def exampleConsole : Console where
  files :=
    { entries := [(["c"], .directory), (["c", "swiftfmt"], .directory),
        (["c", "swiftfmt", "swiftfmt.cache"], .file "{}".toUTF8), (["w"], .directory),
        (["w", "a.swift"], .file "a;".toUTF8)] }

/-- A cache flag without a value, help beside clearing, and clearing beside an input, which takes
the cache's file away. -/
theorem run_keeps_files_modes :
    (∀ input, run { exampleSetting with input } { flags := [("cache", "")] } exampleConsole =
      .error (.missingValue "cache") exampleConsole) ∧
    filesAfter (run exampleSetting { flags := [("help", ""), ("cache", "clear")] }) exampleConsole =
      exampleConsole.files ∧
    Formats { flags := [("cache", "clear")], inputs := ["a.swift"] } ∧
    exampleConsole.files.Sound ∧
    Cache.Clears exampleSetting.host exampleConsole.files
      (filesAfter (run exampleSetting { flags := [("cache", "clear")], inputs := ["a.swift"] })
        exampleConsole) ∧
    FileTree.entry?
      (filesAfter (run exampleSetting { flags := [("cache", "clear")], inputs := ["a.swift"] })
        exampleConsole) ["c", "swiftfmt", "swiftfmt.cache"] = none := by
  have hr : run exampleSetting { flags := [("cache", "")] } exampleConsole =
      .error (.missingValue "cache") exampleConsole := by rfl
  have hs : exampleConsole.files.Sound := by decide +kernel
  refine ⟨((run_keeps_files exampleSetting _ exampleConsole).1 _ _ hr rfl).2,
    (run_keeps_files exampleSetting _ exampleConsole).2.1 (.inl rfl), ⟨rfl, rfl, rfl⟩, hs, ?_, ?_⟩
  · exact ((run_keeps_files exampleSetting _ exampleConsole).2.2 ⟨rfl, rfl, rfl⟩ rfl).2 hs
  · decide +kernel

end Invocation
end SourceStyle
