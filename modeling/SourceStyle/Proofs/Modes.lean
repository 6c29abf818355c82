import SourceStyle.Invocation
import SourceStyle.Proofs.Files.Routes
import SourceStyle.Proofs.Files.Temporary
import SourceStyle.Proofs.Turns

/-!
What an invocation does before it reads any source: it checks its arguments, settles the cache and
settles on one task. A run is that and then the task, and only some tasks touch files or standard
input. A stream may take only a part of what is printed, and work on standard input may be given up.
-/

namespace SourceStyle

open FileTree

namespace FileTree.Action

variable {ε α : Type} {action : Action ε α} {tree : FileTree} {P : FileTree → Prop}

theorem ends_of_leaves (h : P (action.leaves tree)) : action.Ends tree (fun _ => P) P := by
  rw [leaves] at h
  rw [Ends]
  cases ha : action tree <;> rwa [ha] at h

end FileTree.Action

namespace Cache

variable {host : Host} {value : Option String} {tree after : FileTree} {path : Option String}
  {resolution : Resolution} {failure : Failure}

/-- What looking for the default cache of a host does: directories are made for it where the host
keeps caches, and its file may be known after that. -/
structure Locates (host : Host) (tree : FileTree) (path : Option String) (after : FileTree) :
    Prop where
  none : host.cacheDirectory = none → path = none ∧ after = tree
  some : ∀ base, host.cacheDirectory = some base →
    Paves (Path.join base directoryName) tree after ∧
      ∀ file ∈ path, file = Path.join (Path.join base directoryName) fileName

theorem Locates.refl (host : Host) (tree : FileTree) : Locates host tree Option.none tree where
  none _ := ⟨rfl, rfl⟩
  some _ _ := ⟨.refl _ tree, fun _ hf => by cases hf⟩

/-- What was made is the same if the file is not known. -/
theorem Locates.unknown (h : Locates host tree path after) :
    Locates host tree Option.none after where
  none hb := ⟨rfl, (h.none hb).2⟩
  some base hb := ⟨(h.some base hb).1, fun _ hf => by cases hf⟩

theorem Locates.furnishes (h : Locates host tree path after) : Furnishes tree after := by
  cases hb : host.cacheDirectory with
  | none => exact (h.none hb).2 ▸ .refl tree
  | some base => exact (h.some base hb).1.toFurnishes

theorem ends_defaultPath (host : Host) (tree : FileTree) :
    (defaultPath host).Ends tree (fun file => Locates host tree (some file))
      (Locates host tree none) := by
  rw [defaultPath]
  cases hb : host.cacheDirectory with
  | none => exact ⟨fun _ => ⟨rfl, rfl⟩, fun base h => nomatch hb.symm.trans h⟩
  | some base =>
      have hp := paves_makeDirectories (Path.join base directoryName) tree
      rw [← Action.leaves_mapError (Failure.cacheDirectory (Path.join base directoryName))] at hp
      have hl : ∀ path after, Paves (Path.join base directoryName) tree after →
          (∀ file ∈ path, file = Path.join (Path.join base directoryName) fileName) →
          Locates host tree path after := by
        intro path after hp hf
        refine ⟨fun h => (nomatch hb.symm.trans h), fun other h => ?_⟩
        obtain rfl := Option.some.inj (hb.symm.trans h)
        exact ⟨hp, hf⟩
      refine Action.Ends.bind ((Action.ends_of_leaves hp).mono (fun _ _ h => h)
        fun after h => hl _ _ h nofun) fun _ made h => ?_
      exact hl _ _ h (by simp)

theorem exists_defaultOrWarning {ε : Type} (host : Host) (tree : FileTree) :
    ∃ path warning after, (defaultOrWarning host : Action ε _) tree = .ok (path, warning) after ∧
      Locates host tree path after := by
  have h := ends_defaultPath host tree
  rw [Action.Ends] at h
  rw [defaultOrWarning]
  cases hd : defaultPath host tree with
  | ok file after =>
      rw [hd] at h
      exact ⟨_, _, after, rfl, h⟩
  | error failure after =>
      rw [hd] at h
      exact ⟨_, _, after, rfl, h⟩

theorem exists_resolve_clear (host : Host) (tree : FileTree) :
    ∃ path warning after, resolve (some "clear") host tree =
        .ok { directive := .clear path, warning } after ∧ Locates host tree path after := by
  obtain ⟨path, warning, after, hd, hl⟩ := exists_defaultOrWarning (ε := Failure) host tree
  exact ⟨path, warning, after, Action.bind_of_ok hd, hl⟩

/-- Any other value is refused, or leads to a cache to use or none. -/
theorem ends_resolve (hv : value ≠ some "clear") (host : Host) (tree : FileTree) :
    (value = some "" ∧ resolve value host tree = .error (.missingValue "cache") tree) ∨
      ∃ location warning after, resolve value host tree =
        .ok { directive := .use location, warning } after ∧ Furnishes tree after := by
  unfold resolve
  split
  · obtain ⟨path, warning, after, hd, hl⟩ := exists_defaultOrWarning (ε := Failure) host tree
    exact .inr ⟨_, warning, after, Action.bind_of_ok hd, hl.furnishes⟩
  · exact .inl ⟨rfl, rfl⟩
  · exact .inr ⟨_, none, tree, rfl, .refl tree⟩
  · exact absurd rfl hv
  · exact .inr ⟨_, none, tree, rfl, .refl tree⟩

end Cache

theorem Options.kind_eq_usage_of_resolveWith {flag : String → Option String} {options : Options}
    {settings : List Setting} {failure : Failure}
    (h : resolveWith flag options settings = .error failure) : failure.kind = .usage := by
  induction settings generalizing options with
  | nil => cases h
  | cons setting rest ih =>
      rw [resolveWith] at h
      split at h
      · exact ih h
      · split at h
        · rename_i value _ hr
          rw [Setting.resolve] at hr
          cases h
          split at hr
          · cases hr
            rfl
          · split at hr <;> cases hr
            rfl
        · exact ih h

namespace Invocation

open CommandLine

/-- Nothing but formatting, or clearing the cache, is asked for. -/
structure Formats (arguments : Arguments) : Prop where
  help : arguments.flag? "help" = none
  version : arguments.flag? "version" = none
  inference : arguments.flag? "inferoptions" = none

theorem Formats.not_asked {arguments : Arguments} (h : Formats arguments) :
    ¬((arguments.flag? "help").isSome ∨ (arguments.flag? "version").isSome ∨
      (arguments.flag? "inferoptions").isSome) := by
  simp [h.help, h.version, h.inference]

/-- The modes of an invocation, each with what it works on. -/
inductive Mode where
  | help
  | version
  | infer (root : String)
  | clearCache (path : Option String)
  | formatInput (options : Options) (output : Option String)
  | formatFiles (options : Options) (inputs : List String) (output cachePath : Option String)

def settleFormatting (setting : Setting) (arguments : Arguments) (options : Options) :
    Step Mode := do
  let inputs := arguments.inputs.map setting.host.expandPath
  match outputPath setting arguments with
  | .error failure => throw failure
  | .ok output =>
    if output.isSome && 1 < inputs.length then throw .outputWithMultipleInputs
    let resolution ← onFiles (Cache.resolve (arguments.flag? "cache") setting.host)
    reportAll setting resolution.warning.toList
    match resolution.directive with
    | .clear path => pure (.clearCache path)
    | .use location =>
      if inputs.isEmpty then pure (.formatInput options output)
      else pure (.formatFiles options inputs output location.path?)

def settle (setting : Setting) (arguments : Arguments) : Step Mode :=
  match arguments.options with
  | .error failure => throw failure
  | .ok options =>
    if (arguments.flag? "help").isSome then pure .help
    else if (arguments.flag? "version").isSome then pure .version
    else
      match arguments.flag? "inferoptions" with
      | some root => if root = "" then throw (.missingValue "inferoptions") else pure (.infer root)
      | none => settleFormatting setting arguments options

def carryOut (services : Services) (setting : Setting) : Mode → Step Outcome
  | .help => do
    print setting helpText
    pure .help
  | .version => do
    print setting (versionLine ++ "\n")
    pure .version
  | .infer root => infer services setting root
  | .clearCache path => clearCache setting path
  | .formatInput options output =>
    flushAfter setting (formatInput services setting options output)
  | .formatFiles options inputs output cachePath =>
    flushAfter setting (formatFiles services setting options inputs output cachePath)

variable {setting : Setting} {arguments : Arguments} {console after : Console} {failure : Failure}
  {options : Options}

theorem formatMode_eq (services : Services) :
    formatMode services setting arguments options =
      settleFormatting setting arguments options >>= carryOut services setting := by
  rw [formatMode, settleFormatting]
  cases outputPath setting arguments with
  | error failure => rfl
  | ok output =>
      dsimp only
      split
      · rfl
      · simp only [bind_assoc]
        refine congrArg _ (funext fun resolution => congrArg _ (funext fun _ => ?_))
        cases resolution.directive with
        | clear path => rfl
        | use location =>
            dsimp only
            split <;> rfl

/-- A run settles its mode first. -/
theorem runWith_eq (services : Services) :
    runWith services setting arguments =
      settle setting arguments >>= carryOut services setting := by
  rw [runWith, settle]
  cases arguments.options with
  | error failure => rfl
  | ok options =>
      dsimp only
      split
      · rfl
      · split
        · rfl
        · cases arguments.flag? "inferoptions" with
          | none => exact formatMode_eq services
          | some root =>
              dsimp only
              split
              · rw [‹root = ""›]
                rfl
              · rfl

/-- What settling a mode can come to: the arguments are refused and nothing has happened, or there
is a mode and at most the default cache has a directory and a warning is printed, or that warning
could not be printed. -/
inductive Settled (setting : Setting) (arguments : Arguments) (console : Console) :
    EStateM.Result Failure Console Mode → Prop
  | refused {failure : Failure} (usage : failure.kind = .usage) :
      Settled setting arguments console (.error failure console)
  | unreported {last : StreamEnd} {files : FileTree} {err : String} (formats : Formats arguments)
      (ends : last ∈ setting.errEnd) (furnished : Furnishes console.files files)
      (located : arguments.flag? "cache" = some "clear" →
        Cache.Locates setting.host console.files none files) :
      Settled setting arguments console
        (.error (.standardStream last.fault) { console with files, err })
  | help (asked : (arguments.flag? "help").isSome) :
      Settled setting arguments console (.ok .help console)
  | version (asked : (arguments.flag? "version").isSome) :
      Settled setting arguments console (.ok .version console)
  | infer {root : String} (asked : arguments.flag? "inferoptions" = some root) (named : root ≠ "") :
      Settled setting arguments console (.ok (.infer root) console)
  | clearCache {path : Option String} {files : FileTree} {err : String}
      (formats : Formats arguments) (clear : arguments.flag? "cache" = some "clear")
      (located : Cache.Locates setting.host console.files path files) :
      Settled setting arguments console (.ok (.clearCache path) { console with files, err })
  | formatInput {options : Options} {output : Option String} {files : FileTree} {err : String}
      (formats : Formats arguments) (use : arguments.flag? "cache" ≠ some "clear")
      (resolved : arguments.options = .ok options) (none : arguments.inputs = [])
      (expanded : outputPath setting arguments = .ok output)
      (furnished : Furnishes console.files files) :
      Settled setting arguments console
        (.ok (.formatInput options output) { console with files, err })
  | formatFiles {options : Options} {output cachePath : Option String} {files : FileTree}
      {err : String} (formats : Formats arguments) (use : arguments.flag? "cache" ≠ some "clear")
      (resolved : arguments.options = .ok options) (some : arguments.inputs ≠ [])
      (expanded : outputPath setting arguments = .ok output)
      (furnished : Furnishes console.files files) :
      Settled setting arguments console
        (.ok (.formatFiles options (arguments.inputs.map setting.host.expandPath) output cachePath)
          { console with files, err })

theorem kind_eq_usage_of_outputPath (h : outputPath setting arguments = .error failure) :
    failure.kind = .usage := by
  rw [outputPath] at h
  split at h <;> cases h
  rfl

/-- A stream takes the whole of a text, or a beginning of it if the stream ends. -/
theorem pour_cases (limit : Option StreamEnd) (held text : String) :
    pour limit held text = (held ++ text, none) ∨
      ∃ last ∈ limit, ∃ taken rest, text = taken ++ rest ∧
        pour limit held text = (held ++ taken, some last.fault) := by
  cases limit with
  | none => exact .inl rfl
  | some last =>
      rw [pour]
      by_cases ht : (text.toList.take (last.room - held.length)).length < text.length
      · rw [if_pos ht]
        refine .inr ⟨last, rfl, _, String.ofList (text.toList.drop (last.room - held.length)), ?_, rfl⟩
        rw [← String.ofList_append, List.take_append_drop, String.ofList_toList]
      · have hl : text.toList.length ≤ last.room - held.length := by
          rw [List.length_take, ← String.length_toList (s := text)] at ht
          omega
        rw [if_neg ht, List.take_of_length_le hl, String.ofList_toList]
        exact .inl rfl

theorem print_cases (setting : Setting) (text : String) (console : Console) :
    print setting text console = .ok () { console with out := console.out ++ text } ∨
      ∃ last ∈ setting.outEnd, ∃ taken rest, text = taken ++ rest ∧
        print setting text console =
          .error (.standardStream last.fault) { console with out := console.out ++ taken } := by
  have he : print setting text console =
      checkStream (pour setting.outEnd console.out text).2
        { console with out := (pour setting.outEnd console.out text).1 } := rfl
  obtain hp | ⟨last, hl, taken, rest, ht, hp⟩ := pour_cases setting.outEnd console.out text <;>
    rw [he, hp]
  · exact .inl rfl
  · exact .inr ⟨last, hl, taken, rest, ht, rfl⟩

theorem reportAll_cases (setting : Setting) (failures : List Failure) (console : Console) :
    ∃ err, reportAll setting failures console = .ok () { console with err } ∨
      ∃ last ∈ setting.errEnd, reportAll setting failures console =
        .error (.standardStream last.fault) { console with err } := by
  induction failures generalizing console with
  | nil => exact ⟨console.err, .inl rfl⟩
  | cons failure rest ih =>
      have he : report setting failure console =
          checkStream (pour setting.errEnd console.err (failure.report setting.styled)).2
            { console with
              err := (pour setting.errEnd console.err (failure.report setting.styled)).1 } := rfl
      obtain hp | ⟨last, hl, taken, -, -, hp⟩ :=
        pour_cases setting.errEnd console.err (failure.report setting.styled) <;> rw [hp] at he
      · obtain ⟨err, hr⟩ := ih { console with err := console.err ++ failure.report setting.styled }
        rw [reportAll, Action.bind_of_ok he]
        exact ⟨err, hr⟩
      · rw [reportAll, Action.bind_of_error he]
        exact ⟨_, .inr ⟨last, hl, rfl⟩⟩

theorem onFiles_of_ok {α : Type} {action : FileTree.Action Failure α} {value : α} {files : FileTree}
    (h : action console.files = .ok value files) :
    onFiles action console = .ok value { console with files } := by
  rw [onFiles, h]

theorem onFiles_of_error {α : Type} {action : FileTree.Action Failure α} {files : FileTree}
    (h : action console.files = .error failure files) :
    onFiles action console = .error failure { console with files } := by
  rw [onFiles, h]

/-- Work that is given up has done nothing, or a part of writing the output file. -/
theorem handleInputUntil_cases (options : Options) (output : Option String) (progress : Progress)
    (text : String) (tree : FileTree) :
    ∃ after, handleInputUntil toolchain options output progress text tree =
        .error .inputTimeout after ∧
      (Furnishes tree after ∨ ∃ formatted path, format Rule.all options text = .ok formatted ∧
        output = some path ∧ Underway path formatted tree after) := by
  unfold handleInputUntil
  split
  · rename_i formatted path hf
    have hu := underway_writeFileUntil path formatted progress tree
    cases hw : writeFileUntil path formatted progress tree with
    | ok _ after => exact ⟨after, rfl, .inr ⟨formatted, path, hf, rfl, Action.leaves_of_ok hw ▸ hu⟩⟩
    | error failure after =>
        exact ⟨after, rfl, .inr ⟨formatted, path, hf, rfl, Action.leaves_of_error hw ▸ hu⟩⟩
  · exact ⟨tree, rfl, .inl (.refl tree)⟩

theorem settled_settleFormatting (hf : Formats arguments) (hr : arguments.options = .ok options)
    (console : Console) :
    Settled setting arguments console (settleFormatting setting arguments options console) := by
  rw [settleFormatting]
  cases ho : outputPath setting arguments with
  | error failure => exact .refused (kind_eq_usage_of_outputPath ho)
  | ok output =>
      dsimp only
      split
      · exact .refused rfl
      · by_cases hc : arguments.flag? "cache" = some "clear"
        · obtain ⟨path, warning, files, hv, hl⟩ :=
            Cache.exists_resolve_clear setting.host console.files
          rw [hc, Action.bind_of_ok (onFiles_of_ok hv)]
          obtain ⟨err, he | ⟨last, hs, he⟩⟩ :=
            reportAll_cases setting warning.toList { console with files }
          · rw [Action.bind_of_ok he]
            exact .clearCache hf hc hl
          · rw [Action.bind_of_error he]
            exact .unreported hf hs hl.furnishes fun _ => hl.unknown
        · obtain ⟨-, hv⟩ | ⟨location, warning, files, hv, hp⟩ :=
            Cache.ends_resolve hc setting.host console.files
          · rw [Action.bind_of_error (onFiles_of_error hv)]
            exact .refused rfl
          · rw [Action.bind_of_ok (onFiles_of_ok hv)]
            obtain ⟨err, he | ⟨last, hs, he⟩⟩ :=
              reportAll_cases setting warning.toList { console with files }
            · rw [Action.bind_of_ok he]
              dsimp only
              by_cases hi : arguments.inputs = []
              · rw [hi]
                exact .formatInput hf hc hr hi ho hp
              · rw [if_neg (by simpa using hi)]
                exact .formatFiles hf hc hr hi ho hp
            · rw [Action.bind_of_error he]
              exact .unreported hf hs hp fun h => absurd h hc

theorem settled_settle (setting : Setting) (arguments : Arguments) (console : Console) :
    Settled setting arguments console (settle setting arguments console) := by
  rw [settle]
  cases hr : arguments.options with
  | error failure => exact .refused (Options.kind_eq_usage_of_resolveWith hr)
  | ok options =>
      dsimp only
      split
      · exact .help ‹_›
      · split
        · exact .version ‹_›
        · cases hi : arguments.flag? "inferoptions" with
          | none =>
              exact settled_settleFormatting ⟨Option.not_isSome_iff_eq_none.1 ‹_›,
                Option.not_isSome_iff_eq_none.1 ‹_›, hi⟩ hr console
          | some root =>
              dsimp only
              split
              · exact .refused rfl
              · exact .infer hi ‹_›

end Invocation
end SourceStyle
