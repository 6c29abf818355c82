import SourceStyle.Batch
import SourceStyle.Cache.Location
import SourceStyle.CommandLine.Help
import SourceStyle.CommandLine.Reading
import SourceStyle.FileTree.Temporary
import SourceStyle.Inference
import SourceStyle.StandardInput

/-!
One invocation of the program. The options are resolved first, so a wrong flag stops the run before
anything else happens. Then one mode runs: help, version, inference, clearing the cache, formatting
standard input, or formatting files.
-/

namespace SourceStyle

/-- The files that an invocation works on and what it has printed. -/
structure Console where
  files : FileTree
  out : String := ""
  err : String := ""

inductive Outcome where
  | help
  | version
  | inferred (files : Nat) (options : Options)
  | cacheCleared (removed : Bool)
  | inputFormatted
  | formatted (written checked : Nat)
deriving DecidableEq, Repr

namespace Invocation

open CommandLine

/-- The end of a stream: how many characters it takes in all, and why it takes no more. -/
structure StreamEnd where
  room : Nat
  fault : SystemFault
deriving DecidableEq, Repr

/-- What a stream holds once a text is written to it, and why it did not take all of the text if it
did not. -/
def pour (limit : Option StreamEnd) (held text : String) : String × Option SystemFault :=
  match limit with
  | none => (held ++ text, none)
  | some limit =>
    let taken := text.toList.take (limit.room - held.length)
    (held ++ String.ofList taken, if taken.length < text.length then some limit.fault else none)

/-- What an invocation is given beside its arguments: the host, standard input, whether errors are
styled, and the hundredths of a second that work is reported to take. The streams that it writes to
may end, and the output may refuse to be flushed. If formatting standard input takes longer than it
is waited for, `lag` is how far writing the output file has come by then. -/
structure Setting where
  host : Host
  input : List StandardInput.ReadEvent := []
  styled : Bool := false
  elapsed : Nat := 0
  outEnd : Option StreamEnd := none
  errEnd : Option StreamEnd := none
  flushFault : Option SystemFault := none
  lag : Option FileTree.Progress := none

/-- The services that an invocation delegates to: formatting one text, formatting files and
directory trees, and inferring options from sources. -/
structure Services where
  format : Options → String → Except SyntaxError String
  formatFiles : List String → Option String → Options → Option String →
    FileTree.Action Failure Summary
  inferOptions : FileTree → String → Except Failure (Nat × Options)

def toolchain : Services where
  format := SourceStyle.format Rule.all
  formatFiles := Batch.run
  inferOptions := Inference.inferOptions

abbrev Step (α : Type) := EStateM Failure Console α

def onFiles {α : Type} (action : FileTree.Action Failure α) : Step α :=
  fun console =>
    match action console.files with
    | .ok value files => .ok value { console with files }
    | .error failure files => .error failure { console with files }

/-- Fails for a stream that did not take what was written to it. -/
def checkStream : Option SystemFault → Step Unit
  | none => pure ()
  | some fault => throw (.standardStream fault)

def print (setting : Setting) (text : String) : Step Unit := do
  let console ← get
  let (out, fault?) := pour setting.outEnd console.out text
  set { console with out }
  checkStream fault?

def report (setting : Setting) (failure : Failure) : Step Unit := do
  let console ← get
  let (err, fault?) := pour setting.errEnd console.err (failure.report setting.styled)
  set { console with err }
  checkStream fault?

def decimal (hundredths : Nat) : String :=
  let whole := toString (hundredths / 100)
  let rest := hundredths % 100
  if rest = 0 then whole
  else if rest % 10 = 0 then whole ++ "." ++ toString (rest / 10)
  else if rest < 10 then whole ++ ".0" ++ toString rest
  else whole ++ "." ++ toString rest

def filesWord (count : Nat) : String :=
  if count = 1 then "file" else "files"

def flagLine (options : Options) : String :=
  String.intercalate " " (options.flags.map fun (key, value) => "--" ++ key ++ " " ++ value)

def clearCache (setting : Setting) (path : Option String) : Step Outcome := do
  let removed ← match path with
    | some path => onFiles (Cache.clear path)
    | none => pure false
  print setting (if removed then "swiftfmt cache cleared\n" else "no swiftfmt cache to clear\n")
  pure (.cacheCleared removed)

def reportAll (setting : Setting) : List Failure → Step Unit
  | [] => pure ()
  | failure :: rest => do
    report setting failure
    reportAll setting rest

def outputPath (setting : Setting) (arguments : Arguments) : Except Failure (Option String) :=
  match arguments.flag? "output" with
  | none => .ok none
  | some "" => .error (.missingValue "output")
  | some path => .ok (some (setting.host.expandPath path))

section
variable (services : Services)

def infer (setting : Setting) (root : String) : Step Outcome := do
  if root = "" then throw (.missingValue "inferoptions")
  print setting "inferring swiftfmt options from source file(s)...\n"
  let console ← get
  match services.inferOptions console.files (setting.host.expandPath root) with
  | .error failure => throw failure
  | .ok (count, options) =>
    print setting ("options inferred from " ++ toString count ++ " " ++ filesWord count ++ " in " ++
      decimal setting.elapsed ++ "s\n\n" ++ flagLine options ++ "\n\n")
    pure (.inferred count options)

/-- The formatted text of standard input, or nothing if it was written to an output file. -/
def handleInput (options : Options) (output : Option String) (text : String) :
    FileTree.Action Failure (Option String) :=
  match services.format options text with
  | .error error => throw (.parseInput error)
  | .ok formatted =>
    match output with
    | none => pure (some formatted)
    | some path => do
      FileTree.writeFile path formatted
      pure none

/-- The work on standard input that is given up, with the output file written so far. -/
def handleInputUntil (options : Options) (output : Option String) (progress : FileTree.Progress)
    (text : String) : FileTree.Action Failure (Option String) :=
  fun tree =>
    match services.format options text, output with
    | .ok formatted, some path =>
      match FileTree.writeFileUntil path formatted progress tree with
      | .ok () tree | .error _ tree => .error .inputTimeout tree
    | _, _ => .error .inputTimeout tree

/-- The work on standard input, as far as it is waited for. -/
def workOnInput (setting : Setting) (options : Options) (output : Option String) :
    String → FileTree.Action Failure (Option String) :=
  match setting.lag with
  | none => handleInput services options output
  | some progress => handleInputUntil services options output progress

/-- Formats standard input, or shows the help page if there is none. -/
def formatInput (setting : Setting) (options : Options) (output : Option String) :
    Step Outcome := do
  match ← onFiles (StandardInput.session (workOnInput services setting options output)
      setting.input) with
  | none =>
    print setting helpText
    pure .help
  | some (some formatted) =>
    print setting (formatted ++ "\n")
    pure .inputFormatted
  | some none =>
    print setting "swiftfmt completed successfully\n"
    pure .inputFormatted

def formatFiles (setting : Setting) (options : Options) (inputs : List String)
    (output cachePath : Option String) : Step Outcome := do
  print setting "running swiftfmt...\n"
  let summary ← onFiles (services.formatFiles inputs output options cachePath)
  reportAll setting summary.failures
  print setting ("swiftfmt completed. " ++ toString summary.written ++ "/" ++ toString summary.checked ++
    " " ++ filesWord summary.checked ++ " updated in " ++ decimal setting.elapsed ++ "s\n")
  pure (.formatted summary.written summary.checked)

def flushAfter (setting : Setting) (step : Step Outcome) : Step Outcome := do
  let outcome ← step
  checkStream setting.flushFault
  pure outcome

def formatMode (setting : Setting) (arguments : Arguments) (options : Options) : Step Outcome := do
  let inputs := arguments.inputs.map setting.host.expandPath
  match outputPath setting arguments with
  | .error failure => throw failure
  | .ok output =>
    if output.isSome && 1 < inputs.length then throw .outputWithMultipleInputs
    let resolution ← onFiles (Cache.resolve (arguments.flag? "cache") setting.host)
    reportAll setting resolution.warning.toList
    match resolution.directive with
    | .clear path => clearCache setting path
    | .use location =>
      flushAfter setting <|
        if inputs.isEmpty then formatInput services setting options output
        else formatFiles services setting options inputs output location.path?

/-- Runs an invocation with the given arguments, on the given services. -/
def runWith (setting : Setting) (arguments : Arguments) : Step Outcome :=
  match arguments.options with
  | .error failure => throw failure
  | .ok options =>
    if (arguments.flag? "help").isSome then do
      print setting helpText
      pure .help
    else if (arguments.flag? "version").isSome then do
      print setting (versionLine ++ "\n")
      pure .version
    else
      match arguments.flag? "inferoptions" with
      | some root => infer services setting root
      | none => formatMode services setting arguments options

end

def run (setting : Setting) (arguments : Arguments) : Step Outcome :=
  runWith toolchain setting arguments

/-- The paths that an invocation with the given arguments may look at or change, with what is below
the first of them. -/
def pathsInUse (host : Host) (arguments : Arguments) : List String × List String :=
  let named (key : String) : List String :=
    ((arguments.flag? key).toList.filter (· != "")).map host.expandPath
  let searched := arguments.inputs.map host.expandPath ++ named "inferoptions"
  let default := host.cacheDirectory.toList.map fun base =>
    Path.join (Path.join base Cache.directoryName) Cache.fileName
  let cache := (named "cache").flatMap fun path => [path, Path.join path Cache.fileName]
  (searched, named "output" ++ cache ++ default)

/-- Whether an invocation with the given arguments may read standard input. -/
def mayReadInput (arguments : Arguments) : Bool :=
  arguments.inputs.isEmpty &&
    ["help", "version", "inferoptions"].all fun key => (arguments.flag? key).isNone

/-- The console with the failure that stops an invocation reported, as far as that succeeds. -/
def withFinalReport (setting : Setting) (failure : Failure) (console : Console) : Console :=
  { console with err := (pour setting.errEnd console.err (failure.report setting.styled)).1 }

/-- Runs an invocation with the given command line, and reports the failure that stops it. -/
def runCommandLine (setting : Setting) (commandLine : List String) : Step Outcome :=
  fun console =>
    match read commandLine with
    | .error failure => .error failure (withFinalReport setting failure console)
    | .ok arguments =>
      match run setting arguments console with
      | .ok outcome console => .ok outcome console
      | .error failure console => .error failure (withFinalReport setting failure console)

end Invocation
end SourceStyle
