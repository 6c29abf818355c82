import SourceStyle.Cache
import SourceStyle.Formatter
import SourceStyle.Listing

/-!
Formatting files and directory trees, in place or into an output path.
-/

namespace SourceStyle

/-- What a batch did: files written, files found formatted or formatted, and the failures that did
not stop it. -/
structure Summary where
  written : Nat := 0
  checked : Nat := 0
  failures : List Failure := []
deriving DecidableEq, Repr

/-- A batch in progress: its options, the text that determines them in the cache, the cache if
there is one, and what was done so far. -/
structure Batch where
  options : Options
  optionsKey : String
  cache : Option Cache := none
  summary : Summary := {}

namespace Batch

def optionsKeyOf (options : Options) : String :=
  Digest.hex [options.serial]

/-- Where a file found under an input is written. Without an output it is the file itself; with
one, a file given as input goes there or into it, and a directory is mirrored below it. -/
def destination (tree : FileTree) (input file : String) : Option String → String
  | none => file
  | some output =>
    if Path.same input file then
      match Path.fileName? file with
      | some name => if tree.isDirectory output then Path.join output name else output
      | none => output
    else Path.join output ((Path.relativeTo? file input).getD file)

def fail (batch : Batch) (failure : Failure) : Batch :=
  { batch with summary.failures := batch.summary.failures ++ [failure] }

/-- The batch with one more file found formatted or formatted. -/
def check (batch : Batch) : Batch :=
  { batch with summary.checked := batch.summary.checked + 1 }

def wrote (batch : Batch) : Batch :=
  { batch with summary.written := batch.summary.written + 1 }

def record (batch : Batch) (file contents : String) : Batch :=
  { batch with cache := batch.cache.map (·.record file contents batch.optionsKey) }

def knows (batch : Batch) (file contents : String) : Bool :=
  batch.cache.any (·.isCurrent file contents batch.optionsKey)

/-- Formats one file to its destination. Only files formatted in place take part in the cache, and
they are written only if they change. -/
def processFile (batch : Batch) (file destination : String) : FileTree.Action Failure Batch := do
  let tree ← get
  match tree.readText file with
  | .error fault => pure (batch.fail (.io "input file" file fault))
  | .ok source =>
    let inPlace := Path.same destination file
    if inPlace && batch.knows file source then pure batch.check
    else
      match format Rule.all batch.options source with
      | .error error => pure (batch.fail (.parseFile file error))
      | .ok formatted =>
        let batch := batch.check
        if inPlace then
          if formatted = source then pure (batch.record file formatted)
          else do
            FileTree.writeFile destination formatted
            pure (batch.wrote.record file formatted)
        else do
          FileTree.writeFile destination formatted
          pure batch.wrote

def processFiles (batch : Batch) (input : String) (output : Option String) :
    List String → FileTree.Action Failure Batch
  | [] => pure batch
  | file :: rest => do
    let tree ← get
    let batch ← batch.processFile file (destination tree input file output)
    batch.processFiles input output rest

def processInputs (batch : Batch) (output : Option String) :
    List String → FileTree.Action Failure Batch
  | [] => pure batch
  | input :: rest => do
    let tree ← get
    match tree.sourceFiles input with
    | .error failure => (batch.fail failure).processInputs output rest
    | .ok files =>
      let batch ← batch.processFiles input output files
      batch.processInputs output rest

def saveCache {ε : Type} (batch : Batch) (path : Option String) : FileTree.Action ε Unit :=
  fun tree =>
    match batch.cache, path with
    | some cache, some path =>
      match cache.save path tree with
      | .ok () tree | .error _ tree => .ok () tree
    | _, _ => .ok () tree

/-- Formats every input file, and every source file under every input directory. With a cache, files
formatted in place whose contents are their last result are skipped. -/
def run (inputs : List String) (output : Option String) (options : Options)
    (cachePath : Option String) : FileTree.Action Failure Summary := do
  let tree ← get
  let batch : Batch :=
    { options, optionsKey := optionsKeyOf options, cache := cachePath.map (Cache.load tree) }
  let batch ← batch.processInputs output inputs
  batch.saveCache cachePath
  pure batch.summary

end Batch
end SourceStyle
