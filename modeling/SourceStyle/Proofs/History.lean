import SourceStyle.Proofs.Files.Saving

/-!
Runs that share a cache, and edits between them, told file by file.
-/

namespace SourceStyle

open FileTree (Action text?_eq_some)

/-- A file when its turn comes in a batch. -/
structure Visit where
  batch : Batch
  file : String
  destination : String
  tree : FileTree

namespace Visit

variable (visit : Visit)

def outcome : EStateM.Result Failure FileTree Batch :=
  visit.batch.processFile visit.file visit.destination visit.tree

def after : FileTree :=
  (visit.batch.processFile visit.file visit.destination).leaves visit.tree

def inPlace : Bool :=
  Path.same visit.destination visit.file

def source? : Option String :=
  visit.tree.text? visit.file

def key : String :=
  Cache.entryKey visit.file

/-- Whether the file is skipped because the cache knows its contents. -/
def skipped : Bool :=
  visit.inPlace && visit.source?.any (visit.batch.knows visit.file)

/-- The result that is recorded in the cache. -/
def recorded? : Option String :=
  match visit.outcome with
  | .ok _ _ =>
    if visit.inPlace && !visit.skipped then
      visit.source?.bind fun source => (format Rule.all visit.batch.options source).toOption
    else none
  | .error _ _ => none

/-- The contents that are compared with a digest in the cache. -/
def compared? : Option String :=
  if visit.inPlace && visit.batch.cache.any fun cache => (cache.get? visit.key).isSome then
    visit.source?
  else none

/-- The texts that are hashed: the options of the run, and contents after their digest. -/
def hashed : List String :=
  visit.batch.options.serial ::
    (visit.compared?.toList ++ visit.recorded?.toList).map fun contents =>
      visit.batch.optionsKey ++ contents

/-- A skipped file is counted, and nothing else happens. -/
theorem outcome_of_skipped {visit : Visit} (h : visit.skipped = true) :
    visit.outcome = .ok visit.batch.check visit.tree := by
  obtain ⟨hi, hk⟩ := Bool.and_eq_true_iff.1 h
  obtain ⟨source, hs, hk⟩ := (Option.any_eq_true ..).1 hk
  have hb : (Path.same visit.destination visit.file && visit.batch.knows visit.file source) = true :=
    Bool.and_eq_true_iff.2 ⟨hi, hk⟩
  rw [outcome, Batch.processFile, Batch.get_bind, text?_eq_some.1 hs]
  dsimp only
  rw [if_pos hb]
  rfl

end Visit

namespace Batch

/-- The turn of a file found under an input. -/
def visit (batch : Batch) (input : String) (output : Option String) (file : String)
    (tree : FileTree) : Visit where
  batch
  file
  destination := destination tree input file output
  tree

/-- The files found under an input as their turns come, until one cannot be written. -/
def visitFiles (batch : Batch) (input : String) (output : Option String) :
    List String → FileTree → List Visit
  | [], _ => []
  | file :: rest, tree =>
    batch.visit input output file tree ::
      match (batch.visit input output file tree).outcome with
      | .ok batch tree => batch.visitFiles input output rest tree
      | .error _ _ => []

/-- The files under every input as their turns come, until one cannot be written. -/
def visitInputs (batch : Batch) (output : Option String) : List String → FileTree → List Visit
  | [], _ => []
  | input :: rest, tree =>
    match tree.sourceFiles input with
    | .error failure => (batch.fail failure).visitInputs output rest tree
    | .ok files =>
      batch.visitFiles input output files tree ++
        match batch.processFiles input output files tree with
        | .ok batch tree => batch.visitInputs output rest tree
        | .error _ _ => []

end Batch

/-- What happens to a tree. -/
inductive Event where
  | edit (after : FileTree)
  | run (inputs : List String) (output : Option String) (options : Options)

/-- A tree and what happens to it next. -/
structure Moment where
  tree : FileTree
  event : Event

namespace Moment

variable (cachePath : String) (moment : Moment)

def batch (options : Options) : Batch :=
  .initial options (some (Cache.load moment.tree cachePath))

def after : FileTree :=
  match moment.event with
  | .edit after => after
  | .run inputs output options =>
    (Batch.run inputs output options (some cachePath)).leaves moment.tree

def visits : List Visit :=
  match moment.event with
  | .edit _ => []
  | .run inputs output options =>
    (moment.batch cachePath options).visitInputs output inputs moment.tree

/-- The cache that a run saves, unless it breaks off. -/
def saved? : Option Cache :=
  match moment.event with
  | .edit _ => none
  | .run inputs output options =>
    match (moment.batch cachePath options).processInputs output inputs moment.tree with
    | .ok batch _ => batch.cache
    | .error _ _ => none

/-- The path of the cache is left alone, but for the saving of the cache. -/
def Discreet : Prop :=
  match moment.event with
  | .edit after => after.Sound ∧ after.text? cachePath = moment.tree.text? cachePath
  | .run _ _ _ =>
    ∀ visit ∈ moment.visits cachePath, visit.after.text? cachePath = visit.tree.text? cachePath

instance : Decidable (moment.Discreet cachePath) :=
  match moment with
  | ⟨_, .edit _⟩ => inferInstanceAs (Decidable (_ ∧ _))
  | ⟨tree, .run inputs output options⟩ =>
    inferInstanceAs (Decidable (∀ visit ∈ visits cachePath ⟨tree, .run inputs output options⟩, _ = _))

end Moment

def moments (cachePath : String) : FileTree → List Event → List Moment
  | _, [] => []
  | tree, event :: rest =>
    let moment : Moment := { tree, event }
    moment :: moments cachePath (moment.after cachePath) rest

/-- The turns of all files in all runs. -/
def visits (cachePath : String) (tree : FileTree) (events : List Event) : List Visit :=
  (moments cachePath tree events).flatMap (·.visits cachePath)

end SourceStyle
