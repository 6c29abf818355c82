import SourceStyle.Batch
import SourceStyle.Proofs.Files.Writing

/-!
A batch takes its files in turn. Whatever is shown of every turn holds of a run.
-/

namespace SourceStyle

namespace FileTree.Action

variable {ε α β : Type} {tree : FileTree} {action : Action ε α} {next : α → Action ε β}
  {P P' : α → FileTree → Prop} {Q Q' : FileTree → Prop}

/-- The action ends with a value and a tree, or in failure with a tree, as described. -/
def Ends (action : Action ε α) (tree : FileTree) (P : α → FileTree → Prop) (Q : FileTree → Prop) :
    Prop :=
  match action tree with
  | .ok value after => P value after
  | .error _ after => Q after

instance [∀ value after, Decidable (P value after)] [∀ after, Decidable (Q after)] :
    Decidable (action.Ends tree P Q) :=
  match h : action tree with
  | .ok value after => decidable_of_iff (P value after) (by rw [Ends, h])
  | .error _ after => decidable_of_iff (Q after) (by rw [Ends, h])

theorem Ends.mono (h : action.Ends tree P Q) (hp : ∀ value after, P value after → P' value after)
    (hq : ∀ after, Q after → Q' after) : action.Ends tree P' Q' := by
  rw [Ends] at h ⊢
  cases ha : action tree with
  | ok value after =>
      rw [ha] at h
      exact hp value after h
  | error failure after =>
      rw [ha] at h
      exact hq after h

theorem Ends.bind {R : β → FileTree → Prop} (h : action.Ends tree P Q)
    (hn : ∀ value middle, P value middle → (next value).Ends middle R Q) :
    (action >>= next).Ends tree R Q := by
  rw [Ends] at h ⊢
  cases ha : action tree with
  | ok value middle =>
      rw [ha] at h
      rw [bind_of_ok ha]
      exact hn value middle h
  | error failure middle =>
      rw [ha] at h
      rw [bind_of_error ha]
      exact h

end FileTree.Action

namespace Batch

open FileTree

/-- What a turn can come to: the file cannot be read, is known as formatted, is refused, is found
formatted, is rewritten, is written elsewhere, or cannot be written. -/
inductive Turn (batch : Batch) (file destination : String) (tree : FileTree) :
    EStateM.Result Failure FileTree Batch → Prop
  | unreadable {fault : SystemFault} (read : tree.readText file = .error fault) :
      Turn batch file destination tree (.ok (batch.fail (.io "input file" file fault)) tree)
  | skipped {source : String} (read : tree.readText file = .ok source)
      (inPlace : Path.same destination file = true) (known : batch.knows file source = true) :
      Turn batch file destination tree (.ok batch.check tree)
  | refused {source : String} {error : SyntaxError} (read : tree.readText file = .ok source)
      (due : (Path.same destination file && batch.knows file source) = false)
      (formats : format Rule.all batch.options source = .error error) :
      Turn batch file destination tree (.ok (batch.fail (.parseFile file error)) tree)
  | settled {source : String} (read : tree.readText file = .ok source)
      (inPlace : Path.same destination file = true) (unknown : batch.knows file source = false)
      (formats : format Rule.all batch.options source = .ok source) :
      Turn batch file destination tree (.ok (batch.check.record file source) tree)
  | rewritten {source formatted : String} {after : FileTree}
      (read : tree.readText file = .ok source)
      (inPlace : Path.same destination file = true) (unknown : batch.knows file source = false)
      (formats : format Rule.all batch.options source = .ok formatted) (changes : formatted ≠ source)
      (writes : writeFile destination formatted tree = .ok () after) :
      Turn batch file destination tree (.ok (batch.check.wrote.record file formatted) after)
  | copied {source formatted : String} {after : FileTree} (read : tree.readText file = .ok source)
      (elsewhere : Path.same destination file = false)
      (formats : format Rule.all batch.options source = .ok formatted)
      (writes : writeFile destination formatted tree = .ok () after) :
      Turn batch file destination tree (.ok batch.check.wrote after)
  | failed {source formatted : String} {failure : Failure} {after : FileTree}
      (read : tree.readText file = .ok source)
      (due : (Path.same destination file && batch.knows file source) = false)
      (formats : format Rule.all batch.options source = .ok formatted)
      (changes : Path.same destination file = true → formatted ≠ source)
      (writes : writeFile destination formatted tree = .error failure after) :
      Turn batch file destination tree (.error failure after)

theorem get_bind {ε α : Type} (next : FileTree → Action ε α) (tree : FileTree) :
    ((get : Action ε FileTree) >>= next) tree = next tree tree :=
  rfl

theorem turn_processFile (batch : Batch) (file destination : String) (tree : FileTree) :
    Turn batch file destination tree (batch.processFile file destination tree) := by
  rw [processFile, get_bind]
  cases hr : tree.readText file with
  | error fault => exact .unreadable hr
  | ok source =>
      dsimp only
      cases hd : Path.same destination file && batch.knows file source with
      | true =>
          obtain ⟨hi, hk⟩ := Bool.and_eq_true_iff.1 hd
          exact .skipped hr hi hk
      | false =>
          rw [if_neg Bool.false_ne_true]
          cases hf : format Rule.all batch.options source with
          | error error => exact .refused hr hd hf
          | ok formatted =>
              dsimp only
              cases hi : Path.same destination file with
              | true =>
                  have hk : batch.knows file source = false := by simpa [hi] using hd
                  rw [if_pos rfl]
                  by_cases hc : formatted = source
                  · rw [if_pos hc]
                    subst hc
                    exact .settled hr hi hk hf
                  · rw [if_neg hc]
                    cases hw : writeFile destination formatted tree with
                    | ok _ after =>
                        rw [Action.bind_of_ok hw]
                        exact .rewritten hr hi hk hf hc hw
                    | error failure after =>
                        rw [Action.bind_of_error hw]
                        exact .failed hr hd hf (fun _ => hc) hw
              | false =>
                  rw [if_neg Bool.false_ne_true]
                  cases hw : writeFile destination formatted tree with
                  | ok _ after =>
                      rw [Action.bind_of_ok hw]
                      exact .copied hr hi hf hw
                  | error failure after =>
                      rw [Action.bind_of_error hw]
                      exact .failed hr hd hf (fun h => absurd h (hi ▸ Bool.false_ne_true)) hw

theorem processFiles_cons (batch : Batch) (input : String) (output : Option String) (file : String)
    (rest : List String) (tree : FileTree) :
    batch.processFiles input output (file :: rest) tree =
      (batch.processFile file (destination tree input file output) >>=
        fun batch => batch.processFiles input output rest) tree :=
  rfl

theorem processInputs_cons_ok (batch : Batch) (output : Option String) {input : String}
    (rest : List String) {tree : FileTree} {files : List String}
    (h : tree.sourceFiles input = .ok files) :
    batch.processInputs output (input :: rest) tree =
      (batch.processFiles input output files >>= fun batch => batch.processInputs output rest) tree := by
  rw [processInputs, get_bind, h]

theorem processInputs_cons_error (batch : Batch) (output : Option String) {input : String}
    (rest : List String) {tree : FileTree} {failure : Failure}
    (h : tree.sourceFiles input = .error failure) :
    batch.processInputs output (input :: rest) tree =
      (batch.fail failure).processInputs output rest tree := by
  rw [processInputs, get_bind, h]

theorem processFiles_append (batch : Batch) (input : String) (output : Option String)
    (files more : List String) :
    batch.processFiles input output (files ++ more) =
      batch.processFiles input output files >>=
        fun batch => batch.processFiles input output more := by
  induction files generalizing batch with
  | nil => rw [List.nil_append, processFiles, pure_bind]
  | cons file rest ih => simp only [List.cons_append, processFiles, ih, bind_assoc]

theorem saveCache_none {ε : Type} (batch : Batch) (tree : FileTree) :
    (batch.saveCache none : Action ε Unit) tree = .ok () tree := by
  cases hc : batch.cache <;> simp [saveCache, hc]

def initial (options : Options) (cache : Option Cache) : Batch where
  options
  optionsKey := optionsKeyOf options
  cache

theorem run_eq (inputs : List String) (output : Option String) (options : Options)
    (cachePath : Option String) (tree : FileTree) :
    run inputs output options cachePath tree =
      ((initial options (cachePath.map (Cache.load tree))).processInputs output inputs >>=
        fun batch => batch.saveCache cachePath >>= fun _ => pure batch.summary) tree :=
  rfl

theorem run_singleton_eq_ok {input : String} {output : Option String} {options : Options}
    {tree after : FileTree} {files : List String} {summary : Summary}
    (hl : tree.sourceFiles input = .ok files) :
    run [input] output options none tree = .ok summary after ↔
      ∃ turned, (initial options none).processFiles input output files tree = .ok turned after ∧
        turned.summary = summary := by
  rw [run_eq, Option.map_none, Action.bind_eq_ok, processInputs_cons_ok _ _ _ hl]
  constructor
  · intro ⟨turned, left, hi, hr⟩
    rw [Action.bind_of_ok (saveCache_none turned left)] at hr
    cases hr
    obtain ⟨last, left, hp, hr⟩ := Action.bind_eq_ok.1 hi
    cases hr
    exact ⟨turned, hp, rfl⟩
  · intro ⟨turned, hp, hs⟩
    refine ⟨turned, after, Action.bind_eq_ok.2 ⟨turned, after, hp, rfl⟩, ?_⟩
    rw [Action.bind_of_ok (saveCache_none turned after), hs]
    rfl

end Batch
end SourceStyle
