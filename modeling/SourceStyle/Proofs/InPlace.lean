import SourceStyle.Proofs.Files.Listing
import SourceStyle.Proofs.Turns

/-!
Runs that format files where they stand. What is left of the tree, and what is reported, is what
formatting each listed file by itself comes to.
-/

namespace SourceStyle

namespace FileTree

def listed (tree : FileTree) (inputs : List String) : List String :=
  inputs.flatMap fun input =>
    match tree.sourceFiles input with
    | .ok files => files
    | .error _ => []

def unlisted (tree : FileTree) (inputs : List String) : List String :=
  inputs.filter fun input => !(tree.sourceFiles input).isOk

/-- What a file is formatted to, if it can be read and is accepted. -/
def formatted? (tree : FileTree) (options : Options) (file : String) : Option String :=
  match tree.readText file with
  | .ok source => (format Rule.all options source).toOption
  | .error _ => none

def changes (tree : FileTree) (options : Options) (file : String) : Bool :=
  (tree.formatted? options file).any fun out => tree.readText file ≠ .ok out

/-- Two paths do not lead to one place. -/
def Apart (tree : FileTree) (file other : String) : Prop :=
  ∀ place, tree.resolve file = .ok place → tree.resolve other ≠ .ok place

instance (tree : FileTree) (file other : String) : Decidable (tree.Apart file other) :=
  match h : tree.resolve file with
  | .ok place =>
    decidable_of_iff (tree.resolve other ≠ .ok place)
      ⟨fun hn other ho => by cases h.symm.trans ho; exact hn, fun ha => ha place h⟩
  | .error _ => isTrue fun place hp => by cases h.symm.trans hp

variable {tree : FileTree} {options : Options} {file source out : String}

theorem formatted?_of_error {fault : SystemFault} (h : tree.readText file = .error fault) :
    tree.formatted? options file = none := by
  rw [formatted?, h]

theorem formatted?_of_refused {error : SyntaxError} (h : tree.readText file = .ok source)
    (hf : format Rule.all options source = .error error) : tree.formatted? options file = none := by
  simp only [formatted?, h, hf, Except.toOption]

theorem formatted?_of_accepted (h : tree.readText file = .ok source)
    (hf : format Rule.all options source = .ok out) : tree.formatted? options file = some out := by
  simp only [formatted?, h, hf, Except.toOption]

variable {input : String}

theorem listed_cons_ok {files : List String} (h : tree.sourceFiles input = .ok files)
    (rest : List String) : tree.listed (input :: rest) = files ++ tree.listed rest := by
  simp only [listed, List.flatMap_cons, h]

theorem listed_cons_error {failure : Failure} (h : tree.sourceFiles input = .error failure)
    (rest : List String) : tree.listed (input :: rest) = tree.listed rest := by
  simp only [listed, List.flatMap_cons, h, List.nil_append]

theorem unlisted_cons_ok {files : List String} (h : tree.sourceFiles input = .ok files)
    (rest : List String) : tree.unlisted (input :: rest) = tree.unlisted rest := by
  simp [unlisted, h, Except.isOk, Except.toBool]

theorem unlisted_cons_error {failure : Failure} (h : tree.sourceFiles input = .error failure)
    (rest : List String) : tree.unlisted (input :: rest) = input :: tree.unlisted rest := by
  simp [unlisted, h, Except.isOk, Except.toBool]

end FileTree

namespace Batch

open FileTree

/-- A finished run in place: every listed file that is accepted holds its formatted text, everything
else is as it was, and the report counts what happened. -/
structure Finished (options : Options) (inputs : List String) (tree : FileTree) (summary : Summary)
    (after : FileTree) : Prop where
  formatted : ∀ file ∈ tree.listed inputs, ∀ out, tree.formatted? options file = some out →
    after.readText file = .ok out
  untouched : ∀ place, (∀ file ∈ tree.listed inputs, tree.formatted? options file ≠ none →
    tree.resolve file ≠ .ok place) → after.entry? place = tree.entry? place
  written : summary.written =
    (tree.listed inputs).countP fun file => after.readText file ≠ tree.readText file
  checked : summary.checked =
    (tree.listed inputs).countP fun file => (tree.formatted? options file).isSome
  accounted : summary.checked + summary.failures.length =
    (tree.listed inputs).length + (tree.unlisted inputs).length

/-- A run in place that broke off: every listed file holds what it held or its formatted text, and
everything else is as it was. -/
structure Interrupted (options : Options) (inputs : List String) (tree after : FileTree) : Prop where
  held : ∀ file ∈ tree.listed inputs, after.readBytes file = tree.readBytes file ∨
    ∃ out, tree.formatted? options file = some out ∧ after.readText file = .ok out
  untouched : ∀ place, (∀ file ∈ tree.listed inputs, tree.resolve file ≠ .ok place) →
    after.entry? place = tree.entry? place

/-- How far a run in place has come, with the files that it is done with. -/
structure Progress (options : Options) (tree : FileTree) (done : List String) (missing : Nat)
    (batch : Batch) (now : FileTree) : Prop where
  options_eq : batch.options = options
  cache_eq : batch.cache = none
  sound : now.Sound
  outline : now.outline = tree.outline
  formatted : ∀ file ∈ done, ∀ out, tree.formatted? options file = some out →
    now.readText file = .ok out
  untouched : ∀ place, (∀ file ∈ done, tree.formatted? options file ≠ none →
    tree.resolve file ≠ .ok place) → now.entry? place = tree.entry? place
  written : batch.summary.written = done.countP (tree.changes options)
  checked : batch.summary.checked = done.countP fun file => (tree.formatted? options file).isSome
  accounted : batch.summary.checked + batch.summary.failures.length = done.length + missing

variable {options : Options} {tree now after : FileTree} {done : List String} {missing : Nat}
  {batch turned : Batch} {file : String}

theorem Progress.resolve (h : Progress options tree done missing batch now) (path : String) :
    now.resolve path = tree.resolve path :=
  resolve_of_outline h.outline path

/-- A file that stands apart from those done still reads as it did. -/
theorem Progress.readText (h : Progress options tree done missing batch now)
    (ha : ∀ other ∈ done, tree.Apart other file) : now.readText file = tree.readText file :=
  readText_congr <| readBytes_congr (h.resolve file) fun place hr =>
    h.untouched place fun other hm _ ho => ha other hm place ho hr

/-- The step of the invariant: what a turn does to its file, to everything else and to the report. -/
theorem Progress.turn (h : Progress options tree done missing batch now)
    (ha : ∀ other ∈ done, tree.Apart other file)
    (hoptions : turned.options = batch.options) (hcache : turned.cache = batch.cache)
    (hsound : after.Sound) (houtline : after.outline = now.outline)
    (hread : ∀ out, tree.formatted? options file = some out → after.readText file = .ok out)
    (hrest : ∀ place, (tree.formatted? options file ≠ none → tree.resolve file ≠ .ok place) →
      after.entry? place = now.entry? place)
    (hwritten : turned.summary.written =
      batch.summary.written + if tree.changes options file then 1 else 0)
    (hchecked : turned.summary.checked =
      batch.summary.checked + if (tree.formatted? options file).isSome then 1 else 0)
    (haccounted : turned.summary.checked + turned.summary.failures.length =
      batch.summary.checked + batch.summary.failures.length + 1) :
    Progress options tree (done ++ [file]) missing turned after where
  options_eq := hoptions.trans h.options_eq
  cache_eq := hcache.trans h.cache_eq
  sound := hsound
  outline := houtline.trans h.outline
  formatted other hm out ho := by
    rcases List.mem_append.1 hm with hm | hm
    · rw [← h.formatted other hm out ho]
      refine readText_congr (readBytes_congr (resolve_of_outline houtline other) fun place hr => ?_)
      refine hrest place fun _ => ?_
      rw [h.resolve] at hr
      exact ha other hm place hr
    · rw [List.mem_singleton.1 hm] at ho ⊢
      exact hread out ho
  untouched place hp := by
    rw [hrest place (hp file (by simp))]
    exact h.untouched place fun other hm => hp other (List.mem_append_left _ hm)
  written := by
    rw [hwritten, h.written, List.countP_append, List.countP_singleton]
  checked := by
    rw [hchecked, h.checked, List.countP_append, List.countP_singleton]
  accounted := by
    rw [haccounted, h.accounted, List.length_append, List.length_singleton]
    omega

theorem Progress.processFile (h : Progress options tree done missing batch now)
    (ha : ∀ other ∈ done, tree.Apart other file) :
    (batch.processFile file file).Ends now (Progress options tree (done ++ [file]) missing)
      fun after => after = now := by
  have ht := turn_processFile batch file file now
  have hi : Path.same file file = true := beq_self_eq_true _
  have hk : ∀ source, batch.knows file source = false := fun source => by
    rw [knows, h.cache_eq]
    rfl
  rw [Action.Ends]
  generalize batch.processFile file file now = result at ht
  -- the file is read as it was at the beginning, since no earlier turn wrote to its place
  cases ht with
  | unreadable read =>
      rw [h.readText ha] at read
      have hn : tree.formatted? options file = none := formatted?_of_error read
      refine h.turn ha rfl rfl h.sound rfl ?_ (fun _ _ => rfl) ?_ ?_ ?_
      · simp [hn]
      · simp [hn, changes, fail]
      · simp [hn, fail]
      · simp [fail, Nat.add_assoc]
  | skipped read inPlace known => cases known.symm.trans (hk _)
  | refused read due formats =>
      rw [h.readText ha] at read
      rw [h.options_eq] at formats
      have hn := formatted?_of_refused read formats
      refine h.turn ha rfl rfl h.sound rfl ?_ (fun _ _ => rfl) ?_ ?_ ?_
      · simp [hn]
      · simp [hn, changes, fail]
      · simp [hn, fail]
      · simp [fail, Nat.add_assoc]
  | settled read inPlace unknown formats =>
      have hr := read
      rw [h.readText ha] at hr
      rw [h.options_eq] at formats
      have hn := formatted?_of_accepted hr formats
      refine h.turn ha rfl ?_ h.sound rfl ?_ (fun _ _ => rfl) ?_ ?_ ?_
      · simp [record, check, h.cache_eq]
      · simp [hn, read]
      · simp [hn, changes, record, check, hr]
      · simp [hn, record, check]
      · simp [record, check, Nat.add_right_comm]
  | rewritten read inPlace unknown formats hc writes =>
      obtain ⟨place, bytes, hp, hf, -⟩ := readText_eq_ok.1 read
      obtain ⟨_, hw⟩ := writeFile_eq_ok writes
      rcases writeFile_of_file hp hf _ with hs | ⟨failure, hs⟩
      · cases writes.symm.trans hs
        rw [h.readText ha] at read
        rw [h.options_eq] at formats
        have hn := formatted?_of_accepted read formats
        have hl : place ≠ [] := by
          rintro rfl
          cases hf
        refine h.turn ha rfl ?_ (hw.sound h.sound) (outline_set h.sound hf _) (fun out ho => ?_)
          (fun other ho => ?_) ?_ ?_ ?_
        · simp [record, check, wrote, h.cache_eq]
        · cases hn.symm.trans ho
          exact hw.readText
        · refine entry?_set_of_ne hl ?_
          rintro rfl
          rw [h.resolve] at hp
          exact ho (by simp [hn]) hp
        · simp [hn, changes, record, check, wrote, read, Ne.symm hc]
        · simp [hn, record, check, wrote]
        · simp [record, check, wrote, Nat.add_right_comm]
      · cases writes.symm.trans hs
  | copied read elsewhere formats writes => cases hi.symm.trans elsewhere
  | failed read due formats hc writes =>
      obtain ⟨place, bytes, hp, hf, -⟩ := readText_eq_ok.1 read
      rcases writeFile_of_file hp hf _ with hs | ⟨failure, hs⟩
      · cases writes.symm.trans hs
      · cases writes.symm.trans hs
        rfl

/-- A run in place that broke off has formatted some of the files and left the others. -/
def Partial (options : Options) (tree : FileTree) (files : List String) (after : FileTree) : Prop :=
  ∃ done missing batch, done <+: files ∧ Progress options tree done missing batch after

theorem Partial.mono {files more : List String} (h : Partial options tree files after)
    (hp : files <+: more) : Partial options tree more after := by
  obtain ⟨done, missing, batch, hd, h⟩ := h
  exact ⟨done, missing, batch, hd.trans hp, h⟩

theorem Progress.processFiles {input : String} {files : List String}
    (h : Progress options tree done missing batch now)
    (ha : (done ++ files).Pairwise tree.Apart) :
    (batch.processFiles input none files).Ends now (Progress options tree (done ++ files) missing)
      (Partial options tree (done ++ files)) := by
  induction files generalizing batch now done with
  | nil =>
      rw [List.append_nil]
      exact h
  | cons file rest ih =>
      have hf : ∀ other ∈ done, tree.Apart other file := fun other hm =>
        (List.pairwise_append.1 ha).2.2 other hm file (List.mem_cons_self ..)
      rw [List.append_cons] at ha ⊢
      rw [Action.Ends, processFiles_cons]
      refine ((h.processFile hf).mono (fun _ _ h => h) ?_).bind fun turned middle ht => ih ht ha
      rintro _ rfl
      exact ⟨done, missing, batch, (List.prefix_append ..).trans (List.prefix_append ..), h⟩

theorem Progress.fail (h : Progress options tree done missing batch now) (failure : Failure) :
    Progress options tree done (missing + 1) (batch.fail failure) now where
  options_eq := h.options_eq
  cache_eq := h.cache_eq
  sound := h.sound
  outline := h.outline
  formatted := h.formatted
  untouched := h.untouched
  written := h.written
  checked := h.checked
  accounted := by
    have ha := h.accounted
    simp only [Batch.fail, List.length_append, List.length_singleton]
    omega

theorem Progress.processInputs {inputs : List String}
    (h : Progress options tree done missing batch now)
    (ha : (done ++ tree.listed inputs).Pairwise tree.Apart) :
    (batch.processInputs none inputs).Ends now
      (Progress options tree (done ++ tree.listed inputs) (missing + (tree.unlisted inputs).length))
      (Partial options tree (done ++ tree.listed inputs)) := by
  induction inputs generalizing batch now done missing with
  | nil =>
      rw [listed, List.flatMap_nil, List.append_nil]
      exact h
  | cons input rest ih =>
      have hl := sourceFiles_of_outline h.outline input
      cases hf : tree.sourceFiles input with
      | error failure =>
          rw [listed_cons_error hf] at ha ⊢
          rw [unlisted_cons_error hf, List.length_cons, Nat.add_comm _ 1, ← Nat.add_assoc,
            Action.Ends, processInputs_cons_error _ _ _ (hl.trans hf)]
          exact ih (h.fail failure) ha
      | ok files =>
          rw [listed_cons_ok hf, ← List.append_assoc] at ha ⊢
          rw [unlisted_cons_ok hf, Action.Ends, processInputs_cons_ok _ _ _ (hl.trans hf)]
          refine ((h.processFiles (List.pairwise_append.1 ha).1).mono (fun _ _ h => h) ?_).bind
            fun turned middle ht => ih ht ha
          exact fun after hp => hp.mono (List.prefix_append ..)

theorem progress_initial (options : Options) (hs : tree.Sound) :
    Progress options tree [] 0 (initial options none) tree where
  options_eq := rfl
  cache_eq := rfl
  sound := hs
  outline := rfl
  formatted _ hm := by cases hm
  untouched _ _ := rfl
  written := rfl
  checked := rfl
  accounted := rfl

variable {inputs : List String}

instance (tree : FileTree) : Std.Symm tree.Apart :=
  ⟨fun _ _ h place ho hf => h place hf ho⟩

theorem Progress.readBytes_of_not {files : List String} (h : Progress options tree done missing batch now)
    (ha : files.Pairwise tree.Apart) (hd : done <+: files) (hm : file ∈ files)
    (hn : file ∈ done → tree.formatted? options file = none) :
    now.readBytes file = tree.readBytes file := by
  refine readBytes_congr (h.resolve file) fun place hr => h.untouched place fun other ho hf hp => ?_
  by_cases he : other = file
  · subst he
    exact hf (hn ho)
  · exact ha.forall (hd.subset ho) hm he place hp hr

theorem Progress.finished (h : Progress options tree (tree.listed inputs)
      (tree.unlisted inputs).length batch now) (ha : (tree.listed inputs).Pairwise tree.Apart) :
    Finished options inputs tree batch.summary now where
  formatted := h.formatted
  untouched := h.untouched
  written := by
    rw [h.written]
    refine List.countP_congr fun file hm => ?_
    cases hf : tree.formatted? options file with
    | none =>
        have hr := readText_congr (h.readBytes_of_not ha (List.prefix_refl _) hm fun _ => hf)
        simp [changes, hf, hr]
    | some out =>
        rw [changes, hf, h.formatted file hm out hf, Option.any_some, decide_eq_true_eq,
          decide_eq_true_eq]
        exact ne_comm
  checked := h.checked
  accounted := h.accounted

theorem Partial.interrupted (h : Partial options tree (tree.listed inputs) now)
    (ha : (tree.listed inputs).Pairwise tree.Apart) : Interrupted options inputs tree now := by
  obtain ⟨done, missing, batch, hd, h⟩ := h
  refine ⟨fun file hm => ?_, fun place hp => ?_⟩
  · by_cases hf : ∃ out, file ∈ done ∧ tree.formatted? options file = some out
    · obtain ⟨out, hm, ho⟩ := hf
      exact .inr ⟨out, ho, h.formatted file hm out ho⟩
    · refine .inl (h.readBytes_of_not ha hd hm fun hm => ?_)
      exact Option.eq_none_iff_forall_ne_some.2 fun out ho => hf ⟨out, hm, ho⟩
  · exact h.untouched place fun file hm _ => hp file (hd.subset hm)

/-- A run in place does what it reports: it formats each listed file that is accepted, counts what it
did, and touches nothing else, also when it breaks off. -/
theorem run_inPlace (hs : tree.Sound) (ha : (tree.listed inputs).Pairwise tree.Apart) :
    (run inputs none options none).Ends tree (Finished options inputs tree)
      (Interrupted options inputs tree) := by
  have hp : ((initial options none).processInputs none inputs).Ends tree _ _ :=
    (progress_initial options hs).processInputs (by rwa [List.nil_append])
  rw [List.nil_append, Nat.zero_add] at hp
  rw [Action.Ends, run_eq]
  refine (hp.mono (fun _ _ h => h) fun _ h => h.interrupted ha).bind fun turned after h => ?_
  rw [Action.Ends, Action.bind_of_ok (saveCache_none turned after)]
  exact h.finished ha

/-- One file to be changed, one that is refused, and one that no input lists. -/
def exampleTree : FileTree where
  entries := [(["lib"], .directory), (["lib", "a.swift"], .file "f( );\n".toUTF8),
    (["b.swift"], .file "f(\n".toUTF8), (["c.swift"], .file "f( );\n".toUTF8)]

set_option maxRecDepth 10000 in
theorem run_inPlace_three : ∃ summary after,
    run ["lib/a.swift", "gone", "b.swift"] none {} none exampleTree = .ok summary after ∧
      summary.written = 1 ∧ summary.checked = 1 ∧ summary.failures.length = 2 ∧
      Finished {} ["lib/a.swift", "gone", "b.swift"] exampleTree summary after := by
  have hr : (run ["lib/a.swift", "gone", "b.swift"] none {} none).Ends exampleTree
      (fun summary _ =>
        summary.written = 1 ∧ summary.checked = 1 ∧ summary.failures.length = 2)
      fun _ => False := by decide +kernel
  have h : (run ["lib/a.swift", "gone", "b.swift"] none {} none).Ends exampleTree _ _ :=
    run_inPlace (by decide) (by decide +kernel)
  rw [Action.Ends] at h hr
  cases ho : run ["lib/a.swift", "gone", "b.swift"] none {} none exampleTree with
  | ok summary after =>
      rw [ho] at h hr
      obtain ⟨hw, hc, hf⟩ := hr
      exact ⟨summary, after, rfl, hw, hc, hf, h⟩
  | error failure after =>
      rw [ho] at hr
      cases hr

end Batch
end SourceStyle
