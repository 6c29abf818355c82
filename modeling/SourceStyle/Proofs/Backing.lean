import SourceStyle.Proofs.Display
import SourceStyle.Proofs.History
import SourceStyle.Proofs.OptionKeys

/-!
What a cache holds over a history: digests of results, each recorded under its own options and the
text that shows its path. So what is skipped is a result, but it can be the result of another file
whose path is shown alike.
-/

namespace SourceStyle

open FileTree (Action text?_eq_some)

variable {seen more : List Visit} {cache : Cache} {visit : Visit}

/-- Every digest in the cache is that of a result recorded under its key. -/
def Cache.Backed (seen : List Visit) (cache : Cache) : Prop :=
  ∀ key value, cache.get? key = some value → ∃ visit ∈ seen, visit.key = key ∧
    ∃ out, visit.recorded? = some out ∧ value = digest (Batch.optionsKeyOf visit.batch.options) out

namespace Cache

theorem backed_empty (seen : List Visit) : Backed seen {} := fun _ _ h => by cases h

theorem Backed.mono (h : Backed seen cache) (hs : seen ⊆ more) : Backed more cache := by
  intro key value hg
  obtain ⟨visit, hm, hv⟩ := h key value hg
  exact ⟨visit, hs hm, hv⟩

theorem get?_insert (cache : Cache) (key value other : String) :
    (cache.insert key value).get? other = if other = key then some value else cache.get? other :=
  lookup_put cache.entries key other value

theorem Backed.record {out : String} (h : Backed seen cache) (ho : visit.recorded? = some out) :
    Backed (seen ++ [visit])
      (cache.record visit.file out (Batch.optionsKeyOf visit.batch.options)) := by
  intro key value hg
  rw [Cache.record, get?_insert] at hg
  split at hg
  · cases hg
    exact ⟨visit, by simp, Eq.symm ‹_›, out, ho, rfl⟩
  · exact h.mono (List.subset_append_left ..) key value hg

end Cache

/-- The batch takes its options for what they are, and its cache is backed. -/
structure Batch.Faithful (seen : List Visit) (batch : Batch) : Prop where
  optionsKey : batch.optionsKey = optionsKeyOf batch.options
  backed : ∀ cache, batch.cache = some cache → Cache.Backed seen cache

/-- Every visit finds a batch that is faithful to those before it. -/
def AllFaithful : List Visit → List Visit → Prop
  | _, [] => True
  | seen, visit :: rest => visit.batch.Faithful seen ∧ AllFaithful (seen ++ [visit]) rest

theorem allFaithful_append {visits rest : List Visit} :
    AllFaithful seen (visits ++ rest) ↔
      AllFaithful seen visits ∧ AllFaithful (seen ++ visits) rest := by
  induction visits generalizing seen with
  | nil => simp [AllFaithful]
  | cons visit more ih =>
      simp only [List.cons_append, AllFaithful, ih, and_assoc, List.append_assoc, List.nil_append]

namespace Batch

theorem Faithful.of_eq {batch next : Batch} (h : batch.Faithful seen) (hs : seen ⊆ more)
    (ho : next.options = batch.options) (hk : next.optionsKey = batch.optionsKey)
    (hc : next.cache = batch.cache) : next.Faithful more where
  optionsKey := by rw [hk, ho, h.optionsKey]
  backed cache hn := (h.backed cache (hc ▸ hn)).mono hs

theorem Faithful.record {out : String} (h : visit.batch.Faithful seen)
    (ho : visit.recorded? = some out) :
    (visit.batch.record visit.file out).Faithful (seen ++ [visit]) where
  optionsKey := h.optionsKey
  backed cache hn := by
    obtain ⟨held, hh, rfl⟩ := Option.map_eq_some_iff.1 hn
    rw [h.optionsKey]
    exact (h.backed held hh).record ho

end Batch

namespace Visit

theorem recorded?_eq_some {next : Batch} {after : FileTree} {source out : String}
    (h : visit.outcome = .ok next after) (hi : visit.inPlace = true)
    (hs : visit.source? = some source) (hk : visit.batch.knows visit.file source = false)
    (hf : format Rule.all visit.batch.options source = .ok out) : visit.recorded? = some out := by
  rw [recorded?, h, skipped, hi, hs]
  simp [hk, hf, Except.toOption]

/-- The step of the invariant: a turn records its own result or nothing. -/
theorem faithful_outcome {next : Batch} {after : FileTree} (h : visit.batch.Faithful seen)
    (ho : visit.outcome = .ok next after) : next.Faithful (seen ++ [visit]) := by
  have ht := Batch.turn_processFile visit.batch visit.file visit.destination visit.tree
  have hs : seen ⊆ seen ++ [visit] := List.subset_append_left ..
  rw [← outcome, ho] at ht
  cases ht with
  | unreadable read => exact h.of_eq hs rfl rfl rfl
  | skipped read inPlace known => exact h.of_eq hs rfl rfl rfl
  | refused read due formats => exact h.of_eq hs rfl rfl rfl
  | settled read inPlace unknown formats =>
      have hr := recorded?_eq_some ho inPlace (text?_eq_some.2 read) unknown formats
      exact (h.record hr).of_eq (List.Subset.refl _) rfl rfl rfl
  | rewritten read inPlace unknown formats changes writes =>
      have hr := recorded?_eq_some ho inPlace (text?_eq_some.2 read) unknown formats
      exact (h.record hr).of_eq (List.Subset.refl _) rfl rfl rfl
  | copied read elsewhere formats writes => exact h.of_eq hs rfl rfl rfl

theorem sound_after (hs : visit.tree.Sound) : visit.after.Sound := by
  have ht := Batch.turn_processFile visit.batch visit.file visit.destination visit.tree
  rw [after, Action.leaves]
  generalize visit.batch.processFile visit.file visit.destination visit.tree = result at ht
  cases ht with
  | unreadable read => exact hs
  | skipped read inPlace known => exact hs
  | refused read due formats => exact hs
  | settled read inPlace unknown formats => exact hs
  | rewritten read inPlace unknown formats changes writes =>
      exact FileTree.Action.leaves_of_ok writes ▸ hs.writeFile visit.destination _
  | copied read elsewhere formats writes =>
      exact FileTree.Action.leaves_of_ok writes ▸ hs.writeFile visit.destination _
  | failed read due formats changes writes =>
      exact FileTree.Action.leaves_of_error writes ▸ hs.writeFile visit.destination _

end Visit

variable {cachePath : String} {tree middle after : FileTree}

/-- The tree is still sound, and nothing else is read from the path of the cache. -/
structure Undisturbed (cachePath : String) (tree after : FileTree) : Prop where
  sound : tree.Sound → after.Sound
  text? : after.text? cachePath = tree.text? cachePath

theorem Undisturbed.refl (cachePath : String) (tree : FileTree) : Undisturbed cachePath tree tree :=
  ⟨fun hs => hs, rfl⟩

theorem Undisturbed.trans (h : Undisturbed cachePath tree middle)
    (h' : Undisturbed cachePath middle after) : Undisturbed cachePath tree after :=
  ⟨fun hs => h'.sound (h.sound hs), h'.text?.trans h.text?⟩

theorem Visit.undisturbed (h : visit.after.text? cachePath = visit.tree.text? cachePath) :
    Undisturbed cachePath visit.tree visit.after :=
  ⟨sound_after, h⟩

namespace Batch

variable {batch next : Batch} {input : String} {output : Option String} {files : List String}

section

variable {file : String} {rest : List String} {failure : Failure}

theorem processFiles_of_visit_ok (h : (batch.visit input output file tree).outcome = .ok next middle) :
    batch.processFiles input output (file :: rest) tree =
      next.processFiles input output rest middle := by
  rw [processFiles_cons]
  exact Action.bind_of_ok h

theorem processFiles_of_visit_error
    (h : (batch.visit input output file tree).outcome = .error failure middle) :
    batch.processFiles input output (file :: rest) tree = .error failure middle := by
  rw [processFiles_cons]
  exact Action.bind_of_error h

theorem visitFiles_of_visit_ok (h : (batch.visit input output file tree).outcome = .ok next middle) :
    batch.visitFiles input output (file :: rest) tree =
      batch.visit input output file tree :: next.visitFiles input output rest middle := by
  rw [visitFiles, h]

theorem visitFiles_of_visit_error
    (h : (batch.visit input output file tree).outcome = .error failure middle) :
    batch.visitFiles input output (file :: rest) tree = [batch.visit input output file tree] := by
  rw [visitFiles, h]

end

theorem faithful_visitFiles (h : batch.Faithful seen)
    (hd : ∀ visit ∈ batch.visitFiles input output files tree,
      visit.after.text? cachePath = visit.tree.text? cachePath) :
    AllFaithful seen (batch.visitFiles input output files tree) ∧
      (batch.processFiles input output files).Ends tree
        (fun next after => next.Faithful (seen ++ batch.visitFiles input output files tree) ∧
          Undisturbed cachePath tree after)
        (Undisturbed cachePath tree) := by
  induction files generalizing batch seen tree with
  | nil =>
      rw [visitFiles, List.append_nil]
      exact ⟨trivial, h, .refl cachePath tree⟩
  | cons file rest ih =>
      rw [Action.Ends]
      cases ho : (batch.visit input output file tree).outcome with
      | ok next middle =>
          rw [visitFiles_of_visit_ok ho] at hd ⊢
          obtain ⟨hv, hr⟩ := List.forall_mem_cons.1 hd
          have hu : Undisturbed cachePath tree middle :=
            Action.leaves_of_ok ho ▸ Visit.undisturbed hv
          obtain ⟨ha, he⟩ := ih (Visit.faithful_outcome h ho) hr
          rw [processFiles_of_visit_ok ho, List.append_cons]
          exact ⟨⟨h, ha⟩, he.mono (fun _ _ hn => ⟨hn.1, hu.trans hn.2⟩) fun _ hn => hu.trans hn⟩
      | error failure middle =>
          rw [visitFiles_of_visit_error ho] at hd ⊢
          have hu : Undisturbed cachePath tree middle :=
            Action.leaves_of_error ho ▸ Visit.undisturbed (hd _ (List.mem_singleton_self _))
          rw [processFiles_of_visit_error ho]
          exact ⟨⟨h, trivial⟩, hu⟩

theorem faithful_visitInputs {inputs : List String} (h : batch.Faithful seen)
    (hd : ∀ visit ∈ batch.visitInputs output inputs tree,
      visit.after.text? cachePath = visit.tree.text? cachePath) :
    AllFaithful seen (batch.visitInputs output inputs tree) ∧
      (batch.processInputs output inputs).Ends tree
        (fun next after => next.Faithful (seen ++ batch.visitInputs output inputs tree) ∧
          Undisturbed cachePath tree after)
        (Undisturbed cachePath tree) := by
  induction inputs generalizing batch seen tree with
  | nil =>
      rw [visitInputs, List.append_nil]
      exact ⟨trivial, h, .refl cachePath tree⟩
  | cons input rest ih =>
      rw [Action.Ends]
      rw [visitInputs] at hd ⊢
      cases hl : tree.sourceFiles input with
      | error failure =>
          rw [hl] at hd
          rw [processInputs_cons_error _ _ _ hl]
          exact ih (h.of_eq (List.Subset.refl _) rfl rfl rfl) hd
      | ok files =>
          rw [hl] at hd
          dsimp only at hd ⊢
          obtain ⟨hf, hr⟩ := List.forall_mem_append.1 hd
          obtain ⟨ha, he⟩ := faithful_visitFiles h hf
          rw [Action.Ends] at he
          rw [processInputs_cons_ok _ _ _ hl, allFaithful_append]
          cases hp : batch.processFiles input output files tree with
          | ok next middle =>
              rw [hp] at hr he
              rw [Action.bind_of_ok hp, ← List.append_assoc]
              obtain ⟨hb, hu⟩ := he
              obtain ⟨hi, hn⟩ := ih hb hr
              exact ⟨⟨ha, hi⟩, hn.mono (fun _ _ hn => ⟨hn.1, hu.trans hn.2⟩) fun _ hn => hu.trans hn⟩
          | error failure middle =>
              rw [hp] at he
              rw [Action.bind_of_error hp]
              exact ⟨⟨ha, trivial⟩, he⟩

end Batch

theorem Undisturbed.load_eq (h : Undisturbed cachePath tree after) :
    Cache.load after cachePath = Cache.load tree cachePath := by
  rw [Cache.load_eq, h.text?, Cache.load_eq]

/-- A run leaves a cache that is backed by what was seen before it and in it. -/
theorem Batch.backed_leaves_run {inputs : List String} {output : Option String} {options : Options}
    (hs : tree.Sound) (hb : Cache.Backed seen (Cache.load tree cachePath)) (hm : seen ⊆ more)
    (he : ((initial options (some (Cache.load tree cachePath))).processInputs output inputs).Ends tree
      (fun next after => next.Faithful more ∧ Undisturbed cachePath tree after)
      (Undisturbed cachePath tree))
    (hr : ∀ next left, (initial options (some (Cache.load tree cachePath))).processInputs output
      inputs tree = .ok next left → ∀ cache ∈ next.cache, Cache.ofText? cache.text = some cache) :
    ((run inputs output options (some cachePath)).leaves tree).Sound ∧
      Cache.Backed more
        (Cache.load ((run inputs output options (some cachePath)).leaves tree) cachePath) := by
  rw [Action.Ends] at he
  cases hp : (initial options (some (Cache.load tree cachePath))).processInputs output inputs tree with
  | error failure left =>
      rw [hp] at he
      rw [leaves_run_of_error hp, he.load_eq]
      exact ⟨he.sound hs, hb.mono hm⟩
  | ok next left =>
      rw [hp] at he
      obtain ⟨hn, hu⟩ := he
      rw [leaves_run_of_ok hp]
      cases hc : next.cache with
      | none =>
          rw [leaves_saveCache_of_none hc, hu.load_eq]
          exact ⟨hu.sound hs, hb.mono hm⟩
      | some cache =>
          rw [leaves_saveCache hc]
          obtain ⟨hk, hl⟩ := cache.load_leaves_save cachePath (hu.sound hs) (hr next left hp cache hc)
          refine ⟨hk, ?_⟩
          rcases hl with hl | hl
          · rw [hl]
            exact hn.backed cache hc
          · rw [hl]
            exact Cache.backed_empty _

theorem Moment.faithful_visits (moment : Moment) (hs : moment.tree.Sound)
    (hb : Cache.Backed seen (Cache.load moment.tree cachePath)) (hd : moment.Discreet cachePath)
    (hr : ∀ cache ∈ moment.saved? cachePath, Cache.ofText? cache.text = some cache) :
    AllFaithful seen (moment.visits cachePath) ∧ (moment.after cachePath).Sound ∧
      Cache.Backed (seen ++ moment.visits cachePath) (Cache.load (moment.after cachePath) cachePath) := by
  obtain ⟨tree, event⟩ := moment
  cases event with
  | edit after =>
      rw [visits, List.append_nil]
      exact ⟨trivial, hd.1, (Undisturbed.load_eq ⟨fun _ => hd.1, hd.2⟩).symm ▸ hb⟩
  | run inputs output options =>
      have hf : (batch cachePath ⟨tree, .run inputs output options⟩ options).Faithful seen :=
        ⟨rfl, fun cache hc => by cases hc; exact hb⟩
      have hv : ∀ visit ∈ visits cachePath ⟨tree, .run inputs output options⟩,
          visit.after.text? cachePath = visit.tree.text? cachePath := hd
      obtain ⟨ha, he⟩ := Batch.faithful_visitInputs hf hv
      refine ⟨ha, Batch.backed_leaves_run hs hb (List.subset_append_left ..) he ?_⟩
      intro next left hp cache hc
      rw [saved?] at hr
      dsimp only at hr
      rw [batch, hp] at hr
      exact hr cache hc

theorem allFaithful_visits {events : List Event} (hs : tree.Sound)
    (hb : Cache.Backed seen (Cache.load tree cachePath))
    (hd : ∀ moment ∈ moments cachePath tree events, moment.Discreet cachePath)
    (hr : ∀ moment ∈ moments cachePath tree events, ∀ cache ∈ moment.saved? cachePath,
      Cache.ofText? cache.text = some cache) :
    AllFaithful seen (visits cachePath tree events) := by
  induction events generalizing seen tree with
  | nil => exact trivial
  | cons event rest ih =>
      rw [moments] at hd hr
      obtain ⟨hd, hds⟩ := List.forall_mem_cons.1 hd
      obtain ⟨hr, hrs⟩ := List.forall_mem_cons.1 hr
      obtain ⟨ha, hs, hb⟩ := Moment.faithful_visits { tree, event } hs hb hd hr
      rw [visits, moments, List.flatMap_cons]
      exact allFaithful_append.2 ⟨ha, ih hs hb hds hrs⟩

theorem AllFaithful.of_append {before rest : List Visit}
    (h : AllFaithful seen (before ++ visit :: rest)) : visit.batch.Faithful (seen ++ before) :=
  (allFaithful_append.1 h).2.1

theorem AllFaithful.optionsKey {visits : List Visit} (h : AllFaithful seen visits)
    (hv : visit ∈ visits) :
    visit.batch.optionsKey = Batch.optionsKeyOf visit.batch.options := by
  obtain ⟨before, rest, rfl⟩ := List.append_of_mem hv
  exact h.of_append.optionsKey

namespace Visit

theorem of_skipped (h : visit.skipped = true) : visit.inPlace = true ∧ ∃ source cache,
    visit.source? = some source ∧ visit.batch.cache = some cache ∧
      cache.get? visit.key = some (Cache.digest visit.batch.optionsKey source) := by
  obtain ⟨hi, hk⟩ := Bool.and_eq_true_iff.1 h
  obtain ⟨source, hs, hk⟩ := (Option.any_eq_true ..).1 hk
  obtain ⟨cache, hc, hk⟩ := (Option.any_eq_true ..).1 hk
  exact ⟨hi, source, cache, hs, hc, eq_of_beq hk⟩

theorem of_recorded? {out : String} (h : visit.recorded? = some out) :
    visit.inPlace = true ∧ visit.skipped = false ∧ ∃ source, visit.source? = some source ∧
      format Rule.all visit.batch.options source = .ok out := by
  rw [recorded?] at h
  split at h
  · split at h
    · obtain ⟨hi, hk⟩ := Bool.and_eq_true_iff.1 ‹_›
      obtain ⟨source, hs, hf⟩ := Option.bind_eq_some_iff.1 h
      refine ⟨hi, by simpa using hk, source, hs, ?_⟩
      cases hr : format Rule.all visit.batch.options source with
      | error error =>
          rw [hr] at hf
          cases hf
      | ok formatted =>
          rw [hr] at hf
          cases hf
          rfl
    · cases h
  · cases h

theorem serial_mem_hashed : visit.batch.options.serial ∈ visit.hashed :=
  List.mem_cons_self ..

theorem compared_mem_hashed {source : String} (hi : visit.inPlace = true)
    (hs : visit.source? = some source) (hc : visit.batch.cache = some cache)
    (hg : (cache.get? visit.key).isSome) : visit.batch.optionsKey ++ source ∈ visit.hashed := by
  have hk : visit.compared? = some source := by
    rw [compared?, hi, hc, Option.any_some, hg, hs]
    rfl
  simp [hashed, hk]

theorem recorded_mem_hashed {out : String} (h : visit.recorded? = some out) :
    visit.batch.optionsKey ++ out ∈ visit.hashed := by
  simp [hashed, h]

end Visit

def exampleCache : String :=
  "entries:\n  a.swift: 8eacfba25f95bdf91a9604c602ac2cf7ddf5ac4a713835032d3466503d378431\n"

def exampleStart : FileTree where
  entries := [(["a.swift"], .file "f( );\n".toUTF8)]

/-- The file as it was formatted, the cache that was saved then, and another file. -/
def exampleEdited : FileTree where
  entries := [(["a.swift"], .file "f( )\n".toUTF8), (["c.swift"], .file "g( );\n".toUTF8),
    (["b"], .file exampleCache.toUTF8)]

/-- The file is formatted, another one is added, and the file is formatted again. -/
def exampleEvents : List Event :=
  [.run ["a.swift"] none {}, .edit exampleEdited, .run ["a.swift"] none {}]

/-- A name that is no text, and is shown alike whichever of these bytes it begins with. -/
def alikeName (b : UInt8) : String :=
  Path.ofOctets (b :: ".swift".toUTF8.data.toList)

theorem octets_alikeName {b : UInt8} (h : 0 ≠ b) :
    Path.octets (alikeName b) = b :: ".swift".toUTF8.data.toList :=
  Path.octets_ofOctets (mt List.mem_cons.1 (not_or.2 ⟨h, by decide +kernel⟩))

/-- Two files with such names. One is formatted to what the other holds. -/
def alikeStart : FileTree where
  entries := [([alikeName 0xFE], .file "a;;\n".toUTF8), ([alikeName 0xFF], .file "a;\n".toUTF8)]

def alikeEvents : List Event :=
  [.run [alikeName 0xFE, alikeName 0xFF] none {}]

end SourceStyle
