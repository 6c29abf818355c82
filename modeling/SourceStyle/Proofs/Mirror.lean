import SourceStyle.Proofs.Files.Listing
import SourceStyle.Proofs.Turns

/-!
Runs that mirror a directory below an output. Files are listed first and then read one by one, so a
file whose path is the mirrored path of an earlier one is read as that one's result.
-/

namespace SourceStyle

namespace Path

variable {base input output : String} {names : List String}

theorem not_same_along (hn : names ≠ []) (h : ∀ name ∈ names, IsName name) :
    same base (along base names) = false := by
  rw [same, components_along hn h, beq_eq_false_iff_ne]
  exact fun he => hn (List.self_eq_append_right.1 he)

theorem same_along_along (hn : names ≠ []) (h : ∀ name ∈ names, IsName name) :
    same (along output names) (along input names) = same output input := by
  rw [same, components_along hn h, components_along hn h, same, Bool.eq_iff_iff, beq_iff_eq, beq_iff_eq]
  exact List.append_left_inj names

theorem relativeTo?_along (hn : names ≠ []) (h : ∀ name ∈ names, IsName name) :
    relativeTo? (along base names) base = some (ofSegments names) := by
  rw [relativeTo?, components_along hn h, List.drop_left,
    if_pos (List.isPrefixOf_iff_prefix.2 (List.prefix_append ..))]

end Path

namespace Batch

open FileTree
open SourceStyle.Path (along)

/-- The path below the output at which a file below the input is mirrored. -/
def mirror (input output file : String) : String :=
  Path.join output ((Path.relativeTo? file input).getD file)

/-- A way from a directory down to a file. -/
def IsWay (below : List String) : Prop :=
  below ≠ [] ∧ ∀ name ∈ below, Path.IsName name

variable {input output : String} {options : Options} {batch turned : Batch} {tree after : FileTree}
  {below : List String} {ways : List (List String)} {place : Location} {bytes : ByteArray}

theorem IsWay.mirror_along (h : IsWay below) :
    mirror input output (along input below) = along output below := by
  rw [mirror, Path.relativeTo?_along h.1 h.2]
  rfl

theorem IsWay.destination (h : IsWay below) (tree : FileTree) :
    destination tree input (along input below) (some output) = along output below := by
  rw [Batch.destination, Path.not_same_along h.1 h.2, Path.relativeTo?_along h.1 h.2]
  rfl

theorem IsWay.not_same (h : IsWay below) (hio : Path.same input output = false) :
    Path.same (along output below) (along input below) = false := by
  rw [Path.same_along_along h.1 h.2, Path.same, beq_eq_false_iff_ne]
  exact (beq_eq_false_iff_ne.1 hio).symm

/-- What a turn that writes elsewhere does: it writes the formatted text, or nothing if there is
none. -/
structure Copies (options : Options) (file destination : String) (tree after : FileTree) : Prop where
  keeps : Keeps tree after
  written : ∀ source out, tree.readText file = .ok source → format Rule.all options source = .ok out →
    after.readText destination = .ok out
  elsewhere : ∀ place bytes, tree.entry? place = some (.file bytes) →
    after.resolve destination ≠ .ok place → after.entry? place = some (.file bytes)

theorem copies_processFile {file destination : String} (hd : Path.same destination file = false)
    (h : batch.processFile file destination tree = .ok turned after) :
    turned.options = batch.options ∧ Copies batch.options file destination tree after := by
  have ht := turn_processFile batch file destination tree
  rw [h] at ht
  cases ht with
  | unreadable read =>
      refine ⟨rfl, .refl tree, fun source out hs _ => ?_, fun _ _ hf _ => hf⟩
      cases read.symm.trans hs
  | skipped read inPlace known => cases hd.symm.trans inPlace
  | refused read due formats =>
      refine ⟨rfl, .refl tree, fun source out hs ho => ?_, fun _ _ hf _ => hf⟩
      cases read.symm.trans hs
      cases formats.symm.trans ho
  | settled read inPlace unknown formats => cases hd.symm.trans inPlace
  | rewritten read inPlace unknown formats changes writes => cases hd.symm.trans inPlace
  | copied read elsewhere formats writes =>
      obtain ⟨place, hw⟩ := writeFile_eq_ok writes
      refine ⟨rfl, hw.keeps, fun source out hs ho => ?_, fun other held hf hn => ?_⟩
      · cases read.symm.trans hs
        cases formats.symm.trans ho
        exact hw.readText
      · have hp : other ≠ place := by
          rintro rfl
          exact hn hw.resolve
        rcases hw.elsewhere other hp with ha | ⟨hf', -⟩
        · rwa [ha]
        · cases hf.symm.trans hf'

/-- What a run over ways leaves where no mirrored path leads. -/
structure CopiesAll (input output : String) (ways : List (List String)) (tree after : FileTree) :
    Prop where
  keeps : Keeps tree after
  elsewhere : ∀ place bytes, tree.entry? place = some (.file bytes) →
    (∀ below ∈ ways, after.resolve (along output below) ≠ .ok place) →
    after.entry? place = some (.file bytes)

theorem copiesAll_processFiles (hio : Path.same input output = false) (hw : ∀ below ∈ ways, IsWay below)
    (h : batch.processFiles input (some output) (ways.map (along input)) tree = .ok turned after) :
    turned.options = batch.options ∧ CopiesAll input output ways tree after := by
  induction ways generalizing batch tree with
  | nil =>
      cases h
      exact ⟨rfl, .refl _, fun _ _ hf _ => hf⟩
  | cons below rest ih =>
      obtain ⟨hb, hr⟩ := List.forall_mem_cons.1 hw
      rw [List.map_cons, processFiles_cons, hb.destination] at h
      obtain ⟨next, middle, hf, h⟩ := Action.bind_eq_ok.1 h
      obtain ⟨ho, hc⟩ := copies_processFile (hb.not_same hio) hf
      obtain ⟨ht, ha⟩ := ih hr h
      refine ⟨ht.trans ho, hc.keeps.trans ha.keeps, fun place bytes he hn => ?_⟩
      refine ha.elsewhere place bytes (hc.elsewhere place bytes he fun hp => ?_) fun other hm => ?_
      · exact hn below (List.mem_cons_self ..) (ha.keeps.resolve hp)
      · exact hn other (List.mem_cons_of_mem below hm)

/-- A run over ways, parted at the turn of one of them. -/
theorem copies_at_turn {front back : List (List String)} (hio : Path.same input output = false)
    (hw : ∀ way ∈ front ++ below :: back, IsWay way)
    (h : batch.processFiles input (some output) ((front ++ below :: back).map (along input)) tree =
      .ok turned after) :
    ∃ before behind, CopiesAll input output front tree before ∧
      Copies batch.options (along input below) (along output below) before behind ∧
      CopiesAll input output back behind after := by
  obtain ⟨hf, hb⟩ := List.forall_mem_append.1 hw
  obtain ⟨hb, hr⟩ := List.forall_mem_cons.1 hb
  rw [List.map_append, processFiles_append] at h
  obtain ⟨next, before, hn, h⟩ := Action.bind_eq_ok.1 h
  obtain ⟨ho, hc⟩ := copiesAll_processFiles hio hf hn
  rw [List.map_cons, processFiles_cons, hb.destination] at h
  obtain ⟨last, behind, hl, h⟩ := Action.bind_eq_ok.1 h
  obtain ⟨-, hm⟩ := copies_processFile (hb.not_same hio) hl
  obtain ⟨-, ha⟩ := copiesAll_processFiles hio hr h
  exact ⟨before, behind, hc, ho ▸ hm, ha⟩

/-- Mirroring leaves, for every listed file, the formatted text of what the file held when its turn
came: that is what it held before the run, unless it is the mirrored path of a file before it. -/
theorem run_mirrored {earlier later : List String} {file source out : String} {summary : Summary}
    (hs : tree.Sound) (hd : tree.isDirectory input = true) (hio : Path.same input output = false)
    (hl : tree.sourceFiles input = .ok (earlier ++ file :: later))
    (hr : run [input] (some output) options none tree = .ok summary after)
    (ht : FileTree.readText
      (if ∃ other ∈ earlier, after.resolve (mirror input output other) = after.resolve file then after
        else tree) file = .ok source)
    (hf : format Rule.all options source = .ok out) :
    after.readText (mirror input output file) = .ok out := by
  obtain ⟨directory, hp, hh⟩ := isDirectory_iff.1 hd
  obtain ⟨ways, hn, hw, hk⟩ := sourceFiles_of_directory hs hp hh hl
  obtain ⟨turned, hi, -⟩ := (run_singleton_eq_ok hl).1 hr
  rw [hw] at hi
  obtain ⟨front, rest, rfl, rfl, hrest⟩ := List.append_eq_map_iff.1 hw
  obtain ⟨below, back, rfl, rfl, rfl⟩ := List.map_eq_cons_iff.1 hrest
  have hway : ∀ way ∈ front ++ below :: back, IsWay way :=
    fun way hm => ⟨(hk way hm).1, (hk way hm).2.1⟩
  have hb := hway below (by simp)
  obtain ⟨-, -, bytes, he⟩ := hk below (by simp)
  obtain ⟨before, behind, hc, hm, ha⟩ := copies_at_turn hio hway hi
  have hk := hm.keeps.trans ha.keeps
  -- mirrored paths are apart, so what stands at one of them is left alone by the others
  have hapart : ∀ way ∈ front ++ below :: back, ∀ other ∈ front ++ below :: back, ∀ place,
      after.resolve (along output way) = .ok place →
      after.resolve (along output other) = .ok place → way = other := fun way hw other ho place =>
    eq_of_resolve_along (hway way hw).1 (hway way hw).2 (hway other ho).1 (hway other ho).2
  have hfile := hs.resolve_along hb.1 hb.2 hp (by rw [he, Option.isSome_some])
  have hbefore := hc.keeps.resolve hfile
  have hread : before.readText (along input below) = .ok source := by
    rw [← ht]
    split
    · rename_i ho
      obtain ⟨other, ho, hs⟩ := ho
      obtain ⟨way, hw, rfl⟩ := List.mem_map.1 ho
      rw [(hway way (by simp [hw])).mirror_along, hk.resolve hbefore] at hs
      have hother : ∀ other ∈ below :: back, after.resolve (along output other) ≠ .ok (directory ++ below) := by
        intro other hm hr
        have he := hapart way (by simp [hw]) other (List.mem_append_right _ hm) _ hs hr
        exact (List.nodup_append.1 hn).2.2 way hw other hm he
      obtain ⟨held, hh⟩ := hc.keeps.file _ bytes he
      refine (readText_congr (readBytes_congr ?_ fun place hr => ?_)).symm
      · rw [hk.resolve hbefore, hbefore]
      · cases hbefore.symm.trans hr
        rw [hh]
        refine ha.elsewhere _ held (hm.elsewhere _ held hh fun hr => ?_) fun other hm => ?_
        · exact hother below (List.mem_cons_self ..) (ha.keeps.resolve hr)
        · exact hother other (List.mem_cons_of_mem below hm)
    · rename_i ho
      refine readText_congr (readBytes_congr ?_ fun place hr => ?_)
      · rw [hbefore, hfile]
      · cases hfile.symm.trans hr
        rw [he]
        refine hc.elsewhere _ bytes he fun way hw hr => ho ⟨along input way, List.mem_map_of_mem hw, ?_⟩
        rw [(hway way (by simp [hw])).mirror_along, hk.resolve hbefore, hk.resolve hr]
  rw [hb.mirror_along]
  obtain ⟨place, held, hr, hh, ht⟩ := readText_eq_ok.1 (hm.written source out hread hf)
  refine readText_eq_ok.2 ⟨place, held, ha.keeps.resolve hr, ?_, ht⟩
  refine ha.elsewhere place held hh fun way hw ho => ?_
  have hw' := hapart below (by simp) way (by simp [hw]) place (ha.keeps.resolve hr) ho
  exact (List.nodup_cons.1 (List.nodup_append.1 hn).2.1).1 (hw' ▸ hw)

/-- A tree whose output stands below its input. -/
def nestedTree : FileTree where
  entries := [(["src"], .directory), (["src", "a.swift"], .file "a\n".toUTF8),
    (["src", "out"], .directory), (["src", "out", "a.swift"], .file "b\n".toUTF8)]

theorem nestedTree_sourceFiles :
    nestedTree.sourceFiles "src" = .ok ["src/a.swift", "src/out/a.swift"] := by
  have hr : nestedTree.resolve "src" = .ok ["src"] := by decide +kernel
  have hb : nestedTree.sourcesBelow ["src"] = [["a.swift"], ["out", "a.swift"]] := by decide +kernel
  rw [sourceFiles_of_sorted hr rfl (by rw [hb]; decide +kernel), hb]
  decide +kernel

theorem nestedTree_run : ∃ summary after,
    run ["src"] (some "src/out") {} none nestedTree = .ok summary after ∧
      after.resolve (mirror "src" "src/out" "src/a.swift") = after.resolve "src/out/a.swift" ∧
      after.readText "src/out/a.swift" = .ok "a\n" ∧
      after.readText (mirror "src" "src/out" "src/out/a.swift") = .ok "a\n" := by
  have h : ((initial {} none).processFiles "src" (some "src/out")
      ["src/a.swift", "src/out/a.swift"]).Ends nestedTree
      (fun _ after =>
        after.resolve (mirror "src" "src/out" "src/a.swift") = after.resolve "src/out/a.swift" ∧
          after.readText "src/out/a.swift" = .ok "a\n" ∧
          after.readText (mirror "src" "src/out" "src/out/a.swift") = .ok "a\n")
      fun _ => False := by
    decide +kernel
  rw [Action.Ends] at h
  split at h
  · exact ⟨_, _, (run_singleton_eq_ok nestedTree_sourceFiles).2 ⟨_, ‹_›, rfl⟩, h⟩
  · cases h

theorem run_mirrored_nested : ∃ summary after,
    run ["src"] (some "src/out") {} none nestedTree = .ok summary after ∧
      after.readText (mirror "src" "src/out" "src/out/a.swift") = .ok "a\n" := by
  obtain ⟨summary, after, hr, hm, ht, -⟩ := nestedTree_run
  have hl : nestedTree.sourceFiles "src" = .ok (["src/a.swift"] ++ "src/out/a.swift" :: []) :=
    nestedTree_sourceFiles
  have hf : format Rule.all {} "a\n" = .ok "a\n" := by decide +kernel
  refine ⟨summary, after, hr, ?_⟩
  refine run_mirrored (by decide) (by decide +kernel) (by decide +kernel) hl hr ?_ hf
  rw [if_pos ⟨_, List.mem_cons_self .., hm⟩]
  exact ht

/-- A file that the run overwrites before reading it is not mirrored as it was. -/
theorem run_overwrites_source :
    ¬∀ tree input output options summary after files, tree.Sound → tree.isDirectory input = true →
      Path.same input output = false → tree.sourceFiles input = .ok files →
      run [input] (some output) options none tree = .ok summary after →
      ∀ file ∈ files, ∀ source out, tree.readText file = .ok source →
        format Rule.all options source = .ok out →
        after.readText (mirror input output file) = .ok out := by
  intro h
  obtain ⟨summary, after, hr, -, -, ho⟩ := nestedTree_run
  have hb := h nestedTree "src" "src/out" {} summary after _ (by decide) (by decide +kernel)
    (by decide +kernel) nestedTree_sourceFiles hr "src/out/a.swift" (by simp) "b\n" "b\n"
    (by decide +kernel) (by decide +kernel)
  rw [ho] at hb
  exact absurd hb (by decide)

end Batch
end SourceStyle
