import Mathlib.Data.List.Chain
import Mathlib.Data.List.TakeWhile
import SourceStyle.Path

/-!
Paths as lists of segments: what joining does to them, and which paths a path passes through.
-/

namespace SourceStyle.Path

theorem splitSlash_ne_nil (text : List Char) : splitSlash text ≠ [] := by
  fun_cases splitSlash text <;> simp

theorem splitSlash_append (text after : List Char) :
    splitSlash (text ++ '/' :: after) = splitSlash text ++ splitSlash after := by
  induction text with
  | nil => simp [splitSlash]
  | cons c rest ih =>
      rw [List.cons_append, splitSlash, splitSlash, ih]
      split
      · rfl
      · cases hr : splitSlash rest with
        | nil => exact absurd hr (splitSlash_ne_nil rest)
        | cons segment segments => rfl

theorem splitSlash_eq_singleton {text : List Char} (h : '/' ∉ text) : splitSlash text = [text] := by
  induction text with
  | nil => rfl
  | cons c rest ih =>
      obtain ⟨hc, hr⟩ := not_or.1 (mt List.mem_cons.2 h)
      rw [splitSlash, if_neg (Ne.symm hc), ih hr]

theorem slash_notMem_of_mem_splitSlash {text segment : List Char} (h : segment ∈ splitSlash text) :
    '/' ∉ segment := by
  induction text generalizing segment with
  | nil => simp_all [splitSlash]
  | cons c rest ih =>
      rw [splitSlash] at h
      split at h
      · rcases List.mem_cons.1 h with rfl | h
        · simp
        · exact ih h
      · cases hr : splitSlash rest with
        | nil => exact absurd hr (splitSlash_ne_nil rest)
        | cons first segments =>
            rw [hr] at h ih
            rcases List.mem_cons.1 h with rfl | h
            · exact List.not_mem_cons_of_ne_of_not_mem (Ne.symm ‹_›) (ih (List.mem_cons_self ..))
            · exact ih (List.mem_cons_of_mem _ h)

theorem intercalate_splitSlash (text : List Char) : ['/'].intercalate (splitSlash text) = text := by
  induction text with
  | nil => rfl
  | cons c rest ih =>
      obtain ⟨segment, segments, hr⟩ := List.exists_cons_of_ne_nil (splitSlash_ne_nil rest)
      rw [hr] at ih
      rw [splitSlash, hr]
      split
      · rw [List.intercalate_cons_cons, ih, ‹c = '/'›]
        rfl
      · cases segments with
        | nil => exact congrArg (c :: ·) ih
        | cons next more =>
            rw [List.intercalate_cons_cons] at ih ⊢
            exact congrArg (c :: ·) ih

theorem segments_ne_nil (path : String) : segments path ≠ [] := by
  simpa [segments] using splitSlash_ne_nil path.toList

theorem exists_segments_eq_cons (path : String) : ∃ first rest, segments path = first :: rest :=
  List.exists_cons_of_ne_nil (segments_ne_nil path)

theorem segments_append_slash (path after : String) :
    segments (path ++ "/" ++ after) = segments path ++ segments after := by
  have ht : (path ++ "/" ++ after).toList = path.toList ++ '/' :: after.toList := by simp
  rw [segments, ht, splitSlash_append, List.map_append, segments, segments]

theorem slash_notMem_of_mem_segments (path : String) {segment : String} (h : segment ∈ segments path) :
    '/' ∉ segment.toList := by
  obtain ⟨text, ht, rfl⟩ := List.mem_map.1 h
  rw [String.toList_ofList]
  exact slash_notMem_of_mem_splitSlash ht

theorem segments_eq_singleton {segment : String} (h : '/' ∉ segment.toList) :
    segments segment = [segment] := by
  rw [segments, splitSlash_eq_singleton h, List.map_singleton, String.ofList_toList]

theorem segments_ofSegments {names : List String} (hn : names ≠ [])
    (h : ∀ name ∈ names, '/' ∉ name.toList) : segments (ofSegments names) = names := by
  induction names with
  | nil => exact absurd rfl hn
  | cons name rest ih =>
      obtain ⟨hs, hr⟩ := List.forall_mem_cons.1 h
      cases rest with
      | nil => exact segments_eq_singleton hs
      | cons next more =>
          rw [ofSegments, String.intercalate_cons_cons, ← ofSegments, segments_append_slash,
            ih (List.cons_ne_nil _ _) hr, segments_eq_singleton hs, List.singleton_append]

theorem ofSegments_segments (path : String) : ofSegments (segments path) = path := by
  have hm : ((splitSlash path.toList).map String.ofList).map String.toList =
      splitSlash path.toList := by
    simp [Function.comp_def]
  rw [← String.toList_inj, ofSegments, String.toList_intercalate, segments, hm]
  exact intercalate_splitSlash path.toList

theorem isAbsolute_of_segments {path first : String} {rest : List String}
    (h : segments path = first :: rest) : isAbsolute path = (first == "" && !rest.isEmpty) := by
  rw [segments] at h
  rw [isAbsolute]
  cases ht : path.toList with
  | nil =>
      rw [ht] at h
      obtain ⟨rfl, rfl⟩ := List.cons.inj h
      rfl
  | cons c text =>
      rw [ht, splitSlash] at h
      split at h
      · obtain ⟨rfl, rfl⟩ := List.cons.inj h
        simp [splitSlash_ne_nil, ‹c = '/'›]
      · have hc : (some c == some '/') = false := by simpa using ‹¬c = '/'›
        obtain ⟨segment, segments, hs⟩ := List.exists_cons_of_ne_nil (splitSlash_ne_nil text)
        rw [hs] at h
        obtain ⟨rfl, -⟩ := List.cons.inj h
        have hf : (String.ofList (c :: segment) == "") = false := by
          rw [beq_eq_false_iff_ne, Ne, ← String.toList_inj, String.toList_ofList]
          simp
        rw [List.head?_cons, hc, hf, Bool.false_and]

/-- A segment that names something in a directory. -/
structure IsName (segment : String) : Prop where
  ne_empty : segment ≠ ""
  ne_dot : segment ≠ "."
  ne_dots : segment ≠ ".."
  slash_notMem : '/' ∉ segment.toList

instance (segment : String) : Decidable (IsName segment) :=
  decidable_of_iff (segment ≠ "" ∧ segment ≠ "." ∧ segment ≠ ".." ∧ '/' ∉ segment.toList)
    ⟨fun ⟨he, hd, hs, hn⟩ => ⟨he, hd, hs, hn⟩, fun ⟨he, hd, hs, hn⟩ => ⟨he, hd, hs, hn⟩⟩

variable {base : String} {names : List String}

theorem IsName.not_isFiller {segment : String} (h : IsName segment) : isFiller segment = false := by
  simp [isFiller, h.ne_empty, h.ne_dot]

theorem segments_ofNames (hn : names ≠ []) (h : ∀ name ∈ names, IsName name) :
    segments (ofSegments names) = names :=
  segments_ofSegments hn fun name hm => (h name hm).slash_notMem

theorem not_isAbsolute_ofNames (hn : names ≠ []) (h : ∀ name ∈ names, IsName name) :
    isAbsolute (ofSegments names) = false := by
  obtain ⟨name, rest, rfl⟩ := List.exists_cons_of_ne_nil hn
  rw [isAbsolute_of_segments (segments_ofNames hn h)]
  simp [(h name (List.mem_cons_self ..)).ne_empty]

/-- The segments that a path begins with when names are joined to it. -/
def stem (base : String) : List String :=
  if base = "" then []
  else if base.toList.getLast? == some '/' then (segments base).dropLast
  else segments base

theorem stem_begins (base : String) : stem base <+: segments base := by
  rw [stem]
  split
  · exact List.nil_prefix
  · split
    · exact List.dropLast_prefix _
    · exact List.prefix_refl _

theorem segments_of_trailing_slash (h : base.toList.getLast? = some '/') :
    ∃ front, front ≠ [] ∧ segments base = front ++ [""] ∧
      ∀ after, segments (base ++ after) = front ++ segments after := by
  obtain ⟨text, ht⟩ := List.getLast?_eq_some_iff.1 h
  have hb : base = String.ofList text ++ "/" := by
    rw [← String.toList_inj, ht, String.toList_append, String.toList_ofList]
    rfl
  refine ⟨segments (String.ofList text), segments_ne_nil _, ?_, fun after => ?_⟩
  · have hs := segments_append_slash (String.ofList text) ""
    rwa [String.append_empty, ← hb] at hs
  · rw [hb, segments_append_slash]

theorem segments_join {relative : String} (h : isAbsolute relative = false) :
    segments (join base relative) = stem base ++ segments relative := by
  rw [join, h, Bool.false_or, stem]
  by_cases he : base = ""
  · rw [if_pos (String.isEmpty_iff.2 he), if_pos he, List.nil_append]
  · rw [if_neg (mt String.isEmpty_iff.1 he), if_neg he]
    split
    · obtain ⟨front, -, hs, ha⟩ := segments_of_trailing_slash (eq_of_beq ‹_›)
      rw [ha, hs, List.dropLast_concat]
    · rw [segments_append_slash]

theorem isAbsolute_join {relative : String} (h : isAbsolute relative = false) :
    isAbsolute (join base relative) = isAbsolute base := by
  rw [join, h, Bool.false_or]
  split
  · rw [h, String.isEmpty_iff.1 ‹base.isEmpty = true›]
    rfl
  · have hb : base.toList ≠ [] := fun hb => ‹¬base.isEmpty = true›
      (String.isEmpty_iff.2 (String.toList_eq_nil_iff.1 hb))
    obtain ⟨c, text, ht⟩ := List.exists_cons_of_ne_nil hb
    split <;> simp [isAbsolute, ht]

theorem components_of_segments {path first : String} {rest : List String}
    (h : segments path = first :: rest) : components path =
      (if first = "" then if rest = [] then [] else ["/"] else [first]) ++
        rest.filter (!isFiller ·) := by
  rw [components, h, isAbsolute_of_segments h]
  by_cases hf : first = ""
  · by_cases hr : rest = [] <;> simp [hf, hr]
  · simp [hf]

def along (base : String) (names : List String) : String :=
  join base (ofSegments names)

theorem segments_along (hn : names ≠ []) (h : ∀ name ∈ names, IsName name) :
    segments (along base names) = stem base ++ names := by
  rw [along, segments_join (not_isAbsolute_ofNames hn h), segments_ofNames hn h]

theorem isAbsolute_along (hn : names ≠ []) (h : ∀ name ∈ names, IsName name) :
    isAbsolute (along base names) = isAbsolute base :=
  isAbsolute_join (not_isAbsolute_ofNames hn h)

/-- Joining names to a path adds them to its components. -/
theorem components_along (hn : names ≠ []) (h : ∀ name ∈ names, IsName name) :
    components (along base names) = components base ++ names := by
  have hk : names.filter (!isFiller ·) = names :=
    List.filter_eq_self.2 fun name hm => by rw [(h name hm).not_isFiller, Bool.not_false]
  have hs : segments (along base names) = _ := segments_along hn h
  rw [stem] at hs
  split at hs
  · obtain ⟨name, rest, rfl⟩ := List.exists_cons_of_ne_nil hn
    have hm := h name (List.mem_cons_self ..)
    rw [List.filter_cons, hm.not_isFiller, Bool.not_false, if_pos rfl, List.cons.injEq] at hk
    rw [components_of_segments hs, if_neg hm.ne_empty, hk.2, ‹base = ""›]
    rfl
  · obtain ⟨first, rest, hb⟩ := exists_segments_eq_cons base
    split at hs
    · obtain ⟨front, hf, he, -⟩ := segments_of_trailing_slash (eq_of_beq ‹_›)
      obtain ⟨start, more, rfl⟩ := List.exists_cons_of_ne_nil hf
      rw [he, List.dropLast_concat, List.cons_append] at hs
      rw [List.cons_append] at he
      rw [components_of_segments hs, components_of_segments he, List.filter_append,
        List.filter_append, hk]
      simp [hn, isFiller]
    · rw [hb, List.cons_append] at hs
      rw [components_of_segments hs, components_of_segments hb]
      have hr : first = "" → rest ≠ [] := by
        rintro rfl rfl
        have hp := ofSegments_segments base
        rw [hb] at hp
        exact ‹¬base = ""› hp.symm
      by_cases hf : first = ""
      · simp [hf, hr hf, hk]
      · simp [hf, hk]

/-- Whoever follows a path comes through a path above it. -/
structure PassesThrough (path above : String) : Prop where
  ne_empty : above ≠ ""
  isAbsolute_eq : isAbsolute above = isAbsolute path
  exists_segments : ∃ front after, after ≠ [] ∧ segments path = front ++ after ∧
    (segments above = front ∨ segments above = front ++ [""])

theorem segments_spell {first : String} {reversed : List String}
    (h : ∀ segment ∈ first :: reversed, '/' ∉ segment.toList) :
    segments (spell first reversed) =
      if first = "" ∧ reversed = [] then [""] ++ [""] else first :: reversed.reverse := by
  rw [spell]
  by_cases he : first = "" ∧ reversed = []
  · obtain ⟨rfl, rfl⟩ := he
    rfl
  · rw [if_neg he, if_neg (by simpa [and_comm] using he)]
    refine segments_ofSegments (List.cons_ne_nil _ _) fun segment hm => h segment ?_
    simpa using hm

theorem passesThrough_spell {path first : String} {reversed : List String} {last : String}
    {rest : List String} (hs : segments path = first :: reversed.reverse)
    (hr : reversed.dropWhile isFiller = last :: rest) :
    PassesThrough path (spell first (rest.dropWhile isFiller)) := by
  obtain ⟨after, hn, hc⟩ : ∃ after, after ≠ [] ∧
      reversed.reverse = (rest.dropWhile isFiller).reverse ++ after := by
    refine ⟨(rest.takeWhile isFiller).reverse ++ last :: (reversed.takeWhile isFiller).reverse,
      List.append_ne_nil_of_right_ne_nil _ (List.cons_ne_nil last _), ?_⟩
    conv_lhs =>
      rw [← List.takeWhile_append_dropWhile (p := isFiller) (l := reversed), hr,
        ← List.takeWhile_append_dropWhile (p := isFiller) (l := rest)]
    simp only [List.reverse_append, List.reverse_cons, List.append_assoc, List.singleton_append]
  generalize rest.dropWhile isFiller = names at hc ⊢
  have hp : segments (spell first names) = _ := segments_spell fun segment hm => by
    refine slash_notMem_of_mem_segments path ?_
    rw [hs, hc]
    simp only [List.mem_cons, List.mem_append, List.mem_reverse] at hm ⊢
    tauto
  have ha : isAbsolute path = (first == "") := by
    rw [isAbsolute_of_segments hs, hc]
    simp [hn]
  by_cases hf : first = "" ∧ names = []
  · obtain ⟨rfl, rfl⟩ := hf
    refine ⟨fun he => ?_, ?_, [""], after, hn, ?_, .inr hp⟩
    · rw [he] at hp
      cases hp
    · rw [ha, isAbsolute_of_segments hp]
      rfl
    · rw [hs, hc]
      rfl
  · rw [if_neg hf] at hp
    refine ⟨fun he => ?_, ?_, first :: names.reverse, after, hn, ?_, .inl hp⟩
    · rw [he] at hp
      obtain ⟨ht, hr⟩ := List.cons.inj hp
      exact hf ⟨ht.symm, List.reverse_eq_nil_iff.1 hr.symm⟩
    · rw [ha, isAbsolute_of_segments hp]
      by_cases he : first = ""
      · simpa [he] using hf
      · simp [he]
    · rw [hs, hc]
      rfl

theorem isChain_above {path first : String} {reversed : List String}
    (hm : ∀ segment ∈ first :: reversed, '/' ∉ segment.toList)
    (hs : segments path = first :: reversed.reverse ∨ reversed = []) :
    (path :: above first reversed).IsChain fun path above =>
      above = "" ∨ PassesThrough path above := by
  fun_induction above first reversed generalizing path with
  | case1 reversed hr => simp
  | case2 reversed hr hf => simp
  | case3 reversed last rest hr _ ih =>
      have hn : reversed ≠ [] := by
        rintro rfl
        cases hr
      have hp := hs.resolve_right hn
      have hk : ∀ segment ∈ first :: rest.dropWhile isFiller, '/' ∉ segment.toList := by
        intro segment hk
        refine hm segment (List.mem_cons.2 ((List.mem_cons.1 hk).imp_right fun hk => ?_))
        have hd := (List.dropWhile_sublist isFiller (l := rest)).mem hk
        have hl : segment ∈ reversed.dropWhile isFiller := hr ▸ List.mem_cons_of_mem last hd
        exact (List.dropWhile_sublist isFiller).mem hl
      refine List.IsChain.cons_cons (.inr (passesThrough_spell hp hr)) (ih hk ?_)
      rw [segments_spell hk]
      by_cases he : rest.dropWhile isFiller = []
      · exact .inr he
      · exact .inl (if_neg fun hf => he hf.2)

theorem isChain_ancestors (path : String) :
    (path :: ancestors path).IsChain fun path above => above = "" ∨ PassesThrough path above := by
  obtain ⟨first, rest, hs⟩ := exists_segments_eq_cons path
  rw [ancestors, hs]
  refine isChain_above (fun segment hm => ?_) (.inl (by rw [hs, List.reverse_reverse]))
  refine slash_notMem_of_mem_segments path ?_
  rw [hs]
  simpa using hm

variable {path : String}

theorem eq_empty_or_passesThrough {parent : String} (h : parent? path = some parent) :
    parent = "" ∨ PassesThrough path parent := by
  obtain ⟨more, hm⟩ := List.head?_eq_some_iff.1 h
  have hc := isChain_ancestors path
  rw [hm] at hc
  exact (List.isChain_cons_cons.1 hc).1

theorem above_of_cons {first last : String} {reversed rest : List String}
    (h : reversed.dropWhile isFiller = last :: rest) :
    above first reversed =
      spell first (rest.dropWhile isFiller) :: above first (rest.dropWhile isFiller) := by
  rw [above]
  split
  · rename_i hn
    rw [h] at hn
    cases hn
  · rename_i hc
    obtain ⟨-, rfl⟩ := List.cons.inj (h.symm.trans hc)
    rfl

theorem above_of_nil {first : String} {reversed : List String}
    (h : reversed.dropWhile isFiller = []) :
    above first reversed = if first = "" then [] else [""] := by
  rw [above]
  split
  · rfl
  · rename_i hc
    rw [h] at hc
    cases hc

/-- Above the path above a path come the other paths above it. -/
theorem ancestors_eq_cons {parent : String} (h : parent? path = some parent) (hn : parent ≠ "") :
    ancestors path = parent :: ancestors parent := by
  obtain ⟨first, rest, hs⟩ := exists_segments_eq_cons path
  rw [parent?, ancestors, hs] at h
  rw [ancestors, hs]
  dsimp only at h ⊢
  cases hr : rest.reverse.dropWhile isFiller with
  | nil =>
      rw [above_of_nil hr] at h
      split at h
      · cases h
      · exact absurd (Option.some.inj h).symm hn
  | cons last more =>
      rw [above_of_cons hr] at h ⊢
      obtain rfl : spell first (more.dropWhile isFiller) = parent := Option.some.inj h
      have hm : ∀ segment ∈ first :: more.dropWhile isFiller, '/' ∉ segment.toList := by
        intro segment hm
        refine slash_notMem_of_mem_segments path ?_
        rw [hs]
        rcases List.mem_cons.1 hm with rfl | hm
        · exact List.mem_cons_self
        · have hd : segment ∈ rest.reverse.dropWhile isFiller :=
            hr ▸ List.mem_cons_of_mem last ((List.dropWhile_sublist isFiller).mem hm)
          exact List.mem_cons_of_mem first
            (List.mem_reverse.1 ((List.dropWhile_sublist isFiller).mem hd))
      refine congrArg _ ?_
      generalize more.dropWhile isFiller = names at hm
      rw [ancestors, segments_spell hm]
      by_cases he : first = "" ∧ names = []
      · obtain ⟨rfl, rfl⟩ := he
        exact (above_of_nil rfl).trans (above_of_nil rfl).symm
      · rw [if_neg he]
        exact congrArg (above first) (List.reverse_reverse names).symm

theorem fillers_of_parent?_eq_none (h : parent? path = none) :
    ∃ fillers, segments path = "" :: fillers ∧ ∀ segment ∈ fillers, isFiller segment = true := by
  obtain ⟨first, rest, hs⟩ := exists_segments_eq_cons path
  rw [parent?, ancestors, hs] at h
  dsimp only at h
  rw [above] at h
  split at h
  · split at h
    · refine ⟨rest, by rw [hs, ‹first = ""›], fun segment hm => ?_⟩
      exact List.dropWhile_eq_nil_iff.1 ‹_› segment (List.mem_reverse.2 hm)
    · cases h
  · cases h

theorem not_isAbsolute_of_parent?_eq_empty (h : parent? path = some "") : isAbsolute path = false := by
  obtain ⟨first, rest, hs⟩ := exists_segments_eq_cons path
  rw [isAbsolute_of_segments hs]
  rw [parent?, ancestors, hs] at h
  dsimp only at h
  rw [above] at h
  split at h
  · split at h
    · cases h
    · simp [*]
  · have hp : PassesThrough path _ := passesThrough_spell (by rwa [List.reverse_reverse]) ‹_›
    exact absurd (Option.some.inj h) hp.ne_empty

end SourceStyle.Path
