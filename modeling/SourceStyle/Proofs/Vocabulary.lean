import Mathlib
import SourceStyle.CommandLine.Arguments

/-!
The vocabulary of the formatting flags as it is documented: which words each flag takes, the choice
each word stands for, and which flag a failure names.
-/

namespace SourceStyle

def lowered (value : String) : String :=
  String.ofList (Text.lower value.toList)

/-- A text that spells a width: digits, after a plus sign or not, for a number of at most 64. -/
def SpellsWidth (text : String) (width : Nat) : Prop :=
  ∃ sign digits, text.toList = sign ++ digits ∧ (sign = [] ∨ sign = ['+']) ∧ digits ≠ [] ∧
    (∀ c ∈ digits, c.isDigit = true) ∧ Nat.ofDigitChars 10 digits 0 = width ∧ width ≤ 64

/-- A choice after its flag is resolved: the default if the flag is absent, else what its value in
lower case means. -/
def Chosen {α : Type} (flag : Option String) (default : α) (Means : String → α → Prop)
    (choice : α) : Prop :=
  match flag with
  | none => choice = default
  | some value => value ≠ "" ∧ Means (lowered value) choice

/-- Words that name choices. -/
def Names {α : Type} (words : List (String × α)) (word : String) (choice : α) : Prop :=
  (word, choice) ∈ words

/-- Words that switch a choice on, and words that switch it off. -/
def Switches (on off : List String) (word : String) (choice : Bool) : Prop :=
  word ∈ if choice then on else off

/-- The words for a unit of indentation. -/
def IndentMeans (word : String) (choice : Indent) : Prop :=
  word ∈ ["tab", "tabs", "tabbed"] ∧ choice = .tab ∨
    ∃ width, SpellsWidth word width ∧ choice = .spaces width

/-- Options as flags document them: each choice is made by its own flag alone. -/
structure Documented (flag : String → Option String) (options : Options) : Prop where
  indent : Chosen (flag "indent") (.spaces 4) IndentMeans options.indent
  allman : Chosen (flag "allman") false (Switches ["true", "enabled"] ["false", "disabled"])
    options.allmanBraces
  semicolons : Chosen (flag "semicolons") true (Switches ["inline"] ["never", "false"])
    options.inlineSemicolons
  commas : Chosen (flag "commas") true (Switches ["always", "true"] ["inline", "false"])
    options.trailingCommas
  comments : Chosen (flag "comments") true (Switches ["indent", "indented"] ["ignore"])
    options.indentComments
  linebreaks : Chosen (flag "linebreaks") .lf (Names [("cr", .cr), ("lf", .lf), ("crlf", .crlf)])
    options.linebreak
  ranges : Chosen (flag "ranges") true (Switches ["space", "spaced", "spaces"] ["nospace"])
    options.spacedRanges
  empty : Chosen (flag "empty") true (Switches ["void"] ["tuple", "tuples"]) options.useVoid
  trimwhitespace : Chosen (flag "trimwhitespace") true
    (Switches ["always"] ["nonblank-lines", "nonblank", "non-blank-lines", "non-blank",
      "nonempty-lines", "nonempty", "non-empty-lines", "non-empty"]) options.truncateBlankLines
  insertlines : Chosen (flag "insertlines") true
    (Switches ["enabled", "true"] ["disabled", "false"]) options.insertBlankLines
  removelines : Chosen (flag "removelines") true
    (Switches ["enabled", "true"] ["disabled", "false"]) options.removeBlankLines
  header : Chosen (flag "header") false (Switches ["strip"] ["ignore"]) options.stripHeader
  ifdef : Chosen (flag "ifdef") .indent
    (Names [("indent", .indent), ("noindent", .noindent), ("outdent", .outdent)])
    options.directiveIndent
  hexliterals : Chosen (flag "hexliterals") true
    (Switches ["uppercase", "upper"] ["lowercase", "lower"]) options.uppercaseHex
  experimental : Chosen (flag "experimental") false
    (Switches ["enabled", "true"] ["disabled", "false"]) options.experimental
  fragment : Chosen (flag "fragment") false (Switches ["true", "enabled"] ["false", "disabled"])
    options.fragment

theorem lookup_eq_some_of_nodup {α β : Type} [BEq α] [LawfulBEq α] {entries : List (α × β)}
    (hk : (entries.map Prod.fst).Nodup) {key : α} {value : β} :
    entries.lookup key = some value ↔ (key, value) ∈ entries := by
  induction entries with
  | nil => simp
  | cons entry entries ih =>
      obtain ⟨first, held⟩ := entry
      obtain ⟨hn, hk⟩ := List.nodup_cons.1 hk
      rw [List.lookup_cons, List.mem_cons]
      by_cases he : key = first
      · subst he
        have hm : (key, value) ∉ entries := fun hm => hn (List.mem_map.2 ⟨_, hm, rfl⟩)
        simp [hm, eq_comm]
      · rw [beq_eq_false_iff_ne.2 he, ih hk]
        simp [he]

namespace Setting

theorem number?_eq (digits : List Char) :
    number? digits = if digits ≠ [] ∧ digits.all Char.isDigit then
      some (Nat.ofDigitChars 10 digits 0) else none := by
  simp only [number?, Nat.ofDigitChars, Nat.mul_comm]

theorem width?_eq_some {text : String} {width : Nat} :
    width? text = some width ↔ SpellsWidth text width := by
  have key (digits : List Char) : (number? digits).filter (· ≤ maxIndent) = some width ↔
      digits ≠ [] ∧ (∀ c ∈ digits, c.isDigit = true) ∧ Nat.ofDigitChars 10 digits 0 = width ∧
        width ≤ 64 := by
    rw [number?_eq, Option.filter_eq_some_iff]
    simp only [Option.ite_none_right_eq_some, Option.some.injEq, List.all_eq_true,
      decide_eq_true_iff, and_assoc]
    rfl
  unfold width?
  split
  · rename_i digits ht
    rw [key, SpellsWidth, ht]
    constructor
    · intro h
      exact ⟨['+'], digits, rfl, .inr rfl, h⟩
    · rintro ⟨sign, rest, he, rfl | rfl, hn, hd, h⟩
      · rw [List.nil_append] at he
        exact absurd (hd '+' (he ▸ List.mem_cons_self ..)) (by decide)
      · obtain rfl : digits = rest := (List.cons.inj he).2
        exact ⟨hn, hd, h⟩
  · rename_i ht
    rw [key, SpellsWidth]
    constructor
    · intro h
      exact ⟨[], text.toList, rfl, .inl rfl, h⟩
    · rintro ⟨sign, rest, he, rfl | rfl, h⟩
      · rw [he]
        exact h
      · exact absurd he (ht rest)

/-- Whether a flag takes a value: the value is not empty and makes a choice. -/
def Takes (setting : Setting) (value : String) : Prop :=
  value ≠ "" ∧ ∃ change, setting.choice? (lowered value) = some change

def rejection (setting : Setting) (value : String) : Failure :=
  if value = "" then .missingValue setting.key else .unsupportedValue setting.key value

variable {setting : Setting} {value : String} {options resolved : Options}

theorem resolve_eq_ok : setting.resolve value options = .ok resolved ↔
    value ≠ "" ∧ ∃ change, setting.choice? (lowered value) = some change ∧
      change options = resolved := by
  rw [resolve, ← lowered]
  split
  · rename_i hv
    simp [hv]
  · rename_i hv
    cases setting.choice? (lowered value) <;> simp [hv]

theorem resolve_eq_error {failure : Failure} : setting.resolve value options = .error failure ↔
    ¬setting.Takes value ∧ setting.rejection value = failure := by
  rw [resolve, Takes, rejection, ← lowered]
  split
  · rename_i hv
    simp [hv]
  · rename_i hv
    cases setting.choice? (lowered value) <;> simp [hv]

/-- Resolving a flag sets one choice, to what its words mean, and nothing else. -/
structure Sets {α : Type} (setting : Setting) (get : Options → α) (set : α → Options → Options)
    (Means : String → α → Prop) : Prop where
  choice : ∀ word change, setting.choice? word = some change ↔
    ∃ choice, Means word choice ∧ set choice = change
  same : ∀ options, set (get options) options = options

theorem choice?_eq_lookup {key : String} {values : List (String × (Options → Options))}
    {word : String} : (⟨key, values, fun _ => none⟩ : Setting).choice? word = values.lookup word := by
  rw [choice?]
  cases values.lookup word <;> rfl

theorem switch_sets {key : String} (get : Options → Bool) {set : Bool → Options → Options}
    {on off : List String} (hk : (on ++ off).Nodup) (hg : ∀ options, set (get options) options = options) :
    Sets ⟨key, switch set on off, fun _ => none⟩ get set (Switches on off) where
  choice := by
    intro word change
    have hn : ((switch set on off).map Prod.fst).Nodup := by
      simpa [switch, Function.comp_def] using hk
    rw [choice?_eq_lookup, lookup_eq_some_of_nodup hn]
    simp [switch, Switches, eq_comm, or_comm]
  same := hg

theorem names_sets {key : String} {α : Type} (get : Options → α) {set : α → Options → Options}
    {choices : List α} {name : α → String} (hk : (choices.map name).Nodup)
    (hg : ∀ options, set (get options) options = options) :
    Sets ⟨key, choices.map fun choice => (name choice, set choice), fun _ => none⟩ get set
      (Names (choices.map fun choice => (name choice, choice))) where
  choice := by
    intro word change
    rw [choice?_eq_lookup, lookup_eq_some_of_nodup (by simpa [Function.comp_def] using hk)]
    simp only [Names, List.mem_map, Prod.mk.injEq]
    constructor
    · rintro ⟨choice, hc, rfl, rfl⟩
      exact ⟨choice, ⟨choice, hc, rfl, rfl⟩, rfl⟩
    · rintro ⟨_, ⟨choice, hc, rfl, rfl⟩, rfl⟩
      exact ⟨choice, hc, rfl, rfl⟩
  same := hg

theorem not_spellsWidth {word : String} (hw : word ∈ ["tab", "tabs", "tabbed"]) (width : Nat) :
    ¬SpellsWidth word width := by
  rw [← width?_eq_some]
  fin_cases hw <;> simp [width?, number?]

theorem indent_sets {key : String} (get : Options → Indent) (set : Indent → Options → Options)
    (hg : ∀ options, set (get options) options = options) :
    Sets ⟨key, ["tab", "tabs", "tabbed"].map (·, set .tab),
      fun value => (width? value).map fun width => set (.spaces width)⟩ get set IndentMeans where
  choice := by
    intro word change
    have hn : ((["tab", "tabs", "tabbed"].map (·, set .tab)).map Prod.fst).Nodup := by
      rw [List.map_map]
      exact (by decide : ["tab", "tabs", "tabbed"].Nodup)
    rw [choice?]
    split
    · rename_i held hl
      rw [lookup_eq_some_of_nodup hn] at hl
      obtain ⟨word, hw, he⟩ := List.mem_map.1 hl
      cases he
      have ht := not_spellsWidth hw
      simp only [IndentMeans, ht, hw, false_and, exists_false, or_false, true_and, exists_eq_left,
        Option.some.injEq]
    · rename_i hl
      have hw : word ∉ ["tab", "tabs", "tabbed"] := by
        intro hw
        have hc := (lookup_eq_some_of_nodup hn).2 (List.mem_map_of_mem hw)
        exact absurd (hl.symm.trans hc) nofun
      simp only [IndentMeans, hw, false_and, false_or, Option.map_eq_some_iff, width?_eq_some]
      constructor
      · rintro ⟨width, h, rfl⟩
        exact ⟨_, ⟨width, h, rfl⟩, rfl⟩
      · rintro ⟨_, ⟨width, h, rfl⟩, rfl⟩
        exact ⟨width, h, rfl⟩
  same := hg

end Setting

namespace Options

open Setting

section
variable {flag : String → Option String} {options resolved : Options}

theorem resolveWith_cons {α : Type} {setting : Setting} {get : Options → α}
    {set : α → Options → Options} {Means : String → α → Prop} (hs : Sets setting get set Means)
    {rest : List Setting} {Rest : α → Prop}
    (hr : ∀ choice, resolveWith flag (set choice options) rest = .ok resolved ↔ Rest choice) :
    resolveWith flag options (setting :: rest) = .ok resolved ↔
      ∃ choice, Chosen (flag setting.key) (get options) Means choice ∧ Rest choice := by
  simp only [← hr]
  cases hf : flag setting.key with
  | none => simp [resolveWith, hf, Chosen, hs.same]
  | some value =>
      have hb : resolveWith flag options (setting :: rest) = .ok resolved ↔
          ∃ changed, setting.resolve value options = .ok changed ∧
            resolveWith flag changed rest = .ok resolved := by
        cases hc : setting.resolve value options <;> simp [resolveWith, hf, hc]
      rw [hb]
      simp only [Setting.resolve_eq_ok, Chosen]
      constructor
      · rintro ⟨_, ⟨hv, change, hc, rfl⟩, h⟩
        obtain ⟨choice, hm, rfl⟩ := (hs.choice _ _).1 hc
        exact ⟨choice, ⟨hv, hm⟩, h⟩
      · rintro ⟨choice, ⟨hv, hm⟩, h⟩
        exact ⟨_, ⟨hv, _, (hs.choice _ _).2 ⟨choice, hm, rfl⟩, rfl⟩, h⟩

/-- Flags resolve to options exactly if these are the documented ones. -/
theorem resolve_eq_ok : resolve flag = .ok options ↔ Documented flag options := by
  have chain : resolve flag = .ok options ↔ _ :=
    resolveWith_cons (indent_sets indent (fun choice o => { o with indent := choice }) fun _ => rfl)
      fun _ =>
    resolveWith_cons (switch_sets allmanBraces (by decide) fun _ => rfl) fun _ =>
    resolveWith_cons (switch_sets inlineSemicolons (by decide) fun _ => rfl) fun _ =>
    resolveWith_cons (switch_sets trailingCommas (by decide) fun _ => rfl) fun _ =>
    resolveWith_cons (switch_sets indentComments (by decide) fun _ => rfl) fun _ =>
    resolveWith_cons (names_sets linebreak (by decide) fun _ => rfl) fun _ =>
    resolveWith_cons (switch_sets spacedRanges (by decide) fun _ => rfl) fun _ =>
    resolveWith_cons (switch_sets useVoid (by decide) fun _ => rfl) fun _ =>
    resolveWith_cons (switch_sets truncateBlankLines (by decide) fun _ => rfl) fun _ =>
    resolveWith_cons (switch_sets insertBlankLines (by decide) fun _ => rfl) fun _ =>
    resolveWith_cons (switch_sets removeBlankLines (by decide) fun _ => rfl) fun _ =>
    resolveWith_cons (switch_sets stripHeader (by decide) fun _ => rfl) fun _ =>
    resolveWith_cons (names_sets directiveIndent (by decide) fun _ => rfl) fun _ =>
    resolveWith_cons (switch_sets uppercaseHex (by decide) fun _ => rfl) fun _ =>
    resolveWith_cons (switch_sets experimental (by decide) fun _ => rfl) fun _ =>
    resolveWith_cons (switch_sets fragment (by decide) fun _ => rfl) fun _ => Iff.rfl
  rw [chain]
  constructor
  · rintro ⟨_, hi, _, ha, _, hs, _, hc, _, hm, _, hl, _, hr, _, hv, _, ht, _, hb, _, hd, _, hh, _,
      hp, _, hx, _, he, _, hf, ho⟩
    rw [← Except.ok.inj ho]
    exact ⟨hi, ha, hs, hc, hm, hl, hr, hv, ht, hb, hd, hh, hp, hx, he, hf⟩
  · rintro ⟨hi, ha, hs, hc, hm, hl, hr, hv, ht, hb, hd, hh, hp, hx, he, hf⟩
    exact ⟨_, hi, _, ha, _, hs, _, hc, _, hm, _, hl, _, hr, _, hv, _, ht, _, hb, _, hd, _, hh, _,
      hp, _, hx, _, he, _, hf, rfl⟩

/-- Resolving depends on the flags of the settings alone. -/
theorem resolveWith_congr {other : String → Option String} {settings : List Setting}
    (h : ∀ setting ∈ settings, flag setting.key = other setting.key) :
    resolveWith flag options settings = resolveWith other options settings := by
  induction settings generalizing options with
  | nil => rfl
  | cons setting settings ih =>
      obtain ⟨hf, hs⟩ := List.forall_mem_cons.1 h
      rw [resolveWith, resolveWith, hf]
      cases other setting.key with
      | none => exact ih hs
      | some value =>
          cases hr : setting.resolve value options with
          | error failure => simp only [hr]
          | ok resolved =>
              simp only [hr]
              exact ih hs

/-- Whether the value of a setting's flag, if it is present, is taken. -/
def Passes (flag : String → Option String) (setting : Setting) : Prop :=
  ∀ value, flag setting.key = some value → setting.Takes value

theorem resolveWith_of_passes (options : Options) {setting : Setting} (h : Passes flag setting)
    (rest : List Setting) :
    ∃ start, resolveWith flag options (setting :: rest) = resolveWith flag start rest := by
  cases hf : flag setting.key with
  | none => exact ⟨options, by rw [resolveWith, hf]⟩
  | some value =>
      obtain ⟨hv, change, hc⟩ := h value hf
      have hr : setting.resolve value options = .ok (change options) :=
        Setting.resolve_eq_ok.2 ⟨hv, change, hc, rfl⟩
      exact ⟨change options, by simp only [resolveWith, hf, hr]⟩

theorem resolveWith_of_not_takes {setting : Setting} {value : String}
    (hf : flag setting.key = some value) (hn : ¬setting.Takes value) (rest : List Setting) :
    resolveWith flag options (setting :: rest) = .error (setting.rejection value) := by
  have hr : setting.resolve value options = .error (setting.rejection value) :=
    resolve_eq_error.2 ⟨hn, rfl⟩
  simp only [resolveWith, hf, hr]

/-- Resolving succeeds exactly if every value that is present is taken. -/
theorem resolveWith_isOk {settings : List Setting} :
    (∃ resolved, resolveWith flag options settings = .ok resolved) ↔
      ∀ setting ∈ settings, Passes flag setting := by
  induction settings generalizing options with
  | nil => simp [resolveWith]
  | cons setting settings ih =>
      rw [List.forall_mem_cons]
      by_cases hp : Passes flag setting
      · obtain ⟨start, he⟩ := resolveWith_of_passes options hp settings
        rw [he, ih]
        exact (and_iff_right hp).symm
      · refine iff_of_false ?_ fun h => hp h.1
        rintro ⟨resolved, hr⟩
        simp only [Passes, not_forall] at hp
        obtain ⟨value, hf, hn⟩ := hp
        rw [resolveWith_of_not_takes hf hn] at hr
        cases hr

/-- Resolving fails at the first flag whose value is not taken. -/
theorem resolveWith_eq_error {settings : List Setting} {failure : Failure} :
    resolveWith flag options settings = .error failure ↔
      ∃ before setting after value, settings = before ++ setting :: after ∧
        (∀ earlier ∈ before, Passes flag earlier) ∧ flag setting.key = some value ∧
        ¬setting.Takes value ∧ setting.rejection value = failure := by
  constructor
  · intro h
    induction settings generalizing options with
    | nil => cases h
    | cons setting settings ih =>
        by_cases hp : Passes flag setting
        · obtain ⟨start, he⟩ := resolveWith_of_passes options hp settings
          obtain ⟨before, first, after, value, rfl, hb, hv⟩ := ih (he ▸ h)
          exact ⟨setting :: before, first, after, value, rfl, List.forall_mem_cons.2 ⟨hp, hb⟩, hv⟩
        · simp only [Passes, not_forall] at hp
          obtain ⟨value, hf, hn⟩ := hp
          rw [resolveWith_of_not_takes hf hn] at h
          exact ⟨[], setting, settings, value, rfl, nofun, hf, hn, Except.error.inj h⟩
  · rintro ⟨before, setting, after, value, rfl, hb, hf, hn, rfl⟩
    induction before generalizing options with
    | nil => exact resolveWith_of_not_takes hf hn after
    | cons first before ih =>
        obtain ⟨hp, hb⟩ := List.forall_mem_cons.1 hb
        obtain ⟨start, he⟩ :=
          resolveWith_of_passes options hp (before ++ setting :: after)
        rw [List.cons_append, he]
        exact ih hb

end

end Options

/-- A value that a flag takes: in lower case it is a listed word or, for the indentation, a width. -/
def Acceptable (setting : Setting) (value : String) : Prop :=
  value ≠ "" ∧ (lowered value ∈ setting.values.map Prod.fst ∨
    setting.key = "indent" ∧ ∃ width, SpellsWidth (lowered value) width)

theorem Setting.other_of_mem_all {setting : Setting} (hs : setting ∈ Setting.all) (word : String) :
    (∃ change, setting.other word = some change) ↔
      setting.key = "indent" ∧ ∃ width, SpellsWidth word width := by
  simp only [Setting.all, List.mem_cons, List.not_mem_nil, or_false] at hs
  rcases hs with rfl | hs
  · simp [width?_eq_some]
  · have hk : setting.key ≠ "indent" ∧ setting.other = fun _ => none := by
      rcases hs with rfl | rfl | rfl | rfl | rfl | rfl | rfl | rfl | rfl | rfl | rfl | rfl | rfl |
        rfl | rfl <;> exact ⟨by decide, rfl⟩
    simp [hk]

theorem takes_iff_acceptable {setting : Setting} (hs : setting ∈ Setting.all) {value : String} :
    setting.Takes value ↔ Acceptable setting value := by
  refine and_congr_right' ?_
  rw [← Setting.other_of_mem_all hs, Setting.choice?]
  cases hl : setting.values.lookup (lowered value) with
  | some change =>
      obtain ⟨before, after, he, -⟩ := List.lookup_eq_some_iff.1 hl
      simp [he]
  | none =>
      have hm : lowered value ∉ setting.values.map Prod.fst := by
        intro hm
        obtain ⟨entry, he, hw⟩ := List.mem_map.1 hm
        have hb := List.lookup_eq_none_iff.1 hl entry he
        simp [hw] at hb
      simp only [hm, false_or]

/-- Whether a setting's flag is absent or has a value that it takes. -/
def Allows (flag : String → Option String) (setting : Setting) : Prop :=
  ∀ value, flag setting.key = some value → Acceptable setting value

theorem passes_iff_allows {flag : String → Option String} {setting : Setting}
    (hs : setting ∈ Setting.all) : Options.Passes flag setting ↔ Allows flag setting :=
  forall_congr' fun _ => imp_congr_right fun _ => takes_iff_acceptable hs

theorem isOk_resolve {flag : String → Option String} :
    (∃ options, Options.resolve flag = .ok options) ↔
      ∀ setting ∈ Setting.all, Allows flag setting :=
  Options.resolveWith_isOk.trans (forall₂_congr fun _ hs => passes_iff_allows hs)

theorem resolve_eq_error {flag : String → Option String} {failure : Failure} :
    Options.resolve flag = .error failure ↔ ∃ before setting after value,
      Setting.all = before ++ setting :: after ∧ (∀ earlier ∈ before, Allows flag earlier) ∧
      flag setting.key = some value ∧ ¬Acceptable setting value ∧
      setting.rejection value = failure := by
  rw [Options.resolve, Options.resolveWith_eq_error]
  refine exists₄_congr fun before setting after value => and_congr_right fun he => ?_
  have hb : ∀ earlier ∈ before, earlier ∈ Setting.all := by
    intro earlier hm
    rw [he]
    exact List.mem_append_left _ hm
  have hs : setting ∈ Setting.all := by
    rw [he]
    exact List.mem_append_right _ List.mem_cons_self
  rw [takes_iff_acceptable hs, forall₂_congr fun earlier hm => passes_iff_allows (hb earlier hm)]

namespace CommandLine

theorem Arguments.flag?_of_perm {first second : Arguments}
    (hk : (first.flags.map Prod.fst).Nodup) (hp : first.flags.Perm second.flags) :
    first.flag? = second.flag? := by
  funext key
  refine Option.ext fun value => ?_
  rw [flag?, flag?, lookup_eq_some_of_nodup hk, hp.mem_iff,
    lookup_eq_some_of_nodup ((hp.map Prod.fst).nodup_iff.1 hk)]

/-- Flags are resolved to what is documented or to a failure. They succeed exactly if every value
that is present is taken, and else fail for the first that is not. Neither other flags nor the order
of flags matter. -/
theorem options_vocabulary (arguments : Arguments) :
    (∀ options, arguments.options = .ok options ↔ Documented arguments.flag? options) ∧
    ((∃ options, arguments.options = .ok options) ↔
      ∀ setting ∈ Setting.all, Allows arguments.flag? setting) ∧
    (∀ failure, arguments.options = .error failure ↔ ∃ before setting after value,
      Setting.all = before ++ setting :: after ∧
      (∀ earlier ∈ before, Allows arguments.flag? earlier) ∧
      arguments.flag? setting.key = some value ∧ ¬Acceptable setting value ∧
      failure = if value = "" then .missingValue setting.key
        else .unsupportedValue setting.key value) ∧
    (∀ other : Arguments,
      (∀ setting ∈ Setting.all, arguments.flag? setting.key = other.flag? setting.key) →
        arguments.options = other.options) ∧
    ∀ other : Arguments, (arguments.flags.map Prod.fst).Nodup →
      arguments.flags.Perm other.flags → arguments.options = other.options := by
  refine ⟨fun options => Options.resolve_eq_ok, isOk_resolve, ?_, ?_, ?_⟩
  · intro failure
    simp only [eq_comm (a := failure)]
    exact resolve_eq_error
  · intro other h
    exact Options.resolveWith_congr h
  · intro other hk hp
    rw [Arguments.options, Arguments.flag?_of_perm hk hp, Arguments.options]

set_option maxRecDepth 10000 in
theorem options_vocabulary_instance :
    Documented (Arguments.flag? { flags := [("output", ""), ("commas", "False"), ("indent", "+08")] })
        { indent := .spaces 8, trailingCommas := false } ∧
      (Arguments.options { flags := [("indent", "65"), ("allman", "")] }) =
        Arguments.options { flags := [("allman", ""), ("indent", "65")] } :=
  ⟨((options_vocabulary _).1 _).1 (by cbv),
    (options_vocabulary _).2.2.2.2 _ (by decide) (List.Perm.swap ..)⟩

end CommandLine
end SourceStyle
