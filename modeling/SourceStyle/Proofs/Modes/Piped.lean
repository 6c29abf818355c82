import SourceStyle.Proofs.Modes
import SourceStyle.Proofs.Sessions

/-!
Formatting standard input. Nothing is printed and no file changes until all of the input was read
and accepted, and then the text goes to one place only. If it cannot be printed or takes too long,
what was done by then stays.
-/

namespace SourceStyle.Invocation

open CommandLine FileTree StandardInput

variable {setting : Setting} {arguments : Arguments} {options : Options} {output : Option String}
  {console after : Console} {before files : FileTree} {outcome : Outcome} {text : String}
  {failure : Failure}

/-- What formatting standard input is to print and has done to the files: without input it shows the
help page, and otherwise the formatted text is printed or written to a file. -/
inductive Delivers (setting : Setting) (options : Options) (output : Option String)
    (before : FileTree) : Outcome → String → FileTree → Prop
  | help {after : FileTree} (none : gathered setting.input = []) (furnished : Furnishes before after) :
      Delivers setting options output before .help helpText after
  | printed {formatted : String} {after : FileTree} (given : gathered setting.input ≠ [])
      (ends : endingOf setting.input = .input)
      (formats :
        format Rule.all options (Text.decodeLossy (gathered setting.input)) = .ok formatted)
      (here : output = none) (furnished : Furnishes before after) :
      Delivers setting options output before .inputFormatted (formatted ++ "\n") after
  | written {formatted path : String} {place : Location} {after : FileTree}
      (given : gathered setting.input ≠ []) (ends : endingOf setting.input = .input)
      (formats :
        format Rule.all options (Text.decodeLossy (gathered setting.input)) = .ok formatted)
      (there : output = some path) (puts : Puts path formatted.toUTF8 place before after) :
      Delivers setting options output before .inputFormatted "swiftfmt completed successfully\n" after

/-- The output took no more than a beginning of what was to be printed, or refused to be flushed. -/
def BreaksOff (setting : Setting) (options : Options) (output : Option String) (console : Console)
    (failure : Failure) (after : Console) : Prop :=
  ∃ outcome text taken rest, Delivers setting options output console.files outcome text after.files ∧
    text = taken ++ rest ∧ after.out = console.out ++ taken ∧
    ((∃ last ∈ setting.outEnd, failure = .standardStream last.fault) ∨
      rest = "" ∧ ∃ fault ∈ setting.flushFault, failure = .standardStream fault)

/-- All of the input was read, and waiting for the work on it ended with the output file written so
far at most. -/
def Lags (setting : Setting) (options : Options) (output : Option String) (console : Console)
    (failure : Failure) (after : Console) : Prop :=
  failure = .inputTimeout ∧ setting.lag.isSome ∧ after.out = console.out ∧
    gathered setting.input ≠ [] ∧ endingOf setting.input = .input ∧
    (Furnishes console.files after.files ∨ ∃ formatted path,
      format Rule.all options (Text.decodeLossy (gathered setting.input)) = .ok formatted ∧
      output = some path ∧ Underway path formatted console.files after.files)

/-- What formatting standard input can come to: reading ends otherwise than at the end of input, the
text is refused, it could not be written to a file, it takes too long, or what was to be printed is
printed or could not be. -/
inductive Piped (setting : Setting) (options : Options) (output : Option String)
    (console : Console) : EStateM.Result Failure Console Outcome → Prop
  | unread {failure : Failure} (ends : endingOf setting.input ≠ .input) :
      Piped setting options output console (.error failure console)
  | refused {error : SyntaxError} :
      Piped setting options output console (.error (.parseInput error) console)
  | unwritten {formatted path : String} {failure : Failure} {files : FileTree}
      (there : output = some path)
      (writes : writeFile path formatted console.files = .error failure files) :
      Piped setting options output console (.error failure { console with files })
  | late {failure : Failure} {after : Console}
      (lags : Lags setting options output console failure after) :
      Piped setting options output console (.error failure after)
  | brokenOff {failure : Failure} {after : Console}
      (breaks : BreaksOff setting options output console failure after) :
      Piped setting options output console (.error failure after)
  | delivered {outcome : Outcome} {text : String} {files : FileTree}
      (delivers : Delivers setting options output console.files outcome text files) :
      Piped setting options output console
        (.ok outcome { console with files, out := console.out ++ text })

theorem Delivers.of_furnishes {middle : FileTree} (hf : Furnishes before middle)
    (h : Delivers setting options output middle outcome text files) :
    Delivers setting options output before outcome text files := by
  cases h with
  | help none furnished => exact .help none (hf.trans furnished)
  | printed given ends formats here furnished =>
      exact .printed given ends formats here (hf.trans furnished)
  | written given ends formats there puts =>
      exact .written given ends formats there (.of_furnishes hf puts)

theorem BreaksOff.of_furnishes {err : String} (hf : Furnishes console.files files)
    (h : BreaksOff setting options output { console with files, err } failure after) :
    BreaksOff setting options output console failure after := by
  obtain ⟨outcome, text, taken, rest, hd, hs⟩ := h
  exact ⟨outcome, text, taken, rest, hd.of_furnishes hf, hs⟩

theorem Lags.of_furnishes {err : String} (hf : Furnishes console.files files)
    (h : Lags setting options output { console with files, err } failure after) :
    Lags setting options output console failure after := by
  obtain ⟨ht, hl, ho, hg, he, hw⟩ := h
  refine ⟨ht, hl, ho, hg, he, hw.imp hf.trans ?_⟩
  intro ⟨formatted, path, hk, hp, hu⟩
  exact ⟨formatted, path, hk, hp, hu.of_furnishes hf⟩

/-! ### The end of a run -/

/-- What is to be printed is printed and flushed, or the output fails. -/
theorem piped_of_delivers {step : Step Outcome}
    (hd : Delivers setting options output console.files outcome text files)
    (hs : step console = (do print setting text; pure outcome : Step Outcome) { console with files }) :
    Piped setting options output console (flushAfter setting step console) := by
  rw [flushAfter]
  obtain hp | ⟨last, hl, taken, rest, ht, hp⟩ := print_cases setting text { console with files }
  · rw [Action.bind_of_ok hp] at hs
    rw [Action.bind_of_ok hs]
    cases hf : setting.flushFault with
    | none => exact .delivered hd
    | some fault =>
        exact .brokenOff ⟨outcome, text, text, "", hd, by simp, rfl, .inr ⟨rfl, fault, hf, rfl⟩⟩
  · rw [Action.bind_of_error hp] at hs
    rw [Action.bind_of_error hs]
    exact .brokenOff ⟨outcome, text, taken, rest, hd, ht, rfl, .inl ⟨last, hl, rfl⟩⟩

theorem formatInput_of_ok {result : Option (Option String)}
    (h : session (workOnInput toolchain setting options output) setting.input console.files =
      .ok result files) :
    formatInput toolchain setting options output console =
      (match result with
      | none => do print setting helpText; pure .help
      | some (some formatted) => do print setting (formatted ++ "\n"); pure .inputFormatted
      | some none => do
        print setting "swiftfmt completed successfully\n"
        pure .inputFormatted : Step Outcome) { console with files } := by
  rw [formatInput, Action.bind_of_ok (onFiles_of_ok h)]
  split <;> rfl

theorem flushAfter_of_error
    (h : session (workOnInput toolchain setting options output) setting.input console.files =
      .error failure files) :
    flushAfter setting (formatInput toolchain setting options output) console =
      .error failure { console with files } := by
  have hf : formatInput toolchain setting options output console =
      .error failure { console with files } := by
    rw [formatInput, Action.bind_of_error (onFiles_of_error h)]
  rw [flushAfter, Action.bind_of_error hf]

/-! ### The work on the input -/

theorem handleInput_of_error {text : String} {error : SyntaxError}
    (h : format Rule.all options text = .error error) :
    handleInput toolchain options output text = throw (.parseInput error) := by
  have hf : toolchain.format options text = .error error := h
  rw [handleInput, hf]

theorem handleInput_of_ok {text formatted : String}
    (h : format Rule.all options text = .ok formatted) :
    handleInput toolchain options output text =
      match output with
      | none => pure (some formatted)
      | some path => writeFile path formatted >>= fun _ => pure none := by
  have hf : toolchain.format options text = .ok formatted := h
  cases output <;> simp only [handleInput, hf]

theorem workOnInput_of_none (h : setting.lag = none) (text : String) :
    workOnInput toolchain setting options output text = handleInput toolchain options output text := by
  rw [workOnInput, h]

theorem workOnInput_of_some {progress : Progress} (h : setting.lag = some progress) (text : String) :
    workOnInput toolchain setting options output text =
      handleInputUntil toolchain options output progress text := by
  rw [workOnInput, h]

/-- What formatting standard input comes to when all of the input was read. -/
theorem piped_of_input (he : endingOf setting.input = .input) (hd : gathered setting.input ≠ []) :
    Piped setting options output console
      (flushAfter setting (formatInput toolchain setting options output) console) := by
  have hs := congrFun (session_eq_outcome (workOnInput toolchain setting options output)
    setting.input) console.files
  rw [he, StandardInput.outcome, if_neg hd] at hs
  cases hl : setting.lag with
  | some progress =>
      rw [workOnInput_of_some hl] at hs
      obtain ⟨left, hw, hu⟩ := handleInputUntil_cases options output progress
        (Text.decodeLossy (gathered setting.input)) console.files
      rw [flushAfter_of_error (hs.trans (Action.map_of_error hw))]
      exact .late ⟨rfl, by rw [hl]; rfl, rfl, hd, he, hu⟩
  | none =>
      rw [workOnInput_of_none hl] at hs
      cases hf : format Rule.all options (Text.decodeLossy (gathered setting.input)) with
      | error error =>
          rw [handleInput_of_error hf] at hs
          rw [flushAfter_of_error (hs.trans (Action.map_of_error rfl))]
          exact .refused
      | ok formatted =>
          rw [handleInput_of_ok hf] at hs
          cases output with
          | none =>
              exact piped_of_delivers (.printed hd he hf rfl (.refl console.files))
                (formatInput_of_ok (hs.trans (Action.map_of_ok rfl)))
          | some path =>
              cases hw : writeFile path formatted console.files with
              | ok _ files =>
                  obtain ⟨place, hp⟩ := writeFile_eq_ok hw
                  exact piped_of_delivers (.written hd he hf rfl hp)
                    (formatInput_of_ok (hs.trans (Action.map_of_ok (Action.bind_of_ok hw))))
              | error failure files =>
                  rw [flushAfter_of_error
                    (hs.trans (Action.map_of_error (Action.bind_of_error hw)))]
                  exact .unwritten rfl hw

theorem piped_formatInput (setting : Setting) (options : Options) (output : Option String)
    (console : Console) :
    Piped setting options output console
      (flushAfter setting (formatInput toolchain setting options output) console) := by
  have hs := congrFun (session_eq_outcome (workOnInput toolchain setting options output)
    setting.input) console.files
  cases he : endingOf setting.input with
  | failed cause =>
      rw [he] at hs
      rw [flushAfter_of_error hs]
      exact .unread (by simp [he])
  | input =>
      by_cases hd : gathered setting.input = []
      · rw [he, StandardInput.outcome, if_pos hd] at hs
        exact piped_of_delivers (.help hd (.refl console.files)) (formatInput_of_ok hs)
      · exact piped_of_input he hd
  | stalled | died =>
      rw [he, StandardInput.outcome] at hs
      split at hs
      · exact piped_of_delivers (.help ‹_› (.refl console.files)) (formatInput_of_ok hs)
      · rw [flushAfter_of_error hs]
        exact .unread (by simp [he])

/-- Without inputs an invocation is refused, or a warning cannot be printed, or it formats standard
input. -/
theorem run_of_input (setting : Setting) (hf : Formats arguments)
    (hc : arguments.flag? "cache" ≠ some "clear") (hi : arguments.inputs = []) (console : Console) :
    (∃ failure files err, (failure.kind = .usage ∨
          ∃ last ∈ setting.errEnd, failure = .standardStream last.fault) ∧
        Furnishes console.files files ∧
        run setting arguments console = .error failure { console with files, err }) ∨
      ∃ options output files err, arguments.options = .ok options ∧
        outputPath setting arguments = .ok output ∧ Furnishes console.files files ∧
        run setting arguments console =
          flushAfter setting (formatInput toolchain setting options output)
            { console with files, err } := by
  have hs := settled_settle setting arguments console
  rw [run, runWith_eq]
  cases hm : settle setting arguments console with
  | error failure after =>
      rw [hm] at hs
      rw [Action.bind_of_error hm]
      cases hs with
      | refused usage => exact .inl ⟨failure, _, _, .inl usage, .refl console.files, rfl⟩
      | unreported formats ends furnished =>
          exact .inl ⟨_, _, _, .inr ⟨_, ends, rfl⟩, furnished, rfl⟩
  | ok mode middle =>
      rw [hm] at hs
      cases hs with
      | help asked => exact absurd (.inl asked) hf.not_asked
      | version asked => exact absurd (.inr (.inl asked)) hf.not_asked
      | infer asked named =>
          exact absurd (.inr (.inr (Option.isSome_of_eq_some asked))) hf.not_asked
      | clearCache formats clear => exact absurd clear hc
      | formatInput formats use resolved none expanded furnished =>
          exact .inr ⟨_, _, _, _, resolved, expanded, furnished, Action.bind_of_ok hm⟩
      | formatFiles formats use resolved some => exact absurd hi some

/-- What formatting standard input leaves alone: all files but the output, and that one unless all
of the input was read and accepted. A run that fails has printed nothing and changed no file, unless
the output itself fails or the work takes too long. -/
theorem run_piped (setting : Setting) (arguments : Arguments) (console : Console)
    (hf : Formats arguments) (hc : arguments.flag? "cache" ≠ some "clear")
    (hi : arguments.inputs = []) :
    (∀ failure after, run setting arguments console = .error failure after →
      after.out = console.out ∧ Furnishes console.files after.files ∧
          (failure.kind = .usage ∨ endingOf setting.input ≠ .input ∨
            (∃ error, failure = .parseInput error) ∨
            (∃ path cause, failure = .write path cause ∧
              outputPath setting arguments = .ok (some path)) ∨
            ∃ last ∈ setting.errEnd, failure = .standardStream last.fault) ∨
        ∃ options output, arguments.options = .ok options ∧
          outputPath setting arguments = .ok output ∧
          (BreaksOff setting options output console failure after ∨
            Lags setting options output console failure after)) ∧
    ∀ outcome after, run setting arguments console = .ok outcome after →
      ∃ options output text, arguments.options = .ok options ∧
        outputPath setting arguments = .ok output ∧
        Delivers setting options output console.files outcome text after.files ∧
        after.out = console.out ++ text := by
  obtain ⟨failure, files, err, hu, hw, hm⟩ | ⟨options, output, files, err, hr, ho, hw, hm⟩ :=
    run_of_input setting hf hc hi console <;> rw [hm]
  · refine ⟨fun other after he => ?_, fun outcome after he => by cases he⟩
    cases he
    exact .inl ⟨rfl, hw, hu.imp_right fun hu => .inr (.inr (.inr hu))⟩
  · have hp := piped_formatInput setting options output { console with files, err }
    refine ⟨fun failure after he => ?_, fun outcome after he => ?_⟩
    · rw [he] at hp
      cases hp with
      | unread ends => exact .inl ⟨rfl, hw, .inr (.inl ends)⟩
      | refused => exact .inl ⟨rfl, hw, .inr (.inr (.inl ⟨_, rfl⟩))⟩
      | unwritten there writes =>
          obtain ⟨hl, cause, rfl⟩ := writeFile_eq_error writes
          exact .inl ⟨rfl, hw.trans hl,
            .inr (.inr (.inr (.inl ⟨_, cause, rfl, there ▸ ho⟩)))⟩
      | late lags => exact .inr ⟨options, output, hr, ho, .inr (lags.of_furnishes hw)⟩
      | brokenOff breaks => exact .inr ⟨options, output, hr, ho, .inl (breaks.of_furnishes hw)⟩
    · rw [he] at hp
      cases hp with
      | delivered delivers =>
          exact ⟨options, output, _, hr, ho, delivers.of_furnishes hw, rfl⟩

/-- Text on standard input, in two parts, and a file to be written over. -/
def pipedSetting : Setting where
  host := { workingDirectory := "/w" }
  input := [.data "a".toUTF8.data.toList, .interrupted, .data ";\n".toUTF8.data.toList]

def pipedArguments : Arguments where
  flags := [("output", "out.swift"), ("cache", "ignore")]

def pipedConsole : Console where
  files := { entries := [(["w"], .directory), (["w", "out.swift"], .file "b".toUTF8)] }

/-- The output file is written over with the formatted text. -/
theorem run_piped_output :
    Formats pipedArguments ∧ pipedArguments.flag? "cache" ≠ some "clear" ∧
      pipedArguments.inputs = [] ∧
      ∃ after place, run pipedSetting pipedArguments pipedConsole = .ok .inputFormatted after ∧
        after.out = "swiftfmt completed successfully\n" ∧
        Puts "/w/out.swift" "a\n".toUTF8 place pipedConsole.files after.files := by
  have hf : Formats pipedArguments := ⟨by decide, by decide, by decide⟩
  have hc : pipedArguments.flag? "cache" ≠ some "clear" := by decide
  have hd : gathered pipedSetting.input ≠ [] := by decide +kernel
  have ho : outputPath pipedSetting pipedArguments = .ok (some "/w/out.swift") := by decide +kernel
  have ht : format Rule.all {} (Text.decodeLossy (gathered pipedSetting.input)) = .ok "a\n" := by
    decide +kernel
  have hr : (match run pipedSetting pipedArguments pipedConsole with
    | .ok .inputFormatted _ => true
    | _ => false) = true := by decide +kernel
  split at hr
  · rename_i after hm
    obtain ⟨options, output, text, hp, hw, hl, ha⟩ :=
      (run_piped pipedSetting pipedArguments pipedConsole hf hc rfl).2 _ after hm
    cases ho.symm.trans hw
    have he : pipedArguments.options = .ok {} := by decide +kernel
    cases he.symm.trans hp
    cases hl with
    | printed given ends formats here => cases here
    | written given ends formats there puts =>
        cases there
        cases ht.symm.trans formats
        exact ⟨hf, hc, rfl, after, _, hm, ha, puts⟩
  · cases hr

def brokenSetting : Setting :=
  { pipedSetting with flushFault := some (.described "Broken pipe (os error 32)") }

/-- The output file is written, but too late. -/
def lateSetting : Setting :=
  { pipedSetting with lag := some .finished }

/-- Without input the help page is printed and not formatted text. And a run can fail that has
printed something, or that has written the output file. -/
theorem run_piped_departures :
    (∃ after, run { host := { workingDirectory := "/" } } { flags := [("cache", "ignore")] }
        { files := {} } = .ok .help after ∧
      format Rule.all {} (Text.decodeLossy (gathered [])) = .ok "" ∧ after.out ≠ "" ++ "\n") ∧
    pipedConsole.files.readText "/w/out.swift" = .ok "b" ∧
    (∃ failure after, run brokenSetting pipedArguments pipedConsole = .error failure after ∧
      after.out ≠ pipedConsole.out ∧ after.files.readText "/w/out.swift" = .ok "a\n") ∧
    ∃ failure after, run lateSetting pipedArguments pipedConsole = .error failure after ∧
      after.files.readText "/w/out.swift" = .ok "a\n" := by
  have hb : (match run brokenSetting pipedArguments pipedConsole with
    | .error _ after =>
      decide (after.out ≠ pipedConsole.out ∧ after.files.readText "/w/out.swift" = .ok "a\n")
    | _ => false) = true := by decide +kernel
  have hl : (match run lateSetting pipedArguments pipedConsole with
    | .error _ after => decide (after.files.readText "/w/out.swift" = .ok "a\n")
    | _ => false) = true := by decide +kernel
  refine ⟨⟨_, rfl, ?_, ?_⟩, by decide +kernel, ?_, ?_⟩
  · decide +kernel
  · decide +kernel
  · split at hb
    · exact ⟨_, _, ‹_›, of_decide_eq_true hb⟩
    · cases hb
  · split at hl
    · exact ⟨_, _, ‹_›, of_decide_eq_true hl⟩
    · cases hl

end SourceStyle.Invocation
