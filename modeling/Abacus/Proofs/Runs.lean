import Abacus.Proofs.Lines
import Abacus.Proofs.Place
import Abacus.Proofs.Rendering

/-!
# Runs — what a command prints

A run prints a line for each expression, and no line depends on those
before it (`printAll_fst`). Expressions come from the command line
(`run_expressions`) or from the input, where a line is an expression
(`run_input`). Both ways print the same for the same expressions
(`run_lines`), since a carriage return behind an expression is noise.

What a run prints and how it ends does not depend on its log filter, as
long as there is one. A filter that splits a character is none, and then
the run ends before it prints anything. `Prints` states both.
-/

namespace Abacus

/-! ## Printing -/

/-- **A tokenizer prints every expression as if it were the first.** -/
theorem printAll_fst (s : Settings) (t : Tokenizer) (es : List (List Char)) :
    (printAll s t es).1 = es.flatMap (printedLine s.format s.showSpans) := by
  induction es generalizing t with
  | nil => rfl
  | cons e es ih =>
    -- whatever the tokenizer knows, a scan starts afresh
    have htokens : (t.tokenize e).2 = tokenize e := rfl
    show render s.format s.showSpans (t.tokenize e).2 ++ '\n' :: (printAll s _ es).1 = _
    rw [ih, htokens, List.flatMap_cons, printedLine, List.append_assoc, List.singleton_append]

/-- A carriage return behind an expression changes nothing of its line. -/
theorem printedLine_withoutEnd (format : Format) (showSpans : Bool) (e : List Char) :
    printedLine format showSpans (Input.withoutEnd (e ++ ['\n'])) =
      printedLine format showSpans e := by
  by_cases hlast : e.getLast? = some '\r'
  · obtain ⟨l, rfl⟩ := List.getLast?_eq_some_iff.1 hlast
    have hreturn : ∀ c ∈ ['\r'], Glyph.isRecognized c = false :=
      List.forall_mem_singleton.2 (by decide)
    rw [List.append_assoc, List.singleton_append, Input.withoutEnd_returned, printedLine,
      printedLine, tokenize_append_noise l hreturn]
  · rw [Input.withoutEnd_ended hlast]

namespace Options

/-- The same options with other expressions. -/
def asked (o : Options) (es : List (List Char)) : Options := { o with expressions := es }

/-- The lines of expressions, in the settings in force. -/
def lines (o : Options) (s : Settings) (es : List (List Char)) : List Char :=
  es.flatMap (printedLine (o.inForce s).format (o.inForce s).showSpans)

end Options

/-- The same surroundings with another input. -/
def Surroundings.hearing (around : Surroundings) (bytes : List UInt8) : Surroundings :=
  { around with input := bytes }

section

variable {o : Options} {around : Surroundings} {s : Settings} {output : List Char}
variable {failure : Option RunFailure}

/-- **A run prints some output and ends with a failure or without**, in
settings that were found. -/
structure Prints (o : Options) (around : Surroundings) (s : Settings) (output : List Char)
    (failure : Option RunFailure) : Prop where
  /-- This is what is done with the settings in force. -/
  done : (runWith o (o.inForce s) around.input).1 = output ∧
    (runWith o (o.inForce s) around.input).2.1 = failure
  /-- It is what the run leaves, whatever filter there is for its log. -/
  filtered : ∀ filter, LogFilter.choose around.logFilter (o.fallbackFilter s) = .ok filter →
    (o.run around).output = output ∧ (o.run around).failure = failure
  /-- Without a filter nothing is done. -/
  unfiltered : ∀ fault, LogFilter.choose around.logFilter (o.fallbackFilter s) = .error fault →
    (o.run around).output = [] ∧ (o.run around).failure = some .badFilter

theorem prints_runWith (hs : Settings.ofNodeOrDefault (around.node o.config) = .ok s) :
    Prints o around s (runWith o (o.inForce s) around.input).1
      (runWith o (o.inForce s) around.input).2.1 where
  done := ⟨rfl, rfl⟩
  filtered filter h := by
    rw [Options.run, hs]
    dsimp only
    rw [h]
    exact ⟨rfl, rfl⟩
  unfiltered fault h := by
    rw [Options.run, hs]
    dsimp only
    rw [h]
    exact ⟨rfl, rfl⟩

/-- So a run ends with the code of its failure. -/
theorem Prints.exitCode_eq (h : Prints o around s output failure) {filter : LogFilter}
    (hfilter : LogFilter.choose around.logFilter (o.fallbackFilter s) = .ok filter) :
    (o.run around).exitCode = (failure.map RunFailure.exitCode).getD 0 := by
  rw [Report.exitCode, (h.filtered filter hfilter).2]

/-! ## Expressions of the command line -/

theorem prints_expressions (hne : o.expressions ≠ [])
    (hs : Settings.ofNodeOrDefault (around.node o.config) = .ok s) :
    Prints o around s (o.lines s o.expressions) none := by
  have hdone := prints_runWith hs
  rwa [runWith, if_neg (List.isEmpty_iff.not.2 hne), printAll_fst] at hdone

/-- **A run prints one line for each expression**, and each line is that of
its expression, whatever the other expressions are. -/
theorem run_expressions (hne : o.expressions ≠ [])
    (hs : Settings.ofNodeOrDefault (around.node o.config) = .ok s) :
    Prints o around s (o.lines s o.expressions) none ∧
      (∀ filter, LogFilter.choose around.logFilter (o.fallbackFilter s) = .ok filter →
        (o.run around).exitCode = 0) ∧
      ∀ e, IsLine (o.inForce s).format (o.inForce s).showSpans e
        (printedLine (o.inForce s).format (o.inForce s).showSpans e) := by
  have hprints := prints_expressions hne hs
  exact ⟨hprints, fun filter hfilter => hprints.exitCode_eq hfilter,
    fun e => isLine_printedLine _ _ e⟩

/-- One expression that is a symbol, and one that is empty. -/
theorem run_expressions_symbol :
    let o : Options := ⟨[['+'], []], defaultConfig, none, false, false⟩
    let around : Surroundings := ⟨[], fun _ => .absent, none⟩
    o.expressions ≠ [] ∧ Settings.ofNodeOrDefault (around.node o.config) = .ok .default ∧
      LogFilter.choose around.logFilter (o.fallbackFilter .default) =
        .ok [⟨none, none, none, 3⟩] ∧
      (o.run around).output = ['+', '\n', '\n'] ∧ (o.run around).exitCode = 0 := by
  intro o around
  have hne : o.expressions ≠ [] := by simp [o]
  have hs : Settings.ofNodeOrDefault (around.node o.config) = .ok .default := rfl
  have hfilter : LogFilter.choose around.logFilter (o.fallbackFilter .default) =
      .ok [⟨none, none, none, 3⟩] := rfl
  obtain ⟨hprints, hcode, -⟩ := run_expressions hne hs
  have hplus : tokenize ['+'] = [⟨.operator .add, ⟨0, 1, 1, 1⟩⟩] := by
    rw [tokenize_eq_spans, Lexeme.pieces_symbol_cons rfl, Lexeme.pieces_nil]
    rfl
  have hempty : tokenize [] = [] := by rw [tokenize_eq_spans, Lexeme.pieces_nil]; rfl
  have hlines : o.lines .default o.expressions = ['+', '\n', '\n'] := by
    simp only [o, Options.lines, List.flatMap_cons, List.flatMap_nil, printedLine, hplus, hempty]
    rfl
  exact ⟨hne, hs, hfilter, (hprints.filtered _ hfilter).1.trans hlines, hcode _ hfilter⟩

/-- A filter with a blank of two bytes at its start splits a character, and
nothing is printed. -/
example : (⟨[['+']], defaultConfig, none, false, false⟩ : Options).run
    ⟨[], fun _ => .absent, some "\u00a0[tokenize]=debug".toList⟩ = ⟨[], some .badFilter, []⟩ := rfl

/-! ## Expressions of the input -/

theorem prints_lines (hnone : o.expressions = [])
    (hs : Settings.ofNodeOrDefault (around.node o.config) = .ok s) :
    Prints o around s (o.lines s (Input.lines around.input).1)
      (if (Input.lines around.input).2 then none else some .badInput) := by
  have hdone := prints_runWith hs
  rwa [runWith, if_pos (List.isEmpty_iff.2 hnone), printAll_fst] at hdone

/-- **A run prints a line for all that it hears**, and fails if it does not
hear all of its input. -/
theorem run_input (hnone : o.expressions = [])
    (hs : Settings.ofNodeOrDefault (around.node o.config) = .ok s) :
    (∃ ls unheard, Input.Heard around.input ls unheard) ∧
      ∀ ls unheard, Input.Heard around.input ls unheard →
        Prints o around s (o.lines s ls) (if unheard = [] then none else some .badInput) ∧
        ∀ filter, LogFilter.choose around.logFilter (o.fallbackFilter s) = .ok filter →
          (o.run around).exitCode = (if unheard = [] then 0 else 1) ∧
          (o.run around).failure.map RunFailure.message = if unheard = [] then none else
            some "Error: IO error: stream did not contain valid UTF-8".toList := by
  refine ⟨Input.exists_heard around.input, fun ls unheard hheard => ?_⟩
  -- what is heard is what the reader reads, so all is said of its lines
  have hprints := prints_lines hnone hs
  rw [hheard.lines_eq] at hprints
  refine ⟨?_, fun filter hfilter => ?_⟩
  · cases unheard with
    | nil => exact hprints
    | cons p ps => exact hprints
  · have hcode := hprints.exitCode_eq hfilter
    rw [hcode, (hprints.filtered filter hfilter).2]
    cases unheard with
    | nil => exact ⟨rfl, rfl⟩
    | cons p ps => exact ⟨rfl, rfl⟩

/-- A line, then a byte that begins no character, then another line. -/
theorem run_input_refused :
    let o : Options := ⟨[], defaultConfig, none, false, false⟩
    let around : Surroundings := ⟨[43, 13, 10, 255, 10, 45, 10], fun _ => .absent, none⟩
    o.expressions = [] ∧ Settings.ofNodeOrDefault (around.node o.config) = .ok .default ∧
      Input.Heard around.input [['+']] [[255, 10], [45, 10]] ∧
      LogFilter.choose around.logFilter (o.fallbackFilter .default) =
        .ok [⟨none, none, none, 3⟩] ∧
      (o.run around).output = o.lines .default [['+']] ∧ (o.run around).exitCode = 1 := by
  intro o around
  have hs : Settings.ofNodeOrDefault (around.node o.config) = .ok .default := rfl
  have hfilter : LogFilter.choose around.logFilter (o.fallbackFilter .default) =
      .ok [⟨none, none, none, 3⟩] := rfl
  have hcut : Input.Cut ([43, 13] ++ 10 :: ([255] ++ 10 :: ([45] ++ 10 :: [])))
      [[43, 13] ++ [10], [255] ++ [10], [45] ++ [10]] :=
    .line (by decide) (.line (by decide) (.line (by decide) .nil))
  have hheard : Input.Heard around.input [['+']] [[255, 10], [45, 10]] := by
    refine ⟨⟨[['+', '\r', '\n']], hcut, .cons (.returned ['+']) .nil⟩, fun piece hpiece text => ?_⟩
    obtain rfl := Option.some.inj hpiece
    exact Utf8.ne_encode_of_next? rfl text
  obtain ⟨hprints, hends⟩ := (run_input rfl hs).2 _ _ hheard
  exact ⟨rfl, hs, hheard, hfilter, (hprints.filtered _ hfilter).1, (hends _ hfilter).1⟩

/-! ## Both ways compared -/

/-- Reports that differ in their logs at most. -/
structure Report.Agrees (a b : Report) : Prop where
  output : a.output = b.output
  exitCode : a.exitCode = b.exitCode

theorem Report.agrees_of_failure {a b : Report} (houtput : a.output = b.output)
    (hfailure : a.failure = b.failure) : a.Agrees b :=
  ⟨houtput, by rw [Report.exitCode, Report.exitCode, hfailure]⟩

/-- Runs in the same settings that print the same leave the same. -/
theorem Prints.agrees {o' : Options} {around' : Surroundings} (h : Prints o around s output failure)
    (h' : Prints o' around' s output failure)
    (hfilter : LogFilter.choose around.logFilter (o.fallbackFilter s) =
      LogFilter.choose around'.logFilter (o'.fallbackFilter s)) :
    (o.run around).Agrees (o'.run around') := by
  cases hchosen : LogFilter.choose around.logFilter (o.fallbackFilter s) with
  | ok filter =>
    obtain ⟨houtput, hfailure⟩ := h.filtered filter hchosen
    obtain ⟨houtput', hfailure'⟩ := h'.filtered filter (hfilter ▸ hchosen)
    exact Report.agrees_of_failure (houtput.trans houtput'.symm)
      (hfailure.trans hfailure'.symm)
  | error fault =>
    obtain ⟨houtput, hfailure⟩ := h.unfiltered fault hchosen
    obtain ⟨houtput', hfailure'⟩ := h'.unfiltered fault (hfilter ▸ hchosen)
    exact Report.agrees_of_failure (houtput.trans houtput'.symm)
      (hfailure.trans hfailure'.symm)

/-- Expressions as the lines of a text. -/
def ended (es : List (List Char)) : List Char := es.flatMap (· ++ ['\n'])

/-- **Lines that are heard are printed as expressions**, whatever carriage
returns they end with. -/
theorem prints_ended {es : List (List Char)} (h : ∀ e ∈ es, '\n' ∉ e) {last : List Char}
    (hlast : '\n' ∉ last) (hs : Settings.ofNodeOrDefault (around.node o.config) = .ok s) :
    Prints (o.asked []) (around.hearing (Utf8.encode (ended es ++ last))) s
      (o.lines s (es ++ if last = [] then [] else [last])) none := by
  have hprints : Prints (o.asked []) (around.hearing (Utf8.encode (ended es ++ last))) s _ _ :=
    prints_lines rfl hs
  have hread : Input.lines (Utf8.encode (ended es ++ last)) =
      ((es.map fun e => Input.withoutEnd (e ++ ['\n'])) ++ if last = [] then [] else [last],
        true) := by
    rw [Utf8.encode_append, ended, Input.lines_encode_append h]
    by_cases hnil : last = []
    · rw [if_pos hnil, hnil]
      rfl
    · rw [if_neg hnil, Input.lines_encode_last hnil hlast]
  have hlines : ∀ back, o.lines s ((es.map fun e => Input.withoutEnd (e ++ ['\n'])) ++ back) =
      o.lines s (es ++ back) := by
    intro back
    rw [Options.lines, Options.lines, List.flatMap_append, List.flatMap_append, List.flatMap_map]
    congr 1
    exact List.flatMap_congr fun e _ => printedLine_withoutEnd _ _ e
  rw [Surroundings.hearing, hread] at hprints
  exact hlines _ ▸ hprints

/-- **Expressions are printed alike from the command line and from the
input**, and a last line without a newline counts unless it is empty. -/
theorem run_lines {es : List (List Char)} {e : List Char} (h : ∀ l ∈ es ++ [e], '\n' ∉ l)
    (hs : Settings.ofNodeOrDefault (around.node o.config) = .ok s) :
    Prints (o.asked (es ++ [e])) around s (o.lines s es ++ o.lines s [e]) none ∧
      ((o.asked []).run (around.hearing (Utf8.encode (ended (es ++ [e]))))).Agrees
        ((o.asked (es ++ [e])).run around) ∧
      (e ≠ [] → ((o.asked []).run (around.hearing (Utf8.encode (ended es ++ e)))).Agrees
        ((o.asked (es ++ [e])).run around)) ∧
      (e = [] → Prints (o.asked []) (around.hearing (Utf8.encode (ended es ++ e))) s
        (o.lines s es) none) ∧
      ∀ filter, LogFilter.choose around.logFilter (o.fallbackFilter s) = .ok filter →
        ((o.asked (es ++ [e])).run around).exitCode = 0 ∧
          ((o.asked []).run (around.hearing (Utf8.encode (ended es ++ e)))).exitCode = 0 := by
  have hes : ∀ l ∈ es, '\n' ∉ l := fun l hl => h l (List.mem_append_left _ hl)
  have he : '\n' ∉ e := h e (List.mem_append_right _ List.mem_cons_self)
  have hnil : '\n' ∉ ([] : List Char) := List.not_mem_nil
  have hlines : o.lines s (es ++ [e]) = o.lines s es ++ o.lines s [e] := List.flatMap_append
  have hgiven : Prints (o.asked (es ++ [e])) around s (o.lines s es ++ o.lines s [e]) none := by
    have hne : (o.asked (es ++ [e])).expressions ≠ [] := by simp [Options.asked]
    rw [← hlines]
    exact prints_expressions hne hs
  -- with its last newline the input ends in an empty rest, which is no line
  have hended := prints_ended h hnil hs
  rw [List.append_nil, if_pos rfl, List.append_nil, hlines] at hended
  have hopen := prints_ended hes he hs
  refine ⟨hgiven, hended.agrees hgiven rfl, fun hne => ?_, fun hempty => ?_, ?_⟩
  · rw [if_neg hne, hlines] at hopen
    exact hopen.agrees hgiven rfl
  · rwa [if_pos hempty, List.append_nil] at hopen
  · intro filter hfilter
    exact ⟨hgiven.exitCode_eq hfilter, hopen.exitCode_eq hfilter⟩

/-- A line with a carriage return, and an empty one that has no newline. -/
theorem run_lines_empty :
    let o : Options := ⟨[], defaultConfig, none, false, false⟩
    let around : Surroundings := ⟨[], fun _ => .absent, none⟩
    (∀ l ∈ [['+', '\r']] ++ [[]], '\n' ∉ l) ∧
      Settings.ofNodeOrDefault (around.node o.config) = .ok .default ∧
      ((o.asked []).run (around.hearing [43, 13, 10, 10])).Agrees
        ((o.asked [['+', '\r'], []]).run around) ∧
      Prints (o.asked []) (around.hearing [43, 13, 10]) .default (o.lines .default [['+', '\r']])
        none := by
  intro o around
  have h : ∀ l ∈ [['+', '\r']] ++ [[]], '\n' ∉ l := by decide
  have hs : Settings.ofNodeOrDefault (around.node o.config) = .ok .default := rfl
  obtain ⟨-, hended, -, hopen, -⟩ := run_lines h hs
  exact ⟨h, hs, hended, hopen rfl⟩

end

end Abacus
