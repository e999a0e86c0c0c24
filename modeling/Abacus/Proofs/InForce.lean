import Abacus.Proofs.Filters
import Abacus.Proofs.Runs

/-!
# In force — what the output of a run depends on

What a run prints is told by the expressions that it is asked for, its
format, and whether it shows spans (`prints_printed`). These come from the
command line and from the settings that are found, which are the defaults
where there are none. So nothing that is only about the log has a part in
it (`run_unlogged`), options come before the settings that were found and
may as well be spelled out there (`run_plain`, `run_spelledOut`), and
settings that cannot be had are told before anything is printed
(`run_precedence`). A run that has begun leaves what it prints as long as
its log has a filter, and filters of steady texts are always found
(`filtered_of_steady`).
-/

namespace Abacus

namespace Options

/-- The expressions that are asked for: those of the command line, or else
the lines of the input. -/
def asks (o : Options) (input : List UInt8) : List (List Char) :=
  if o.expressions.isEmpty then (Input.lines input).1 else o.expressions

/-- How a run ends that has begun: without a failure, unless it is to read
lines, and one is none. -/
def ending (o : Options) (input : List UInt8) : Option RunFailure :=
  if o.expressions.isEmpty && !(Input.lines input).2 then some .badInput else none

/-- The lines printed for what is asked for. -/
def printed (o : Options) (input : List UInt8) (format : Format) (showSpans : Bool) : List Char :=
  (o.asks input).flatMap (printedLine format showSpans)

/-- A run has a filter for its log. -/
def Filtered (o : Options) (around : Surroundings) (s : Settings) : Prop :=
  ∃ filter, LogFilter.choose around.logFilter (o.fallbackFilter s) = .ok filter

/-- **Options that ask for the same**, the log aside. -/
structure SameTask (o o' : Options) : Prop where
  expressions : o.expressions = o'.expressions
  config : o.config = o'.config
  format : o.format = o'.format
  spans : o.spans = o'.spans

/-- The same options without those that come before settings. -/
def plain (o : Options) : Options := { o with format := none, spans := false }

end Options

/-- The same surroundings with something else under a path. -/
def Surroundings.holding (around : Surroundings) (path : List Char) (n : Node) : Surroundings :=
  { around with node := fun p => if p = path then n else around.node p }

/-- Reports that differ in their logs at most: the same is printed, they end
with the same code, and fail with the same words or not at all. -/
structure Report.Alike (a b : Report) : Prop extends a.Agrees b where
  message : a.failure.map RunFailure.message = b.failure.map RunFailure.message

section

variable {o o' : Options} {around around' : Surroundings} {s s' : Settings}
variable {output : List Char} {failure : Option RunFailure}

/-! ## What is printed -/

/-- **A run prints a line for each expression that it is asked for.** -/
theorem prints_printed (hs : Settings.ofNodeOrDefault (around.node o.config) = .ok s) :
    Prints o around s
      (o.printed around.input (o.format.getD s.format) (s.showSpans || o.spans))
      (o.ending around.input) := by
  by_cases hnone : o.expressions = []
  · have hprints := prints_lines hnone hs
    have hending : o.ending around.input =
        if (Input.lines around.input).2 then none else some .badInput := by
      rw [Options.ending, hnone]
      cases (Input.lines around.input).2 <;> rfl
    rw [hending, Options.printed, Options.asks, hnone]
    exact hprints
  · have hisEmpty : o.expressions.isEmpty = false := by simpa using hnone
    rw [Options.ending, Options.printed, Options.asks, hisEmpty]
    exact prints_expressions hnone hs

theorem Report.alike_of_failure {a b : Report} (houtput : a.output = b.output)
    (hfailure : a.failure = b.failure) : a.Alike b :=
  ⟨Report.agrees_of_failure houtput hfailure, by rw [hfailure]⟩

/-- Without a filter nothing is left of what is printed. -/
theorem Prints.of_not_filtered (h : Prints o around s output failure)
    (hfiltered : ¬ o.Filtered around s) :
    (o.run around).output = [] ∧ (o.run around).failure = some .badFilter := by
  cases hchosen : LogFilter.choose around.logFilter (o.fallbackFilter s) with
  | ok filter => exact absurd ⟨filter, hchosen⟩ hfiltered
  | error fault => exact h.unfiltered fault hchosen

/-- Runs that print the same leave the same, if both have a filter or
neither has. -/
theorem Prints.alike (h : Prints o around s output failure)
    (h' : Prints o' around' s' output failure)
    (hfiltered : o.Filtered around s ↔ o'.Filtered around' s') :
    (o.run around).Alike (o'.run around') := by
  by_cases hchosen : o.Filtered around s
  · obtain ⟨filter, hfilter⟩ := hchosen
    obtain ⟨filter', hfilter'⟩ := hfiltered.1 ⟨filter, hfilter⟩
    obtain ⟨houtput, hfailure⟩ := h.filtered filter hfilter
    obtain ⟨houtput', hfailure'⟩ := h'.filtered filter' hfilter'
    exact Report.alike_of_failure (houtput.trans houtput'.symm) (hfailure.trans hfailure'.symm)
  · obtain ⟨houtput, hfailure⟩ := h.of_not_filtered hchosen
    obtain ⟨houtput', hfailure'⟩ := h'.of_not_filtered (mt hfiltered.2 hchosen)
    exact Report.alike_of_failure (houtput.trans houtput'.symm) (hfailure.trans hfailure'.symm)

/-! ## Filters have no part in it -/

/-- The filter of the defaults is steady. -/
theorem Settings.steady_default : LogFilter.Steady Settings.default.logFilter :=
  LogFilter.steady_of_ascii (by decide +kernel)

theorem steady_fallbackFilter (h : LogFilter.Steady s.logFilter) :
    LogFilter.Steady (o.fallbackFilter s) := by
  rw [Options.fallbackFilter]
  split
  · exact LogFilter.steady_of_ascii (by decide +kernel)
  · exact h

/-- **Steady texts are filters, or the fallback is one.** -/
theorem filtered_of_steady (henvironment : ∀ text ∈ around.logFilter, LogFilter.Steady text)
    (hsettings : LogFilter.Steady s.logFilter) : o.Filtered around s :=
  LogFilter.exists_choose henvironment (steady_fallbackFilter hsettings)

/-- **What is logged has no part in what is printed.** Of two runs that ask
for the same, of the same input, in settings with the same format that show
spans or not, each prints and ends as the other: whether debugging is asked
for, whatever filter the environment has, if any, and whatever filter is in
the settings. Only where one of them has no filter do they differ. -/
theorem run_unlogged (htask : o.SameTask o') (hinput : around.input = around'.input)
    (hs : Settings.ofNodeOrDefault (around.node o.config) = .ok s)
    (hs' : Settings.ofNodeOrDefault (around'.node o'.config) = .ok s')
    (hformat : s.format = s'.format) (hspans : s.showSpans = s'.showSpans) :
    (∃ output failure, Prints o around s output failure ∧ Prints o' around' s' output failure) ∧
      ((o.Filtered around s ↔ o'.Filtered around' s') → (o.run around).Alike (o'.run around')) ∧
      ((∀ text ∈ around.logFilter, LogFilter.Steady text) → LogFilter.Steady s.logFilter →
        (∀ text ∈ around'.logFilter, LogFilter.Steady text) → LogFilter.Steady s'.logFilter →
        (o.run around).Alike (o'.run around')) := by
  have hprints := prints_printed hs
  have hprints' := prints_printed hs'
  have hprinted : o'.printed around'.input (o'.format.getD s'.format) (s'.showSpans || o'.spans) =
      o.printed around.input (o.format.getD s.format) (s.showSpans || o.spans) := by
    rw [Options.printed, Options.printed, Options.asks, Options.asks, htask.expressions,
      htask.format, htask.spans, hinput, hformat, hspans]
  have hending : o'.ending around'.input = o.ending around.input := by
    rw [Options.ending, Options.ending, htask.expressions, hinput]
  rw [hprinted, hending] at hprints'
  refine ⟨⟨_, _, hprints, hprints'⟩, fun hfiltered => hprints.alike hprints' hfiltered,
    fun henvironment hsettings henvironment' hsettings' => hprints.alike hprints' ?_⟩
  exact ⟨fun _ => filtered_of_steady henvironment' hsettings',
    fun _ => filtered_of_steady henvironment hsettings⟩

/-- A line and a byte that begins no character, once without any filter
asked for, and once with debugging, an environment's text that is no filter,
and settings for the log. -/
theorem run_unlogged_refused :
    let o : Options := ⟨[], defaultConfig, none, false, false⟩
    let o' : Options := ⟨[], defaultConfig, none, false, true⟩
    let around : Surroundings := ⟨[43, 10, 255], fun _ => .absent, none⟩
    let around' : Surroundings := ⟨[43, 10, 255],
      fun _ => .file (Utf8.encode "\x7b\"log_filter\":\"trace\"\x7d".toList), some ['é', '[']⟩
    let s : Settings := { Settings.default with logFilter := "trace".toList }
    o.SameTask o' ∧ Settings.ofNodeOrDefault (around.node o.config) = .ok .default ∧
      Settings.ofNodeOrDefault (around'.node o'.config) = .ok s ∧
      (o.run around).Alike (o'.run around') := by
  intro o o' around around' s
  have htask : o.SameTask o' := ⟨rfl, rfl, rfl, rfl⟩
  have hs : Settings.ofNodeOrDefault (around.node o.config) = .ok .default := rfl
  have hs' : Settings.ofNodeOrDefault (around'.node o'.config) = .ok s := by decide +kernel
  have htrace : LogFilter.Steady s.logFilter := LogFilter.steady_of_ascii (by decide +kernel)
  have hopen : LogFilter.Steady ['é', '['] := fun p hp => by
    obtain rfl : p = ['é', '['] := by simpa [LogFilter.parts, LogFilter.parts.pieces] using hp
    exact Directive.steady_of_stops (Stops.cons.2 (by decide))
  have hinput : around.input = around'.input := rfl
  refine ⟨htask, hs, hs',
    (run_unlogged htask hinput hs hs' rfl rfl).2.2 ?_ Settings.steady_default ?_ htrace⟩
  · simp [around]
  · simpa [around'] using hopen

/-! ## Settings that are found -/

theorem Settings.ofNodeOrDefault_of_ne {n : Node} (h : n ≠ .absent) :
    Settings.ofNodeOrDefault n = Settings.ofNode n := by
  cases n with
  | absent => exact absurd rfl h
  | file bytes => rfl
  | directory => rfl

theorem Settings.ofNodeOrDefault_of_ok {n : Node} (h : Settings.ofNode n = .ok s) :
    Settings.ofNodeOrDefault n = .ok s := by
  have hne : n ≠ .absent := by
    rintro rfl
    cases h
  rw [ofNodeOrDefault_of_ne hne, h]

/-- A run reads nothing of its surroundings but the settings, the input and
the environment's filter. -/
theorem run_congr (hinput : around.input = around'.input)
    (hfilter : around.logFilter = around'.logFilter)
    (hnode : Settings.ofNodeOrDefault (around.node o.config) =
      Settings.ofNodeOrDefault (around'.node o.config)) : o.run around = o.run around' := by
  rw [Options.run, Options.run, hinput, hfilter, hnode]

theorem node_holding (around : Surroundings) (path : List Char) (n : Node) :
    (around.holding path n).node path = n := if_pos rfl

/-- An object without members is the defaults. -/
theorem Settings.ofNode_empty : Settings.ofNode (.file (Utf8.encode "\x7b\x7d".toList)) =
    .ok .default := by
  decide +kernel

/-- Settings in a format that show spans, spelled out. -/
def Settings.spelledOut (f : Format) : List Char :=
  "\x7b\"format\":\"".toList ++ f.word.toList ++ "\",\"show_spans\":true\x7d".toList

theorem Settings.ofNode_spelledOut (f : Format) :
    Settings.ofNode (.file (Utf8.encode (spelledOut f))) =
      .ok { Settings.default with format := f, showSpans := true } := by
  cases f <;> decide +kernel

/-- Options that come before nothing leave settings as they are. -/
theorem inForce_plain (o : Options) (s : Settings) : o.plain.inForce s = s := by
  cases s
  simp [Options.inForce, Options.plain]

/-- **Options may as well be settings**: a run with what is in force in its
settings leaves all that it leaves with options, its log as well. -/
theorem run_plain {n : Node} (hs : Settings.ofNode (around.node o.config) = .ok s)
    (hn : Settings.ofNode n = .ok (o.inForce s)) :
    o.plain.run (around.holding o.config n) = o.run around := by
  have hnode : Settings.ofNodeOrDefault ((around.holding o.config n).node o.plain.config) =
      .ok (o.inForce s) := by
    rw [show o.plain.config = o.config from rfl, node_holding]
    exact Settings.ofNodeOrDefault_of_ok hn
  have hfallback : o.plain.fallbackFilter (o.inForce s) = o.fallbackFilter s := rfl
  rw [Options.run, Options.run, hnode, Settings.ofNodeOrDefault_of_ok hs]
  dsimp only
  rw [hfallback, inForce_plain]
  rfl

/-- **Options may be spelled out as settings**, whatever the settings were
that they came before. -/
theorem run_spelledOut {f : Format} (hs : Settings.ofNode (around.node o.config) = .ok s)
    (hformat : o.format = some f) (hspans : o.spans = true) (hfiltered : o.Filtered around s) :
    (o.plain.run (around.holding o.config (.file (Utf8.encode (Settings.spelledOut f))))).Alike
      (o.run around) := by
  let n : Node := .file (Utf8.encode (Settings.spelledOut f))
  let spelled : Settings := { Settings.default with format := f, showSpans := true }
  have hnode : Settings.ofNodeOrDefault ((around.holding o.config n).node o.plain.config) =
      .ok spelled := by
    rw [show o.plain.config = o.config from rfl, node_holding]
    exact Settings.ofNodeOrDefault_of_ok (Settings.ofNode_spelledOut f)
  have hprints := prints_printed (Settings.ofNodeOrDefault_of_ok hs)
  have hprints' : Prints o.plain (around.holding o.config n) spelled _ _ := prints_printed hnode
  rw [hformat, hspans, Bool.or_true] at hprints
  obtain ⟨filter, hfilter⟩ := hfiltered
  refine Prints.alike hprints' hprints ⟨fun _ => ⟨filter, hfilter⟩, fun _ => ?_⟩
  exact LogFilter.exists_choose_of_choose hfilter (steady_fallbackFilter Settings.steady_default)

/-- **Options come before settings, and bad settings before all.** Where
nothing is found a run is the same as with an object without members.
Settings that are found decide the format that no option gives, and spans
are shown if they or an option ask for it, so options leave what settings
would that spell them out. Settings that cannot be had end a run before it
prints. -/
theorem run_precedence (o : Options) (around : Surroundings) :
    (around.node o.config = .absent →
      o.run around = o.run (around.holding o.config (.file (Utf8.encode "\x7b\x7d".toList)))) ∧
    (∀ c, Settings.ofNode (around.node o.config) = .ok c →
      Prints o around c
        (o.printed around.input (o.format.getD c.format) (c.showSpans || o.spans))
        (o.ending around.input) ∧
      (∀ n, Settings.ofNode n = .ok (o.inForce c) →
        o.plain.run (around.holding o.config n) = o.run around) ∧
      ∀ f, o.format = some f → o.spans = true → o.Filtered around c →
        (o.plain.run (around.holding o.config
          (.file (Utf8.encode (Settings.spelledOut f))))).Alike (o.run around)) ∧
    ∀ e, around.node o.config ≠ .absent → Settings.ofNode (around.node o.config) = .error e →
      o.run around = ⟨[], some (.settings e), []⟩ ∧ (o.run around).exitCode = 1 ∧
        (o.run around).failure.map RunFailure.message = some ("Error: ".toList ++ e.message) := by
  refine ⟨fun habsent => ?_, fun c hc => ⟨?_, fun n hn => run_plain hc hn, ?_⟩, ?_⟩
  · refine run_congr rfl rfl ?_
    rw [habsent, node_holding]
    exact (Settings.ofNodeOrDefault_of_ok Settings.ofNode_empty).symm
  · exact prints_printed (Settings.ofNodeOrDefault_of_ok hc)
  · intro f hformat hspans hfiltered
    exact run_spelledOut hc hformat hspans hfiltered
  · intro e hne he
    have hrun : o.run around = ⟨[], some (.settings e), []⟩ := by
      rw [Options.run, Settings.ofNodeOrDefault_of_ne hne, he]
    rw [hrun]
    exact ⟨rfl, rfl, rfl⟩

/-- Both options over nothing, over an object without members, and over a
directory. -/
theorem run_precedence_symbol :
    let o : Options := ⟨[['+']], defaultConfig, some .json, true, false⟩
    let around : Node → Surroundings := fun n => ⟨[], fun _ => n, none⟩
    let n : Node := .file (Utf8.encode "\x7b\x7d".toList)
    o.run (around .absent) = o.run ((around .absent).holding o.config n) ∧
      Settings.ofNode ((around n).node o.config) = .ok .default ∧
      Prints o (around n) .default (o.printed [] .json true) none ∧
      (o.plain.run ((around n).holding o.config
        (.file (Utf8.encode (Settings.spelledOut .json))))).Alike (o.run (around n)) ∧
      (o.run (around .directory)).output = [] ∧ (o.run (around .directory)).exitCode = 1 := by
  intro o around n
  have hn : Settings.ofNode ((around n).node o.config) = .ok .default := Settings.ofNode_empty
  have hfiltered : o.Filtered (around n) .default := ⟨_, rfl⟩
  obtain ⟨hprints, -, hspelled⟩ := (run_precedence o (around n)).2.1 _ hn
  obtain ⟨hrun, hcode, -⟩ :=
    (run_precedence o (around .directory)).2.2 .isDirectory (by simp [around]) rfl
  refine ⟨(run_precedence o (around .absent)).1 rfl, hn, hprints, hspelled .json rfl rfl hfiltered,
    ?_, hcode⟩
  rw [hrun]

end

end Abacus
