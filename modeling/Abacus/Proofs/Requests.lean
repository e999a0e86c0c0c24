import Abacus.Proofs.CommandLines
import Abacus.Proofs.Runs
import Mathlib.Data.List.Nodup

/-!
# Requests — what the command does with its arguments

A command line that is written as one and gives no option twice is a request,
and no other is (`request_ok_iff`). The command does what is asked for, and
what it does with any other command line is nothing but to fail with exit
code 2 (`command_cases`, `command_exitCode`). An option that is not known is
refused by its name, wherever it stands (`request_unknown`).

Where options stand and how they are spelled does not matter: two command
lines with the same options and the same expressions in the same order are
one request (`meant_perm`). What a run prints is what the command prints for
any command line of it (`command_expressions`, `command_input`).
-/

namespace Abacus

namespace CommandLine

variable {is js : List Item} {as bs : List (List Char)} {a : List Char} {ss : List Switch}
  {i? : Option Inquiry} {o : AnyOption}

/-- What a command line asks for: a text, or else a run. -/
def asked (js : List Item) : Option Inquiry → Request
  | none => .run (meant js)
  | some i => .inquiry i

/-- **A command line that gives no option twice is a request.** -/
theorem request_spelled (h : Spelled js i? as) (honce : Once js) :
    request as = .ok (asked js i?) := by
  obtain ⟨k, hread, hrun, hasks⟩ := h.readAll_eq
  rw [gather_start honce] at hread
  replace hread : readAll as = k (held js) := hread
  cases i? with
  | none =>
    obtain ⟨l, hl, hoptions⟩ := hrun rfl (held js)
    rw [request, hread, hl]
    exact congrArg (fun o => Except.ok (Request.run o)) (hoptions.trans (options_held js))
  | some i =>
    rw [request, hread, hasks i rfl]
    rfl

/-- **An option that is given twice is named**, the first of them. -/
theorem request_repeats (h : Spelled js i? as) (hrepeats : Repeats js o) :
    request as = .error (.repeated o) := by
  obtain ⟨k, hread, -⟩ := h.readAll_eq
  rw [gather_repeats hrepeats] at hread
  rw [request, hread]
  rfl

/-- What is read without a fault is written as a command line. -/
theorem spelled_of_request {r : Request} (h : request as = .ok r) : ∃ js i?, Spelled js i? as := by
  have hstart : start.Settled := ⟨rfl, rfl⟩
  have hfine : Fine (start.reads as) := by
    intro e he
    rw [request, readAll_eq, he] at h
    cases h
  exact (spelled_of_fine rfl hfine).1 hstart.free

/-- **Requests are the command lines that give no option twice**, and nothing
else is read as one. -/
theorem request_ok_iff {r : Request} :
    request as = .ok r ↔ ∃ js i?, Spelled js i? as ∧ Once js ∧ asked js i? = r := by
  constructor
  · intro h
    obtain ⟨js, i?, hjs⟩ := spelled_of_request h
    by_cases honce : Once js
    · have hr := request_spelled hjs honce
      rw [h] at hr
      exact ⟨js, i?, hjs, honce, (Except.ok.inj hr).symm⟩
    · obtain ⟨o, ho⟩ := exists_repeats honce
      rw [request_repeats hjs ho] at h
      cases h
  · rintro ⟨js, i?, hjs, honce, rfl⟩
    exact request_spelled hjs honce

/-- Letters that share an argument, a value behind an equals sign, and an
expression that begins with a dash. -/
example : request ["-sf=json".toList, ['1'], "--".toList, "-2".toList] =
    .ok (.run ⟨[['1'], "-2".toList], defaultConfig, some .json, true, false⟩) := rfl

/-! ## Options that are not known -/

/-- **An argument with an option that is not known**, behind switches: a long
name, perhaps with a value, or a letter. It is told by the name with its
dashes. -/
inductive Unknown : List Switch → List Char → List Char → Prop
  | long {name back : List Char} (hname : '=' ∉ name) (h : ∀ o : AnyOption, name ≠ o.long.toList)
      (hback : back.head? = some '=' ∨ back = []) (hne : name ++ back ≠ []) :
      Unknown [] ('-' :: '-' :: name) ('-' :: '-' :: (name ++ back))
  | letter {ss : List Switch} {front : List Char} {c : Char} {cs : List Char}
      (hfront : Letters ss .done front) (h : ∀ o : AnyOption, c ≠ o.letter)
      (hc : front = [] → c ≠ '-') :
      Unknown ss ['-', c] ('-' :: (front ++ c :: cs))

/-- What is no long name finds nothing. -/
theorem ofLong?_eq_none {name : List Char} (h : ∀ o : AnyOption, name ≠ o.long.toList) :
    AnyOption.ofLong? name = none := by
  rw [AnyOption.ofLong?, List.find?_eq_none]
  intro o _
  simpa using h o

/-- What is no letter of an option finds nothing. -/
theorem ofLetter?_eq_none {c : Char} (h : ∀ o : AnyOption, c ≠ o.letter) :
    AnyOption.ofLetter? c = none := by
  rw [AnyOption.ofLetter?, List.find?_eq_none]
  intro o _
  simpa using h o

/-- Switches in front of a letter that is not known are turned on first. -/
theorem readLetters_unknown {l : CommandLine} {front : List Char} {c : Char} (cs : List Char)
    (hl : l.Settled) (hfront : Letters ss .done front) (h : ∀ o : AnyOption, c ≠ o.letter) :
    l.readLetters (front ++ c :: cs) =
      l.gather (ss.map .switch) >>= fun _ => .error (.error (.unexpectedArgument ['-', c])) := by
  induction ss generalizing front l with
  | nil =>
    cases hfront
    rw [List.nil_append, readLetters, ofLetter?_eq_none h]
    rfl
  | cons s ss ih =>
    cases hfront with
    | switch _ hfront =>
      rw [List.cons_append, readLetters, ofLetter?_letter]
      dsimp only
      rw [List.map_cons, gather, List.foldlM_cons, bind_assoc]
      obtain ⟨e, he⟩ | ⟨l', hl', h'⟩ := take_cases hl (.switch s)
      · rw [he, show l.turnOn s = _ from he]
        rfl
      · rw [hl', show l.turnOn s = _ from hl']
        exact ih h' hfront

/-- **An argument with an option that is not known is refused by its name**,
whatever is held back. -/
theorem readArgument_unknown {l : CommandLine} {name : List Char} (hl : l.Free)
    (hsettle : l.settle = .ok (held js)) (honce : Once (js ++ ss.map .switch))
    (h : Unknown ss name a) :
    l.readArgument a = .error (.error (.unexpectedArgument name)) := by
  cases h with
  | @long name back hname h hback hne =>
    rw [readArgument_long hl.onlyExpressions hne, readLong]
    have htake : (name ++ back).takeWhile (· != '=') = name := by
      obtain hback | rfl := hback
      · obtain ⟨v, rfl⟩ := List.head?_eq_some_iff.1 hback
        exact (takeWhile_ne_equals hname).2 v
      · rw [List.append_nil]
        exact (takeWhile_ne_equals hname).1
    rw [htake, ofLong?_eq_none h]
  | @letter _ front c cs hfront h hc =>
    cases front with
    | nil =>
      rw [List.nil_append, readArgument_letters cs hl.onlyExpressions (hc rfl), readLetters,
        ofLetter?_eq_none h]
    | cons d front =>
      obtain ⟨s, rfl⟩ : ∃ s, d = (AnyOption.switch s).letter := by
        cases hfront with
        | switch s hfront => exact ⟨s, rfl⟩
      have hgather : (held js).gather (ss.map .switch) = .ok (held (js ++ ss.map .switch)) :=
        gather_held honce
      rw [List.cons_append, readArgument_letters _ hl.onlyExpressions (letter_ne_dash _),
        readLetters_settle (by simp), hsettle, ← List.cons_append]
      show (held js).readLetters _ = _
      rw [readLetters_unknown cs (settled_held js) hfront h, hgather]
      rfl

/-- **An option that is not known is named**, behind pieces that give no option
twice and whatever comes after it. -/
theorem request_unknown {name : List Char} (h : Pieces js as) (hu : Unknown ss name a)
    (honce : Once (js ++ ss.map .switch)) (bs : List (List Char)) :
    request (as ++ a :: bs) = .error (.unexpectedArgument name) := by
  have hfront : Once js := by
    rw [Once, given_append] at honce
    exact (List.nodup_append.1 honce).1
  have hstart : start.Settled := ⟨rfl, rfl⟩
  have hleads : Leads start as (start.gather js) := h.leads hstart.free
  rw [gather_start hfront] at hleads
  obtain ⟨l, hrow, hl, hsettle⟩ := hleads.exists_of_ok
  have hread : readAll (as ++ a :: bs) = .error (.error (.unexpectedArgument name)) := by
    rw [readAll, List.foldlM_append, hrow]
    show (a :: bs).foldlM readArgument l >>= settle = _
    rw [List.foldlM_cons, readArgument_unknown hl hsettle honce hu]
    rfl
  rw [request, hread]

/-- A name without control characters is repeated as it is. -/
theorem message_unexpectedArgument {name : List Char} (h : ∀ c ∈ name, Plain.isShown c) :
    (UsageError.unexpectedArgument name).message =
      "unexpected argument '".toList ++ name ++ "' found".toList := by
  have hmessage : (UsageError.unexpectedArgument name).message =
      "unexpected argument '".toList ++ plain name ++ "' found".toList := rfl
  rw [hmessage, plain_of_isShown h]

/-! ## Order and spelling -/

/-- What is given once is the same in every order. -/
theorem findSome?_perm {α : Type} {f : Item → Option α} {is js : List Item} (h : is.Perm js)
    (hone : (is.filterMap f).length ≤ 1) : is.findSome? f = js.findSome? f := by
  have hperm : (is.filterMap f).Perm (js.filterMap f) := h.filterMap f
  rw [← List.head?_filterMap, ← List.head?_filterMap]
  rcases hvalues : is.filterMap f with - | ⟨b, - | ⟨c, bs⟩⟩
  · rw [hvalues] at hperm
    rw [hperm.nil_eq]
  · rw [hvalues] at hperm
    rw [List.singleton_perm.1 hperm]
  · rw [hvalues] at hone
    simp at hone

/-- An option that is given once has one value at most. -/
theorem length_filterMap_le {α : Type} {f : Item → Option α}
    (hf : ∀ j, (f j).isSome ↔ j.option? = some o) (honce : Once js) :
    (js.filterMap f).length ≤ 1 := by
  have hcount : ∀ js : List Item, (js.filterMap f).length ≤ (given js).count o := by
    intro js
    induction js with
    | nil => exact Nat.le_refl 0
    | cons j js ih =>
      have hgiven : given (j :: js) = j.option?.toList ++ given js := by
        rw [given, given, List.filterMap_cons]
        cases j.option? <;> rfl
      rw [hgiven, List.count_append, List.filterMap_cons]
      cases hj : f j with
      | none => exact ih.trans (Nat.le_add_left _ _)
      | some b =>
        rw [(hf j).1 (by rw [hj]; rfl)]
        simp only [Option.toList_some, List.count_singleton_self, List.length_cons]
        omega
  exact (hcount js).trans (List.nodup_iff_count_le_one.1 honce o)

/-- **Options may stand in any order**, and expressions among them. -/
theorem meant_perm (h : is.Perm js) (honce : Once is)
    (hes : is.filterMap Item.expression? = js.filterMap Item.expression?) :
    meant is = meant js := by
  have hgiven : ∀ o, o ∈ given is ↔ o ∈ given js := fun o => (h.filterMap _).mem_iff
  have hpath := findSome?_perm h (length_filterMap_le Item.isSome_path? honce)
  have hformat := findSome?_perm h (length_filterMap_le Item.isSome_format? honce)
  simp only [meant, hes, hpath, hformat, hgiven]

end CommandLine

/-! ## The command -/

section

open CommandLine

variable {is js : List Item} {as bs : List (List Char)} {around : Surroundings}

/-- A run does not fail for its command line. -/
theorem Options.run_exitCode_ne (o : Options) (around : Surroundings) :
    (o.run around).exitCode ≠ 2 := by
  have hdone : ∀ (s : Settings) (input : List UInt8),
      (runWith o s input).2.1 = none ∨ (runWith o s input).2.1 = some .badInput := by
    intro s input
    unfold runWith
    split
    · dsimp only
      split
      · exact .inl rfl
      · exact .inr rfl
    · exact .inl rfl
  rw [Report.exitCode, Options.run]
  split
  · exact (by decide : (1 : Nat) ≠ 2)
  · split
    · exact (by decide : (101 : Nat) ≠ 2)
    · dsimp only
      obtain h | h := hdone (o.inForce _) around.input
      · rw [h]
        exact fun h => absurd h (by decide)
      · rw [h]
        exact fun h => absurd h (by decide)

/-- **A command line that asks for no text is run** as its items say. -/
theorem command_run (h : Spelled js none as) (honce : Once js) (around : Surroundings) :
    command as around = (meant js).run around := by
  rw [command, request_spelled h honce]
  rfl

/-- And a text that is asked for is all that is printed. -/
theorem command_inquiry {i : Inquiry} (h : Spelled js (some i) as) (honce : Once js)
    (around : Surroundings) : command as around = ⟨i.answer, none, []⟩ := by
  rw [command, request_spelled h honce]
  rfl

/-- **What the command does with its arguments**: it runs what they give, it
answers what they ask for, or they are no command line and it does nothing. -/
theorem command_cases (as : List (List Char)) (around : Surroundings) :
    (∃ js, Spelled js none as ∧ Once js ∧ command as around = (meant js).run around) ∨
      (∃ js i, Spelled js (some i) as ∧ Once js ∧ command as around = ⟨i.answer, none, []⟩) ∨
      (∀ js i?, Spelled js i? as → ¬ Once js) ∧
        ∃ e, command as around = ⟨[], some (.usage e), []⟩ := by
  cases hrequest : request as with
  | error e =>
    refine .inr (.inr ⟨fun js i? h honce => ?_, e, by rw [command, hrequest]⟩)
    rw [request_spelled h honce] at hrequest
    cases hrequest
  | ok r =>
    obtain ⟨js, i?, h, honce, -⟩ := request_ok_iff.1 hrequest
    cases i? with
    | none => exact .inl ⟨js, h, honce, command_run h honce around⟩
    | some i => exact .inr (.inl ⟨js, i, h, honce, command_inquiry h honce around⟩)

/-- **Exit code 2 is for arguments that are no command line**, and only for
them. -/
theorem command_exitCode :
    (command as around).exitCode = 2 ↔ ∀ js i?, Spelled js i? as → ¬ Once js := by
  obtain ⟨js, h, honce, hcommand⟩ | ⟨js, i, h, honce, hcommand⟩ | ⟨hnone, e, hcommand⟩ :=
    command_cases as around
  · rw [hcommand]
    exact ⟨fun h2 => absurd h2 (Options.run_exitCode_ne _ _),
      fun hall => absurd honce (hall js none h)⟩
  · rw [hcommand]
    exact ⟨fun h2 => absurd h2 (by decide : (0 : Nat) ≠ 2),
      fun hall => absurd honce (hall js (some i) h)⟩
  · rw [hcommand]
    exact ⟨fun _ => hnone, fun _ => rfl⟩

/-- **An option that is not known is all that the command tells of**: its line
repeats the name, and nothing is printed. -/
theorem command_unknown {ss : List Switch} {name a : List Char} (h : Pieces js as)
    (hu : Unknown ss name a) (honce : Once (js ++ ss.map .switch))
    (hname : ∀ c ∈ name, Plain.isShown c) (bs : List (List Char)) :
    ∃ failure, command (as ++ a :: bs) around = ⟨[], some failure, []⟩ ∧
      failure.message = "error: unexpected argument '".toList ++ name ++ "' found".toList := by
  refine ⟨.usage (.unexpectedArgument name), by rw [command, request_unknown h hu honce], ?_⟩
  have hmessage : (RunFailure.usage (.unexpectedArgument name)).message =
      "error: ".toList ++ (UsageError.unexpectedArgument name).message := rfl
  rw [hmessage, message_unexpectedArgument hname, ← List.append_assoc, ← List.append_assoc]
  rfl

/-- **Two command lines that give the same do the same**, however they are
spelled and in whatever order their options stand. -/
theorem command_congr (h : Spelled is none as) (h' : Spelled js none bs) (honce : Once is)
    (hperm : is.Perm js)
    (hes : is.filterMap Item.expression? = js.filterMap Item.expression?) :
    command as around = command bs around := by
  have honce' : Once js := (hperm.filterMap _).nodup_iff.1 honce
  rw [command_run h honce, command_run h' honce', meant_perm hperm honce hes]

/-- **The command prints a line for each expression of its command line**, in
the settings that it asks for. -/
theorem command_expressions {s : Settings} {filter : LogFilter} (h : Spelled js none as)
    (honce : Once js) (hne : (meant js).expressions ≠ [])
    (hs : Settings.ofNodeOrDefault (around.node (meant js).config) = .ok s)
    (hfilter : LogFilter.choose around.logFilter ((meant js).fallbackFilter s) = .ok filter) :
    (command as around).output = (meant js).lines s (meant js).expressions ∧
      (command as around).exitCode = 0 := by
  have hprints := prints_expressions hne hs
  rw [command_run h honce]
  exact ⟨(hprints.filtered filter hfilter).1, hprints.exitCode_eq hfilter⟩

/-- **Without expressions it prints a line for all that it hears**, and fails
if it does not hear all of its input. -/
theorem command_input {s : Settings} {filter : LogFilter} {ls : List (List Char)}
    {unheard : List (List UInt8)} (h : Spelled js none as) (honce : Once js)
    (hnone : (meant js).expressions = [])
    (hs : Settings.ofNodeOrDefault (around.node (meant js).config) = .ok s)
    (hfilter : LogFilter.choose around.logFilter ((meant js).fallbackFilter s) = .ok filter)
    (hheard : Input.Heard around.input ls unheard) :
    (command as around).output = (meant js).lines s ls ∧
      (command as around).exitCode = if unheard = [] then 0 else 1 := by
  have hprints := prints_lines hnone hs
  rw [hheard.lines_eq] at hprints
  rw [command_run h honce, hprints.exitCode_eq hfilter]
  refine ⟨(hprints.filtered filter hfilter).1, ?_⟩
  cases unheard with
  | nil => rfl
  | cons p ps => rfl

end

end Abacus
