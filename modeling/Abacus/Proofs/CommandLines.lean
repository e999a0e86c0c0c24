import Abacus.Proofs.Arguments

/-!
# Command lines — arguments in a row

A command line is a row of pieces: an expression, an argument of options, or
two arguments where the second is the value that the first waits for
(`Piece`). Behind the pieces it ends, goes on with expressions only, or asks
for a text (`Spelled`). It is read as its items and its end
(`Spelled.readAll_eq`), and what is read without a fault is written so
(`spelled_of_fine`).

The reader holds a value back until the next argument, so a line that was
read so far is known by what it settles to (`Leads`). That relation is closed
under pieces in a row, and each of the three ends is read behind it.
-/

namespace Abacus

namespace CommandLine

/-! ## How a command line is written -/

/-- **A piece of a command line** with the items it gives. -/
inductive Piece : List Item → List (List Char) → Prop
  | expression {e : List Char} (h : IsPlain e) : Piece [.expression e] [e]
  | switches {ss : List Switch} {a : List Char} (h : OptionArgument ss .done a) :
      Piece (ss.map .switch) [a]
  | value {ss : List Switch} {a : List Char} {j : Item} (h : OptionArgument ss (.value j) a) :
      Piece (ss.map .switch ++ [j]) [a]
  | next {ss : List Switch} {o : ValueOption} {a v : List Char} {j : Item}
      (h : OptionArgument ss (.waits o) a) (hv : IsPlain v) (hj : Gives o v j) :
      Piece (ss.map .switch ++ [j]) [a, v]

/-- Pieces in a row. -/
inductive Pieces : List Item → List (List Char) → Prop
  | nil : Pieces [] []
  | cons {is js : List Item} {as bs : List (List Char)} (h : Piece is as) (hs : Pieces js bs) :
      Pieces (is ++ js) (as ++ bs)

/-- **A command line as it may be written**, with the items it gives and the
text it asks for, if any. -/
inductive Spelled : List Item → Option Inquiry → List (List Char) → Prop
  | pieces {js : List Item} {as : List (List Char)} (h : Pieces js as) : Spelled js none as
  | expressions {js : List Item} {as : List (List Char)} (h : Pieces js as)
      (es : List (List Char)) :
      Spelled (js ++ es.map .expression) none (as ++ ['-', '-'] :: es)
  | asks {js : List Item} {as : List (List Char)} {ss : List Switch} {i : Inquiry} {a : List Char}
      (h : Pieces js as) (ha : OptionArgument ss (.asks i) a) (bs : List (List Char)) :
      Spelled (js ++ ss.map .switch) (some i) (as ++ a :: bs)

variable {l l' : CommandLine} {is js : List Item} {as bs : List (List Char)} {a v : List Char}
  {ss : List Switch} {end? : Ending} {j : Item} {o : ValueOption} {x : Except Stop CommandLine}

/-- A piece in front of a command line. -/
theorem Spelled.cons {i? : Option Inquiry} (h : Piece is as) (hs : Spelled js i? bs) :
    Spelled (is ++ js) i? (as ++ bs) := by
  cases hs with
  | pieces hs => exact .pieces (.cons h hs)
  | expressions hs es =>
    rw [← List.append_assoc, ← List.append_assoc]
    exact .expressions (.cons h hs) es
  | asks hs ha bs =>
    rw [← List.append_assoc, ← List.append_assoc]
    exact .asks (.cons h hs) ha bs

/-! ## Arguments in a row -/

/-- **Arguments lead a line to what it settles to**: they are refused, or
there is a line that no option waits in. -/
inductive Leads (l : CommandLine) (as : List (List Char)) : Except Stop CommandLine → Prop
  | stops {e : Stop} (h : as.foldlM readArgument l = .error e) : Leads l as (.error e)
  | goesOn {l' : CommandLine} (h : as.foldlM readArgument l = .ok l') (free : l'.Free) :
      Leads l as l'.settle

/-- Where arguments lead to a line, they are not refused. -/
theorem Leads.exists_of_ok (h : Leads l as (.ok l')) :
    ∃ m, as.foldlM readArgument l = .ok m ∧ m.Free ∧ m.settle = .ok l' := by
  generalize hx : Except.ok l' = x at h ⊢
  cases h with
  | stops h => cases hx
  | goesOn h free => exact ⟨_, h, free, rfl⟩

/-- Arguments that come to other arguments of another line lead where those
lead. -/
theorem Leads.of_row (h : Leads l' bs x)
    (hrow : as.foldlM readArgument l = bs.foldlM readArgument l') : Leads l as x := by
  cases h with
  | stops h => exact .stops (hrow.trans h)
  | goesOn h free => exact .goesOn (hrow.trans h) free

/-- Rows of arguments are read one behind the other. -/
theorem Leads.append {k : CommandLine → Except Stop CommandLine} (h : Leads l as x)
    (hs : ∀ l', l'.Free → Leads l' bs (l'.settle >>= k)) : Leads l (as ++ bs) (x >>= k) := by
  cases h with
  | stops h => exact .stops (by rw [List.foldlM_append, h]; rfl)
  | @goesOn l' h free => exact (hs l' free).of_row (by rw [List.foldlM_append, h]; rfl)

/-- An argument that settles what is held back and then gives items. -/
theorem leads_of_gather (hl : l.Free) (h : l.readArgument a = l.settle >>= fun l' => l'.gather is) :
    Leads l [a] (l.settle >>= fun l' => l'.gather is) := by
  have hrow : [a].foldlM readArgument l = l.readArgument a := bind_pure _
  obtain ⟨e, he⟩ | ⟨l', hl', hpending, honly⟩ := settle_cases l
  · rw [he] at h ⊢
    exact .stops (hrow.trans h)
  · rw [hl'] at h ⊢
    replace h : [a].foldlM readArgument l = l'.gather is := hrow.trans h
    show Leads l [a] (l'.gather is)
    obtain ⟨e, he⟩ | ⟨m, hm, hsettled⟩ := gather_cases ⟨hpending, honly.trans hl.onlyExpressions⟩ is
    · rw [he] at h ⊢
      exact .stops h
    · rw [hm] at h ⊢
      rw [← settle_of_pending hsettled.pending]
      exact .goesOn h hsettled.free

/-- An option that has its value waits for nothing. -/
theorem free_holding (honly : l.onlyExpressions = false) (o : ValueOption) (v : List Char) :
    (l.holding o (some v)).Free :=
  ⟨fun _ h => (nomatch congrArg (Option.map Pending.value) h), honly⟩

/-- The value that an option waits for is held back, and settles to its item. -/
theorem Gives.leads (h : Gives o v j) (hv : IsPlain v) (hl : l.Settled) :
    Leads (l.holding o none) [v] (l.take j) := by
  have honly : (l.holding o none).onlyExpressions = false := hl.onlyExpressions
  have hrow : [v].foldlM readArgument (l.holding o none) = .ok (l.holding o (some v)) := by
    rw [List.foldlM_cons, readArgument_plain honly hv]
    rfl
  have hsettle : (l.holding o (some v)).settle = l.take j := by
    rw [← h.take_eq, settle, holding]
    dsimp only
    rw [← hl.pending]
  exact hsettle ▸ .goesOn hrow (free_holding honly o v)

/-- **A piece leads a line to its items**, behind what was held back. -/
theorem Piece.leads (h : Piece is as) (hl : l.Free) :
    Leads l as (l.settle >>= fun l' => l'.gather is) := by
  cases h with
  | @expression e h =>
    refine leads_of_gather hl ?_
    rw [readArgument_expression hl h]
    simp only [gather_singleton]
    exact (settle_bind_settle l _).symm
  | switches h =>
    refine leads_of_gather hl ?_
    rw [readArgument_options hl.onlyExpressions h]
    exact congrArg (l.settle >>= ·) (funext fun l' => bind_pure _)
  | @value ss a j h =>
    refine leads_of_gather hl ?_
    rw [readArgument_options hl.onlyExpressions h]
    refine congrArg (l.settle >>= ·) (funext fun l' => ?_)
    rw [gather_append]
    simp only [gather_singleton]
    rfl
  | @next ss o a v j h hv hj =>
    have hargument := readArgument_options hl.onlyExpressions h
    obtain ⟨e, he⟩ | ⟨l', hl', hpending, honly⟩ := settle_cases l
    · rw [he] at hargument ⊢
      exact .stops (by rw [List.foldlM_cons, hargument]; rfl)
    · rw [hl'] at hargument ⊢
      replace hargument : l.readArgument a = l'.gather (ss.map .switch) >>= (·.finish (.waits o)) :=
        hargument
      show Leads l [a, v] (l'.gather (ss.map .switch ++ [j]))
      rw [gather_append]
      obtain ⟨e, he⟩ | ⟨m, hm, hsettled⟩ :=
        gather_cases ⟨hpending, honly.trans hl.onlyExpressions⟩ (ss.map .switch)
      · rw [he] at hargument ⊢
        exact .stops (by rw [List.foldlM_cons, hargument]; rfl)
      · rw [hm] at hargument ⊢
        show Leads l [a, v] (m.gather [j])
        rw [gather_singleton]
        exact (hj.leads hv hsettled).of_row (by rw [List.foldlM_cons, hargument]; rfl)

/-- **Pieces lead a line to their items.** -/
theorem Pieces.leads (h : Pieces js as) (hl : l.Free) :
    Leads l as (l.settle >>= fun l' => l'.gather js) := by
  induction h generalizing l with
  | nil =>
    have hsettle : (l.settle >>= fun l' => l'.gather []) = l.settle := bind_pure _
    rw [hsettle]
    exact .goesOn rfl hl
  | cons h hs ih =>
    simp only [gather_append, ← bind_assoc]
    exact (h.leads hl).append fun l' hl' => ih hl'

/-! ## The three ends -/

/-- What is read of a line to its end. -/
def reads (l : CommandLine) (as : List (List Char)) : Except Stop CommandLine :=
  as.foldlM readArgument l >>= settle

/-- A command line is read from a line that says nothing. -/
theorem readAll_eq (as : List (List Char)) : readAll as = reads start as := rfl

/-- An end is read behind what a line settles to. -/
theorem Leads.reads {k : CommandLine → Except Stop CommandLine} (h : Leads l as x)
    (hk : ∀ l' : CommandLine, l'.Free → l'.reads bs = l'.settle >>= k) :
    l.reads (as ++ bs) = x >>= k := by
  cases h with
  | stops h =>
    rw [CommandLine.reads, List.foldlM_append, h]
    rfl
  | @goesOn l' h free =>
    rw [← hk l' free, CommandLine.reads, List.foldlM_append, h]
    rfl

/-- A line with more expressions. -/
def adding (l : CommandLine) (es : List (List Char)) : CommandLine :=
  { l with expressions := l.expressions ++ es }

/-- Where only expressions come, all arguments are. -/
theorem reads_expressions (honly : l.onlyExpressions) (es : List (List Char)) :
    l.reads es = l.settle >>= fun l' => .ok (l'.adding es) := by
  induction es generalizing l with
  | nil =>
    simp only [adding, List.append_nil]
    exact (bind_pure l.settle).symm
  | cons e es ih =>
    have hargument : l.readArgument e = l.settle >>= fun l' => .ok (l'.adding [e]) := if_pos honly
    rw [reads, List.foldlM_cons, hargument]
    obtain ⟨f, hf⟩ | ⟨l', hl', hpending, honly'⟩ := settle_cases l
    · rw [hf]
      rfl
    · rw [hl']
      have hback : (l'.adding [e]).reads es = _ := ih (honly'.trans honly)
      have hadding : (l'.adding [e]).settle = .ok (l'.adding [e]) := settle_of_pending hpending
      rw [hadding] at hback
      refine hback.trans ?_
      show Except.ok ((l'.adding [e]).adding es) = Except.ok (l'.adding (e :: es))
      simp [adding]

/-- Expressions are taken whatever there is. -/
theorem gather_expressions (hl : l.Settled) (es : List (List Char)) :
    l.gather (es.map .expression) = .ok (l.adding es) := by
  induction es generalizing l with
  | nil => simp [gather, adding, pure, Except.pure]
  | cons e es ih =>
    have htake : l.take (.expression e) = .ok (l.adding [e]) := by
      rw [take, addExpression, settle_of_pending hl.pending]
      rfl
    have hback := ih (l := l.adding [e]) ⟨hl.pending, hl.onlyExpressions⟩
    rw [List.map_cons, gather, List.foldlM_cons, htake]
    refine hback.trans ?_
    simp [adding]

/-- A line in which only expressions come. -/
def closed (l : CommandLine) : CommandLine := { l with onlyExpressions := true }

/-- What is held back settles as before if only expressions come. -/
theorem settle_closed (l : CommandLine) :
    l.closed.settle = l.settle >>= fun l' => .ok l'.closed := by
  have hgive : ∀ (l : CommandLine) (o : ValueOption) (v : List Char),
      l.closed.give o v = l.give o v >>= fun l' => .ok l'.closed := by
    intro l o v
    cases o with
    | config =>
      simp only [give]
      show (if l.config.isSome then _ else _) = _
      split
      · rfl
      · split <;> rfl
    | format =>
      simp only [give]
      show (if l.format.isSome then _ else _) = _
      split
      · rfl
      · split
        · rfl
        · cases Format.ofWord? v <;> rfl
  have hpending : l.closed.pending = l.pending := rfl
  rw [settle, settle, hpending]
  split
  · rfl
  · rfl
  · exact hgive { l with pending := none } _ _

/-- Two dashes leave what is held back for later. -/
theorem readArgument_dashes (honly : l.onlyExpressions = false) :
    l.readArgument ['-', '-'] = .ok l.closed := by
  rw [readArgument, if_neg (by simp [honly])]
  rfl

/-- So everything behind them is an expression. -/
theorem reads_dashes (hl : l.Free) (es : List (List Char)) :
    l.reads (['-', '-'] :: es) = l.settle >>= fun l' => .ok (l'.adding es).closed := by
  rw [reads, List.foldlM_cons, readArgument_dashes hl.onlyExpressions]
  show l.closed.reads es = _
  rw [reads_expressions rfl, settle_closed, bind_assoc]
  rfl

/-- A text that is asked for ends the reading, behind what is held back. -/
theorem reads_asks {i : Inquiry} (hl : l.Free) (h : OptionArgument ss (.asks i) a) :
    l.reads (a :: bs) = l.settle >>= fun l' =>
      l'.gather (ss.map .switch) >>= fun _ => .error (.inquiry i) := by
  rw [reads, List.foldlM_cons, readArgument_options hl.onlyExpressions h]
  obtain ⟨e, he⟩ | ⟨l', hl', hpending, honly⟩ := settle_cases l
  · rw [he]
    rfl
  · rw [hl']
    show ((l'.gather (ss.map .switch) >>= fun _ => _) >>= _) >>= _ = _
    rw [bind_assoc, bind_assoc]
    rfl

/-- **A command line is read as its items and its end**: nothing, perhaps in a
line that only expressions came to, or a text that is asked for. -/
theorem Spelled.readAll_eq {i? : Option Inquiry} (h : Spelled js i? as) :
    ∃ k : CommandLine → Except Stop CommandLine, readAll as = start.gather js >>= k ∧
      (i? = none → ∀ l, ∃ l', k l = .ok l' ∧ l'.options = l.options) ∧
      ∀ i, i? = some i → ∀ l, k l = .error (.inquiry i) := by
  have hstart : start.Settled := ⟨rfl, rfl⟩
  cases h with
  | pieces h =>
    refine ⟨.ok, ?_, fun _ l => ⟨l, rfl, rfl⟩, nofun⟩
    have hend : ∀ l' : CommandLine, l'.Free → l'.reads [] = l'.settle >>= .ok :=
      fun l' _ => (bind_pure _).symm
    have hread := (h.leads hstart.free).reads hend
    rwa [List.append_nil] at hread
  | @expressions js as h es =>
    refine ⟨fun l => .ok l.closed, ?_, fun _ l => ⟨l.closed, rfl, rfl⟩, nofun⟩
    refine ((h.leads hstart.free).reads fun l' hl' => reads_dashes hl' es).trans ?_
    show start.gather js >>= _ = _
    rw [gather_append]
    obtain ⟨e, he⟩ | ⟨l', hl', hsettled⟩ := gather_cases hstart js
    · rw [he]
      rfl
    · rw [hl']
      show _ = l'.gather (es.map .expression) >>= _
      rw [gather_expressions hsettled]
      rfl
  | @asks js as ss i a h ha bs =>
    refine ⟨fun _ => .error (.inquiry i), ?_, nofun, fun j hj l => by cases hj; rfl⟩
    refine ((h.leads hstart.free).reads fun l' hl' => reads_asks hl' ha).trans ?_
    show start.gather js >>= _ = _
    rw [gather_append, bind_assoc]

/-! ## Nothing else is read -/

/-- A line is read one argument at a time. -/
theorem reads_cons (l : CommandLine) (a : List Char) (as : List (List Char)) :
    l.reads (a :: as) = l.readArgument a >>= fun l' => l'.reads as := by
  rw [reads, List.foldlM_cons, bind_assoc]
  rfl

/-- What is held back is fine if all is. -/
theorem fine_settle (hl : l.Free) (h : Fine (l.reads as)) : Fine l.settle := by
  cases as with
  | nil => exact h
  | cons a as =>
    have hfirst : Fine (l.readArgument a) := Fine.of_bind (reads_cons l a as ▸ h)
    obtain ha | rfl | ⟨ss, end?, ha⟩ := argument_of_fine hl.onlyExpressions hfirst
    · rw [readArgument_expression hl ha] at hfirst
      exact hfirst.of_bind
    · rw [reads_dashes hl] at h
      exact h.of_bind
    · rw [readArgument_options hl.onlyExpressions ha] at hfirst
      exact hfirst.of_bind

/-- An option that waits is not settled. -/
theorem not_fine_settle (h : l.pending = some ⟨o, none⟩) : ¬ Fine l.settle := by
  intro hfine
  rw [settle, h] at hfine
  exact hfine _ rfl

/-- **What an argument can be that is read without a fault**: a piece by
itself, two dashes, or one of options that waits for a value or asks for a
text. -/
theorem argument_cases (hl : l.Free) (h : Fine (l.readArgument a)) :
    (∃ is, ∃ m : CommandLine, Piece is [a] ∧ l.readArgument a = .ok m ∧ m.Settled) ∨
      a = ['-', '-'] ∨
      (∃ ss o, ∃ m : CommandLine, OptionArgument ss (.waits o) a ∧
        l.readArgument a = .ok (m.holding o none) ∧ m.Settled) ∨
      ∃ ss i, OptionArgument ss (.asks i) a := by
  obtain ha | rfl | ⟨ss, end?, ha⟩ := argument_of_fine hl.onlyExpressions h
  · rw [readArgument_expression hl ha, addExpression] at h ⊢
    obtain ⟨l', hl', hpending, honly⟩ := settle_of_fine h.of_bind
    rw [hl']
    exact .inl ⟨_, l'.adding [a], .expression ha, rfl, hpending, honly.trans hl.onlyExpressions⟩
  · exact .inr (.inl rfl)
  · rw [readArgument_options hl.onlyExpressions ha] at h ⊢
    obtain ⟨l', hl', hpending, honly⟩ := settle_of_fine h.of_bind
    rw [hl'] at h ⊢
    replace h : Fine (l'.gather (ss.map .switch) >>= (·.finish end?)) := h
    obtain ⟨e, he⟩ | ⟨m, hm, hsettled⟩ :=
      gather_cases ⟨hpending, honly.trans hl.onlyExpressions⟩ (ss.map .switch)
    · exact absurd he (h.of_bind e)
    have hfollow : (Except.ok l' >>= fun l => l.follow ss end?) = m.finish end? := by
      show l'.gather (ss.map .switch) >>= _ = _
      rw [hm]
      rfl
    rw [hfollow]
    rw [hm] at h
    cases end? with
    | done => exact .inl ⟨_, m, .switches ha, rfl, hsettled⟩
    | value j =>
      obtain ⟨e, he⟩ | ⟨n, hn, hn'⟩ := take_cases hsettled j
      · exact absurd he (h e)
      · exact .inl ⟨_, n, .value ha, hn, hn'⟩
    | waits o => exact .inr (.inr (.inl ⟨ss, o, m, ha, rfl, hsettled⟩))
    | asks i => exact .inr (.inr (.inr ⟨ss, i, ha⟩))

/-- **Arguments that are read without a fault are a command line**, behind the
value that an option waits for. The two go together, since the argument
behind an option that waits is only read as its value. -/
theorem spelled_of_fine (honly : l.onlyExpressions = false) (h : Fine (l.reads as)) :
    (l.Free → ∃ js i?, Spelled js i? as) ∧
      ∀ o, l.pending = some ⟨o, none⟩ →
        ∃ v bs j js i?, as = v :: bs ∧ IsPlain v ∧ Gives o v j ∧ Spelled js i? bs := by
  induction as generalizing l with
  | nil => exact ⟨fun _ => ⟨[], none, .pieces .nil⟩, fun o ho => absurd h (not_fine_settle ho)⟩
  | cons a as ih =>
    rw [reads_cons] at h
    refine ⟨fun hl => ?_, fun o ho => ?_⟩
    · obtain ⟨is, m, hpiece, hm, hsettled⟩ | rfl | ⟨ss, o, m, ha, hm, hsettled⟩ | ⟨ss, i, ha⟩ :=
        argument_cases hl h.of_bind
      · rw [hm] at h
        obtain ⟨js, i?, hjs⟩ := (ih hsettled.onlyExpressions h).1 hsettled.free
        exact ⟨_, i?, .cons hpiece hjs⟩
      · exact ⟨_, none, .expressions .nil as⟩
      · rw [hm] at h
        have hwaits : (m.holding o none).onlyExpressions = false := hsettled.onlyExpressions
        obtain ⟨v, bs, j, js, i?, rfl, hv, hj, hjs⟩ := (ih hwaits h).2 o rfl
        exact ⟨_, i?, .cons (.next ha hv hj) hjs⟩
      · exact ⟨_, some i, .asks .nil ha as⟩
    · obtain ha | rfl | ⟨ss, end?, ha⟩ := argument_of_fine honly h.of_bind
      · have hargument : l.readArgument a = .ok (l.holding o (some a)) := by
          rw [readArgument_plain honly ha, readPlain, ho]
          rfl
        rw [hargument] at h
        have hfree : (l.holding o (some a)).Free := free_holding honly o a
        -- what comes behind the value cannot be fine if the value is not
        obtain ⟨j, hj⟩ := gives_of_fine (fine_settle hfree h)
        obtain ⟨js, i?, hjs⟩ := (ih hfree.onlyExpressions h).1 hfree
        exact ⟨a, as, j, js, i?, rfl, ha, hj, hjs⟩
      · rw [readArgument_dashes honly] at h
        replace h : Fine (l.closed.reads as) := h
        rw [reads_expressions rfl] at h
        have hwaits : l.closed.pending = some ⟨o, none⟩ := ho
        exact absurd h.of_bind (not_fine_settle hwaits)
      · have hfirst := h.of_bind
        rw [readArgument_options honly ha] at hfirst
        exact absurd hfirst.of_bind (not_fine_settle ho)

end CommandLine

end Abacus
