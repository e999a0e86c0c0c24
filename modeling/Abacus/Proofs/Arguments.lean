import Abacus.Proofs.CommandItems
import Mathlib.Data.List.TakeWhile

/-!
# Arguments — one argument of a command line

An argument of options is a long name or a row of letters, and both are
switches and an end (`OptionArgument`). `readArgument_options` is what the
reader does with one, and `argument_of_fine` that nothing else is read
without a fault: an argument is plain, or two dashes, or one of options.
-/

namespace Abacus

namespace CommandLine

/-! ## How it is written -/

/-- A value behind the letter of its option: behind an equals sign, which it
needs if it begins with one. -/
inductive Attached (v : List Char) : List Char → Prop
  | marked : Attached v ('=' :: v)
  | bare (h : v.head? ≠ some '=') : Attached v v

/-- How an argument of options ends, behind its switches. -/
inductive Ending
  | done
  | value (j : Item)
  | waits (o : ValueOption)
  | asks (i : Inquiry)

/-- **Letters of options**: switches, and at the end perhaps another option.
Nothing behind a letter that asks for a text is looked at. -/
inductive Letters : List Switch → Ending → List Char → Prop
  | done : Letters [] .done []
  | switch {ss : List Switch} {end? : Ending} {cs : List Char} (s : Switch)
      (h : Letters ss end? cs) : Letters (s :: ss) end? ((AnyOption.switch s).letter :: cs)
  | value {o : ValueOption} {v w : List Char} {j : Item} (h : Gives o v j) (hw : Attached v w) :
      Letters [] (.value j) ((AnyOption.value o).letter :: w)
  | waits (o : ValueOption) : Letters [] (.waits o) [(AnyOption.value o).letter]
  | asks (i : Inquiry) (cs : List Char) :
      Letters [] (.asks i) ((AnyOption.inquiry i).letter :: cs)

/-- **The long name of an option**, perhaps with a value. -/
inductive LongName : List Switch → Ending → List Char → Prop
  | switch (s : Switch) : LongName [s] .done (AnyOption.switch s).long.toList
  | value {o : ValueOption} {v : List Char} {j : Item} (h : Gives o v j) :
      LongName [] (.value j) ((AnyOption.value o).long.toList ++ '=' :: v)
  | waits (o : ValueOption) : LongName [] (.waits o) (AnyOption.value o).long.toList
  | asks (i : Inquiry) : LongName [] (.asks i) (AnyOption.inquiry i).long.toList

/-- An argument of options. -/
inductive OptionArgument (ss : List Switch) (end? : Ending) : List Char → Prop
  | long {name : List Char} (h : LongName ss end? name) :
      OptionArgument ss end? ('-' :: '-' :: name)
  | letters {c : Char} {cs : List Char} (h : Letters ss end? (c :: cs)) :
      OptionArgument ss end? ('-' :: c :: cs)

/-- An argument that is no option: it begins with no dash, or is one. -/
def IsPlain (a : List Char) : Prop := a.head? ≠ some '-' ∨ a = ['-']

variable {l : CommandLine} {a v : List Char} {ss : List Switch} {end? : Ending} {j : Item}
  {o : ValueOption}

/-! ## Names of options -/

/-- All options are listed. -/
theorem mem_all (o : AnyOption) : o ∈ AnyOption.all := by
  rcases o with o | s | i
  · cases o <;> decide
  · cases s <;> decide
  · cases i <;> decide

/-- Every option is found by its long name. -/
@[simp] theorem ofLong?_long (o : AnyOption) : AnyOption.ofLong? o.long.toList = some o :=
  have h : ∀ o ∈ AnyOption.all, AnyOption.ofLong? o.long.toList = some o := by decide
  h o (mem_all o)

/-- Every option is found by its letter. -/
@[simp] theorem ofLetter?_letter (o : AnyOption) : AnyOption.ofLetter? o.letter = some o :=
  have h : ∀ o ∈ AnyOption.all, AnyOption.ofLetter? o.letter = some o := by decide
  h o (mem_all o)

/-- Nothing but its long name finds an option. -/
theorem eq_long_of_ofLong? {name : List Char} {o : AnyOption}
    (h : AnyOption.ofLong? name = some o) : name = o.long.toList := by
  simpa using List.find?_some h

/-- Nothing but its letter finds an option. -/
theorem eq_letter_of_ofLetter? {c : Char} {o : AnyOption} (h : AnyOption.ofLetter? c = some o) :
    c = o.letter := by
  simpa using List.find?_some h

/-- No letter of an option is a dash, so two dashes begin a long name. -/
theorem letter_ne_dash (o : AnyOption) : o.letter ≠ '-' :=
  have h : ∀ o ∈ AnyOption.all, o.letter ≠ '-' := by decide
  h o (mem_all o)

/-- No option is without a name. -/
theorem long_ne_nil (o : AnyOption) : o.long.toList ≠ [] :=
  have h : ∀ o ∈ AnyOption.all, o.long.toList ≠ [] := by decide
  h o (mem_all o)

/-- No long name has an equals sign in it, so the first one is where a value
begins. -/
theorem equals_not_mem_long (o : AnyOption) : '=' ∉ o.long.toList :=
  have h : ∀ o ∈ AnyOption.all, '=' ∉ o.long.toList := by decide
  h o (mem_all o)

/-! ## Arguments of options -/

/-- A line with an option held back, and its value if there is one. -/
def holding (l : CommandLine) (o : ValueOption) (v : Option (List Char)) : CommandLine :=
  { l with pending := some ⟨o, v⟩ }

/-- What a line with nothing held back does at the end of an argument. -/
def finish (l : CommandLine) : Ending → Except Stop CommandLine
  | .done => .ok l
  | .value j => l.take j
  | .waits o => .ok (l.holding o none)
  | .asks i => .error (.inquiry i)

/-- What an argument of options comes to, with nothing held back. -/
def follow (l : CommandLine) (ss : List Switch) (end? : Ending) : Except Stop CommandLine :=
  l.gather (ss.map .switch) >>= (·.finish end?)

/-- An item that is given is taken. -/
theorem Gives.take_eq (h : Gives o v j) (l : CommandLine) : l.give o v = l.take j := by
  cases h <;> rfl

/-- **What a switch can do**: it fails, or nothing is held back any more. -/
theorem turnOn_cases (l : CommandLine) (s : Switch) :
    (∃ e, l.turnOn s = .error (.error e)) ∨
      ∃ l', l.turnOn s = .ok l' ∧ l'.pending = none ∧ l'.onlyExpressions = l.onlyExpressions := by
  rw [turnOn]
  obtain ⟨e, he⟩ | ⟨l', hl', hpending, honly⟩ := settle_cases l
  · rw [he]
    exact .inl ⟨e, rfl⟩
  · rw [hl']
    cases s with
    | spans =>
      cases hs : l'.spans with
      | true => exact .inl ⟨_, if_pos hs⟩
      | false => exact .inr ⟨_, if_neg (by simp [hs]), hpending, honly⟩
    | verbose =>
      cases hs : l'.verbose with
      | true => exact .inl ⟨_, if_pos hs⟩
      | false => exact .inr ⟨_, if_neg (by simp [hs]), hpending, honly⟩

/-- An item leaves a line settled. -/
theorem take_cases (h : l.Settled) (j : Item) :
    (∃ e, l.take j = .error (.error e)) ∨ ∃ l', l.take j = .ok l' ∧ l'.Settled := by
  have hgive : ∀ o v, (∃ e, l.give o v = .error (.error e)) ∨
      ∃ l', l.give o v = .ok l' ∧ l'.Settled := by
    intro o v
    obtain he | ⟨l', -, hl', -, hpending, honly⟩ := give_cases l o v
    · exact .inl he
    · exact .inr ⟨l', hl', hpending.trans h.pending, honly.trans h.onlyExpressions⟩
  cases j with
  | expression e =>
    rw [take, addExpression, settle_of_pending h.pending]
    exact .inr ⟨_, rfl, h.pending, h.onlyExpressions⟩
  | switch s =>
    obtain he | ⟨l', hl', hpending, honly⟩ := turnOn_cases l s
    · exact .inl he
    · exact .inr ⟨l', hl', hpending, honly.trans h.onlyExpressions⟩
  | config path named => exact hgive .config path
  | format f => exact hgive .format f.word.toList

/-- Items leave a line settled. -/
theorem gather_cases (h : l.Settled) (js : List Item) :
    (∃ e, l.gather js = .error (.error e)) ∨ ∃ l', l.gather js = .ok l' ∧ l'.Settled := by
  induction js generalizing l with
  | nil => exact .inr ⟨l, rfl, h⟩
  | cons j js ih =>
    rw [gather, List.foldlM_cons]
    obtain ⟨e, he⟩ | ⟨l', hl', h'⟩ := take_cases h j
    · exact .inl ⟨e, by rw [he]; rfl⟩
    · rw [hl']
      exact ih h'

/-- A switch in front of what follows. -/
theorem follow_cons (l : CommandLine) (s : Switch) (ss : List Switch) (end? : Ending) :
    l.follow (s :: ss) end? = l.turnOn s >>= fun l' => l'.follow ss end? := by
  rw [follow, List.map_cons, gather, List.foldlM_cons, bind_assoc]
  rfl

/-- **Letters are read as their switches and their end**, with nothing held
back. -/
theorem readLetters_eq {cs : List Char} (hl : l.Settled) (h : Letters ss end? cs) :
    l.readLetters cs = l.follow ss end? := by
  induction h generalizing l with
  | done => rfl
  | switch s h ih =>
    rw [readLetters, ofLetter?_letter, follow_cons]
    dsimp only
    obtain ⟨e, he⟩ | ⟨l', hl', h'⟩ := take_cases hl (.switch s)
    · rw [show l.turnOn s = _ from he]
      rfl
    · rw [show l.turnOn s = _ from hl']
      exact ih h'
  | @value o v w j h hw =>
    have hne : v ≠ [] := by
      cases h with
      | config named => exact named
      | format f => cases f <;> simp [Format.word]
    have hvalue : (if w.isEmpty then none
        else some (if w.head? = some '=' then w.drop 1 else w)) = some v := by
      cases hw with
      | marked => rfl
      | bare hbare => rw [if_neg (by simpa using hne), if_neg hbare]
    rw [readLetters, ofLetter?_letter]
    dsimp only
    rw [hvalue, takeValue, settle_of_pending hl.pending]
    exact h.take_eq l
  | waits o =>
    rw [readLetters, ofLetter?_letter]
    dsimp only
    rw [takeValue, settle_of_pending hl.pending]
    rfl
  | asks i cs =>
    rw [readLetters, ofLetter?_letter]
    dsimp only
    rw [inquire, settle_of_pending hl.pending]
    rfl

/-- A switch settles first, so it may as well find what is settled. -/
theorem turnOn_eq (l : CommandLine) (s : Switch) :
    l.turnOn s = l.settle >>= fun l' => l'.follow [s] .done := by
  have hfollow : ∀ l' : CommandLine, l'.follow [s] .done = l'.turnOn s := fun l' => by
    rw [follow_cons]
    exact bind_pure _
  simp only [hfollow]
  exact (settle_bind_settle l _).symm

/-- The first letter settles what is held back, so all are read as if nothing
was. -/
theorem readLetters_settle {c : Char} (h : AnyOption.ofLetter? c ≠ none) (cs : List Char) :
    l.readLetters (c :: cs) = l.settle >>= fun l' => l'.readLetters (c :: cs) := by
  obtain ⟨o, ho⟩ := Option.ne_none_iff_exists'.1 h
  rcases o with o | s | i
  · simp only [readLetters, ho]
    exact (settle_bind_settle l _).symm
  · have hturn : l.turnOn s = l.settle >>= fun l' => l'.turnOn s := (settle_bind_settle l _).symm
    simp only [readLetters, ho]
    rw [hturn]
    cases l.settle <;> rfl
  · simp only [readLetters, ho]
    exact (settle_bind_settle l _).symm

/-- The name in front of the first equals sign, or without one. -/
theorem takeWhile_ne_equals {name : List Char} (h : '=' ∉ name) :
    name.takeWhile (· != '=') = name ∧
      ∀ v, (name ++ '=' :: v).takeWhile (· != '=') = name := by
  have hall : ∀ c ∈ name, (c != '=') = true := fun c hc => by
    rw [bne_iff_ne]
    rintro rfl
    exact h hc
  refine ⟨List.takeWhile_eq_self_iff.2 hall, fun v => ?_⟩
  rw [List.takeWhile_append_of_pos hall]
  simp

/-- What is behind a name and an equals sign. -/
theorem drop_name (name v : List Char) : (name ++ '=' :: v).drop (name.length + 1) = v := by
  rw [List.drop_append, List.drop_eq_nil_of_le (by omega)]
  simp

/-- **A long name is read as its switch or its end**, behind what is held
back. -/
theorem readLong_eq {name : List Char} (h : LongName ss end? name) :
    l.readLong name = l.settle >>= fun l' => l'.follow ss end? := by
  have bare : ∀ o : AnyOption, o.long.toList.takeWhile (· != '=') = o.long.toList ∧
      o.long.toList.contains '=' = false := fun o =>
    ⟨(takeWhile_ne_equals (equals_not_mem_long o)).1, by simpa using equals_not_mem_long o⟩
  cases h with
  | switch s =>
    rw [readLong]
    simp only [bare, ofLong?_long, Bool.false_eq_true, if_false]
    exact turnOn_eq l s
  | @value o v j h =>
    have hname := (takeWhile_ne_equals (equals_not_mem_long (.value o))).2 v
    have hmark : ((AnyOption.value o).long.toList ++ '=' :: v).contains '=' = true := by simp
    rw [readLong]
    simp only [hname, hmark, drop_name, ofLong?_long, if_true]
    rw [takeValue]
    exact congrArg (l.settle >>= ·) (funext fun l' => h.take_eq l')
  | waits o =>
    rw [readLong]
    simp only [bare, ofLong?_long, Bool.false_eq_true, if_false]
    rfl
  | asks i =>
    rw [readLong]
    simp only [bare, ofLong?_long, Bool.false_eq_true, if_false]
    rfl

/-! ## One argument -/

/-- Two dashes with something behind them begin a long name. -/
theorem readArgument_long {name : List Char} (honly : l.onlyExpressions = false)
    (hname : name ≠ []) : l.readArgument ('-' :: '-' :: name) = l.readLong name := by
  obtain ⟨c, cs, rfl⟩ := List.exists_cons_of_ne_nil hname
  rw [readArgument, if_neg (by simp [honly])]
  exact nofun

/-- One dash with something else behind it begins letters. -/
theorem readArgument_letters {c : Char} (cs : List Char) (honly : l.onlyExpressions = false)
    (hc : c ≠ '-') : l.readArgument ('-' :: c :: cs) = l.readLetters (c :: cs) := by
  rw [readArgument, if_neg (by simp [honly])]
  · exact fun h => absurd h hc
  · exact fun h => absurd h hc

/-- A plain argument has nothing behind a dash. -/
theorem IsPlain.ne_option (h : IsPlain a) (c : Char) (cs : List Char) : a ≠ '-' :: c :: cs := by
  rintro rfl
  obtain h | h := h
  · exact h rfl
  · cases h

/-- All other arguments are plain. -/
theorem readArgument_plain (honly : l.onlyExpressions = false) (ha : IsPlain a) :
    l.readArgument a = l.readPlain a := by
  rw [readArgument, if_neg (by simp [honly])]
  · exact ha.ne_option _ _
  · exact fun _ => ha.ne_option _ _
  · exact ha.ne_option

/-- A plain argument is an expression if no option waits. -/
theorem readArgument_expression (hl : l.Free) (ha : IsPlain a) :
    l.readArgument a = l.addExpression a := by
  rw [readArgument_plain hl.onlyExpressions ha, readPlain]
  split
  · rename_i hpending
    exact absurd hpending (hl.pending _)
  · rfl

/-- **An argument of options**: what is held back is settled, then come its
switches and its end. -/
theorem readArgument_options (honly : l.onlyExpressions = false) (h : OptionArgument ss end? a) :
    l.readArgument a = l.settle >>= fun l' => l'.follow ss end? := by
  cases h with
  | @long name h =>
    have hne : name ≠ [] := by
      cases h with
      | switch s => exact long_ne_nil _
      | value h => simp
      | waits o => exact long_ne_nil _
      | asks i => exact long_ne_nil _
    rw [readArgument_long honly hne, readLong_eq h]
  | @letters c cs h =>
    obtain ⟨o, rfl⟩ : ∃ o : AnyOption, c = o.letter := by
      cases h with
      | switch s h => exact ⟨_, rfl⟩
      | value h hw => exact ⟨_, rfl⟩
      | waits o => exact ⟨_, rfl⟩
      | asks i cs => exact ⟨_, rfl⟩
    rw [readArgument_letters cs honly (letter_ne_dash o), readLetters_settle (by simp)]
    obtain ⟨e, he⟩ | ⟨l', hl', hpending, honly'⟩ := settle_cases l
    · rw [he]
      rfl
    · rw [hl']
      exact readLetters_eq ⟨hpending, honly'.trans honly⟩ h

/-! ## Nothing else is read -/

/-- No fault is found. -/
def Fine (x : Except Stop CommandLine) : Prop := ∀ e, x ≠ .error (.error e)

/-- What goes on without a fault began without one. -/
theorem Fine.of_bind {k : CommandLine → Except Stop CommandLine} (h : Fine (x >>= k)) : Fine x := by
  rintro e rfl
  exact h e rfl

/-- Where settling is fine, nothing waits for a value. -/
theorem settle_of_fine (h : Fine l.settle) :
    ∃ l', l.settle = .ok l' ∧ l'.pending = none ∧ l'.onlyExpressions = l.onlyExpressions :=
  (settle_cases l).resolve_left fun ⟨e, he⟩ => h e he

/-- A value that is fine gives an item. -/
theorem gives_of_fine (h : Fine (l.give o v)) : ∃ j, Gives o v j := by
  obtain ⟨e, he⟩ | ⟨-, j, -, hj, -⟩ := give_cases l o v
  · exact absurd he (h e)
  · exact ⟨j, hj⟩

/-- So does a value in the argument of its option. -/
theorem gives_of_fine_takeValue (h : Fine (l.takeValue o (some v))) : ∃ j, Gives o v j := by
  rw [takeValue] at h
  obtain ⟨l', hl', -⟩ := settle_of_fine h.of_bind
  rw [hl'] at h
  exact gives_of_fine h

/-- **Letters that are fine are options.** -/
theorem letters_of_fine {cs : List Char} (h : Fine (l.readLetters cs)) :
    ∃ ss end?, Letters ss end? cs := by
  induction cs generalizing l with
  | nil => exact ⟨_, _, .done⟩
  | cons c cs ih =>
    rw [readLetters] at h
    cases ho : AnyOption.ofLetter? c with
    | none =>
      rw [ho] at h
      exact absurd rfl (h _)
    | some o =>
      obtain rfl := eq_letter_of_ofLetter? ho
      rw [ho] at h
      rcases o with o | s | i
      · cases cs with
        | nil => exact ⟨_, _, .waits o⟩
        | cons c cs =>
          obtain ⟨j, hj⟩ := gives_of_fine_takeValue h
          refine ⟨[], .value j, .value hj ?_⟩
          by_cases hc : (c :: cs).head? = some '='
          · rw [if_pos hc]
            cases hc
            exact .marked
          · rw [if_neg hc]
            exact .bare hc
      · dsimp only at h
        obtain ⟨e, he⟩ | ⟨l', hl', -⟩ := turnOn_cases l s
        · rw [he] at h
          exact absurd rfl (h e)
        · rw [hl'] at h
          obtain ⟨ss, end?, hletters⟩ := ih h
          exact ⟨_, _, .switch s hletters⟩
      · exact ⟨_, _, .asks i cs⟩

/-- **A long name that is fine is an option.** -/
theorem longName_of_fine {name : List Char} (h : Fine (l.readLong name)) :
    ∃ ss end?, LongName ss end? name := by
  rw [readLong] at h
  by_cases hmark : '=' ∈ name
  · obtain ⟨name, v, rfl, hname⟩ := List.eq_append_cons_of_mem hmark
    rw [(takeWhile_ne_equals hname).2, drop_name, if_pos (by simp)] at h
    cases ho : AnyOption.ofLong? name with
    | none =>
      rw [ho] at h
      exact absurd rfl (h _)
    | some o =>
      obtain rfl := eq_long_of_ofLong? ho
      rw [ho] at h
      -- only an option that takes a value may have one
      rcases o with o | s | i
      · obtain ⟨j, hj⟩ := gives_of_fine_takeValue h
        exact ⟨_, _, .value hj⟩
      · exact absurd rfl (h _)
      · exact absurd rfl (h _)
  · rw [(takeWhile_ne_equals hmark).1, if_neg (by simpa using hmark)] at h
    cases ho : AnyOption.ofLong? name with
    | none =>
      rw [ho] at h
      exact absurd rfl (h _)
    | some o =>
      obtain rfl := eq_long_of_ofLong? ho
      rcases o with o | s | i
      · exact ⟨_, _, .waits o⟩
      · exact ⟨_, _, .switch s⟩
      · exact ⟨_, _, .asks i⟩

/-- **An argument that is fine is plain, or two dashes, or one of options.** -/
theorem argument_of_fine (honly : l.onlyExpressions = false) (h : Fine (l.readArgument a)) :
    IsPlain a ∨ a = ['-', '-'] ∨ ∃ ss end?, OptionArgument ss end? a := by
  rcases a with - | ⟨c, - | ⟨d, cs⟩⟩
  · exact .inl (.inl nofun)
  · by_cases hc : c = '-'
    · exact .inl (.inr (by rw [hc]))
    · exact .inl (.inl (by simpa using hc))
  · by_cases hc : c = '-'
    · subst hc
      by_cases hd : d = '-'
      · subst hd
        by_cases hcs : cs = []
        · exact .inr (.inl (by rw [hcs]))
        · rw [readArgument_long honly hcs] at h
          obtain ⟨ss, end?, hname⟩ := longName_of_fine h
          exact .inr (.inr ⟨ss, end?, .long hname⟩)
      · rw [readArgument_letters cs honly hd] at h
        obtain ⟨ss, end?, hletters⟩ := letters_of_fine h
        exact .inr (.inr ⟨ss, end?, .letters hletters⟩)
    · exact .inl (.inl (by simpa using hc))

end CommandLine

end Abacus
