import Abacus.Command.Line
import Mathlib.Data.List.Induction
import Mathlib.Tactic.Push

/-!
# Command items — what a command line gives

A command line gives items: expressions, switches, a path and a format. They
are taken in order, and an item is refused if its option was given before
(`take_held`, `take_repeated`). So a line holds its items (`held`), and what
it asks for is read off them (`meant`).

A value may be held back until the next argument. What that settles to is
said once, by what settling can do (`settle_cases`).
-/

namespace Abacus

namespace CommandLine

/-! ## What a command line says -/

/-- What a piece of a command line gives. A path has a name. -/
inductive Item
  | expression (e : List Char)
  | switch (s : Switch)
  | config (path : List Char) (named : path ≠ [])
  | format (f : Format)

namespace Item

/-- The option that an item comes with. -/
def option? : Item → Option AnyOption
  | .expression _ => none
  | .switch s => some (.switch s)
  | .config _ _ => some (.value .config)
  | .format _ => some (.value .format)

/-- The expression that an item is. -/
def expression? : Item → Option (List Char)
  | .expression e => some e
  | _ => none

/-- The path that an item gives. -/
def path? : Item → Option (List Char)
  | .config path _ => some path
  | _ => none

/-- The format that an item gives. -/
def format? : Item → Option Format
  | .format f => some f
  | _ => none

end Item

/-- An item that an option gives with a value. -/
inductive Gives : ValueOption → List Char → Item → Prop
  | config {path : List Char} (named : path ≠ []) : Gives .config path (.config path named)
  | format (f : Format) : Gives .format f.word.toList (.format f)

/-- The options that items come with, in order. -/
def given (js : List Item) : List AnyOption := js.filterMap Item.option?

/-- **No option is given twice.** -/
def Once (js : List Item) : Prop := (given js).Nodup

instance (js : List Item) : Decidable (Once js) := inferInstanceAs (Decidable (given js).Nodup)

/-- **What items ask for**: their expressions in order, and what each option
was given. -/
def meant (js : List Item) : Options where
  expressions := js.filterMap Item.expression?
  config := (js.findSome? Item.path?).getD defaultConfig
  format := js.findSome? Item.format?
  spans := .switch .spans ∈ given js
  verbose := .switch .verbose ∈ given js

variable {l l' : CommandLine} {is js : List Item} {v : List Char} {j : Item} {o : ValueOption}

/-! ## What is held back -/

/-- Nothing is held back, and options may come. -/
structure Settled (l : CommandLine) : Prop where
  pending : l.pending = none
  onlyExpressions : l.onlyExpressions = false

/-- No option waits for the next argument, and options may come. -/
structure Free (l : CommandLine) : Prop where
  pending : ∀ o, l.pending ≠ some ⟨o, none⟩
  onlyExpressions : l.onlyExpressions = false

/-- A line that holds nothing back waits for nothing. -/
theorem Settled.free (h : l.Settled) : l.Free :=
  ⟨fun o => by rw [h.pending]; nofun, h.onlyExpressions⟩

/-- What is settled stays as it is. -/
theorem settle_of_pending (h : l.pending = none) : l.settle = .ok l := by rw [settle, h]

/-- **What giving a value can do**: it fails, or an item is given and nothing
else changes. -/
theorem give_cases (l : CommandLine) (o : ValueOption) (v : List Char) :
    (∃ e, l.give o v = .error (.error e)) ∨
      ∃ l' j, l.give o v = .ok l' ∧ Gives o v j ∧ l'.pending = l.pending ∧
        l'.onlyExpressions = l.onlyExpressions := by
  cases o with
  | config =>
    simp only [give]
    split
    · exact .inl ⟨_, rfl⟩
    · split
      · exact .inl ⟨_, rfl⟩
      · rename_i hempty
        exact .inr ⟨_, _, rfl, .config (by simpa using hempty), rfl, rfl⟩
  | format =>
    simp only [give]
    split
    · exact .inl ⟨_, rfl⟩
    · split
      · exact .inl ⟨_, rfl⟩
      · split
        · rename_i f hf
          have hword : v = f.word.toList := by simpa [← String.toList_inj] using List.find?_some hf
          exact .inr ⟨_, .format f, rfl, hword ▸ Gives.format f, rfl, rfl⟩
        · exact .inl ⟨_, rfl⟩

/-- **What settling can do**: it fails, or nothing is held back any more. -/
theorem settle_cases (l : CommandLine) :
    (∃ e, l.settle = .error (.error e)) ∨
      ∃ l', l.settle = .ok l' ∧ l'.pending = none ∧ l'.onlyExpressions = l.onlyExpressions := by
  unfold settle
  split
  · rename_i hpending
    exact .inr ⟨l, rfl, hpending, rfl⟩
  · exact .inl ⟨_, rfl⟩
  · obtain h | ⟨l', -, h, -, hpending, honly⟩ := give_cases { l with pending := none } _ _
    · exact .inl h
    · exact .inr ⟨l', h, hpending, honly⟩

/-- To settle twice is to settle once, whatever comes then. -/
theorem settle_bind_settle (l : CommandLine) (k : CommandLine → Except Stop CommandLine) :
    (l.settle >>= fun l' => l'.settle >>= k) = l.settle >>= k := by
  obtain ⟨e, h⟩ | ⟨l', h, hpending, -⟩ := settle_cases l
  · rw [h]
    rfl
  · rw [h]
    show l'.settle >>= k = k l'
    rw [settle_of_pending hpending]
    rfl

/-! ## Items, one after the other -/

/-- What a line with nothing held back does with an item. -/
def take (l : CommandLine) : Item → Except Stop CommandLine
  | .expression e => l.addExpression e
  | .switch s => l.turnOn s
  | .config path _ => l.give .config path
  | .format f => l.give .format f.word.toList

/-- Items taken in order. -/
def gather (l : CommandLine) (js : List Item) : Except Stop CommandLine := js.foldlM take l

theorem gather_append (l : CommandLine) (is js : List Item) :
    l.gather (is ++ js) = l.gather is >>= fun l' => l'.gather js := List.foldlM_append

theorem gather_singleton (l : CommandLine) (j : Item) : l.gather [j] = l.take j := by
  rw [gather, List.foldlM_cons]
  exact bind_pure _

/-- The line that holds items, with nothing held back. -/
def held (js : List Item) : CommandLine where
  expressions := js.filterMap Item.expression?
  config := js.findSome? Item.path?
  format := js.findSome? Item.format?
  spans := .switch .spans ∈ given js
  verbose := .switch .verbose ∈ given js
  pending := none
  onlyExpressions := false

/-- What items ask for is what a line that holds them says. -/
theorem options_held (js : List Item) : (held js).options = meant js := rfl

theorem settled_held (js : List Item) : (held js).Settled := ⟨rfl, rfl⟩

theorem given_append (is js : List Item) : given (is ++ js) = given is ++ given js :=
  List.filterMap_append

theorem Item.isSome_path? (j : Item) : j.path?.isSome ↔ j.option? = some (.value .config) := by
  cases j <;> simp [path?, option?]

theorem Item.isSome_format? (j : Item) : j.format?.isSome ↔ j.option? = some (.value .format) := by
  cases j <;> simp [format?, option?]

/-- Items have what an option gives if the option is given. -/
theorem isSome_findSome?_iff {α : Type} {f : Item → Option α} {o : AnyOption}
    (hf : ∀ j, (f j).isSome ↔ j.option? = some o) (js : List Item) :
    (js.findSome? f).isSome ↔ o ∈ given js := by
  rw [List.isSome_findSome?, List.any_eq_true, given, List.mem_filterMap]
  exact exists_congr fun j => and_congr_right fun _ => hf j

/-- Every format is found by its word. -/
theorem ofWord?_word (f : Format) : Format.ofWord? f.word.toList = some f := by cases f <;> rfl

/-- **An item is taken if its option was not given before.** -/
theorem take_held (h : ∀ o ∈ j.option?, o ∉ given js) :
    (held js).take j = .ok (held (js ++ [j])) := by
  cases j with
  | expression e =>
    show Except.ok { held js with expressions := (held js).expressions ++ [e] } = _
    simp [held, given, Item.expression?, Item.path?, Item.format?, Item.option?]
  | switch s =>
    have hnew : .switch s ∉ given js := h _ rfl
    cases s with
    | spans =>
      show (if (held js).spans then _ else Except.ok { held js with spans := true }) = _
      rw [if_neg (by simpa [held] using hnew)]
      simp [held, given, Item.expression?, Item.path?, Item.format?, Item.option?]
    | verbose =>
      show (if (held js).verbose then _ else Except.ok { held js with verbose := true }) = _
      rw [if_neg (by simpa [held] using hnew)]
      simp [held, given, Item.expression?, Item.path?, Item.format?, Item.option?]
  | config path named =>
    have hnew : ¬ (js.findSome? Item.path?).isSome := fun hsome =>
      h _ rfl ((isSome_findSome?_iff Item.isSome_path? js).1 hsome)
    rw [take, give, if_neg (by exact hnew), if_neg (by simpa using named)]
    have hnone := Option.not_isSome_iff_eq_none.1 hnew
    simp [held, given, Item.expression?, Item.path?, Item.format?, Item.option?, hnone]
  | format f =>
    have hnew : ¬ (js.findSome? Item.format?).isSome := fun hsome =>
      h _ rfl ((isSome_findSome?_iff Item.isSome_format? js).1 hsome)
    have hword : f.word.toList.isEmpty = false := by cases f <;> rfl
    simp only [take, give]
    rw [if_neg (by exact hnew), hword, ofWord?_word]
    have hnone := Option.not_isSome_iff_eq_none.1 hnew
    simp [held, given, Item.expression?, Item.path?, Item.format?, Item.option?, hnone]

/-- **An item is refused if its option was given before.** -/
theorem take_repeated {o : AnyOption} (ho : j.option? = some o) (h : o ∈ given js) :
    (held js).take j = .error (.error (.repeated o)) := by
  cases j with
  | expression e => cases ho
  | switch s =>
    cases ho
    cases s
    · exact if_pos (decide_eq_true h)
    · exact if_pos (decide_eq_true h)
  | config path named =>
    cases ho
    exact if_pos ((isSome_findSome?_iff Item.isSome_path? js).2 h)
  | format f =>
    cases ho
    exact if_pos ((isSome_findSome?_iff Item.isSome_format? js).2 h)

/-- One more item is one more option, if it comes with one. -/
theorem once_concat : Once (js ++ [j]) ↔ Once js ∧ ∀ o ∈ j.option?, o ∉ given js := by
  have hgiven : given (js ++ [j]) = given js ++ j.option?.toList := by
    rw [given_append, given, given, List.filterMap_cons]
    cases j.option? <;> rfl
  rw [Once, hgiven, List.nodup_append]
  cases j.option? with
  | none => simp [Once]
  | some o =>
    refine and_congr_right fun _ => ?_
    simp only [Option.toList_some, List.mem_singleton, Option.mem_some_iff, forall_eq']
    exact ⟨fun h hmem => h.2 o hmem o rfl rfl,
      fun h => ⟨List.nodup_cons.2 ⟨List.not_mem_nil, List.nodup_nil⟩,
        fun p hp q hq hpq => h (hq ▸ hpq ▸ hp)⟩⟩

/-- Items that give no option twice are all taken. -/
theorem gather_held (h : Once (is ++ js)) : (held is).gather js = .ok (held (is ++ js)) := by
  induction js generalizing is with
  | nil =>
    rw [List.append_nil]
    rfl
  | cons j js ih =>
    rw [List.append_cons] at h ⊢
    have hfront : Once (is ++ [j]) := by
      rw [Once, given_append] at h
      exact (List.nodup_append.1 h).1
    rw [gather, List.foldlM_cons, take_held (once_concat.1 hfront).2]
    exact ih h

/-- So they are taken where nothing was given before. -/
theorem gather_start (h : Once js) : start.gather js = .ok (held js) := by
  have hnil : Once ([] ++ js) := h
  exact gather_held hnil

/-- **The first option that is given twice**: those in front of it are given
once. -/
def Repeats (js : List Item) (o : AnyOption) : Prop :=
  ∃ front j back, js = front ++ j :: back ∧ Once front ∧ j.option? = some o ∧ o ∈ given front

/-- Where options are not given once, one is the first that is given twice. -/
theorem exists_repeats (h : ¬ Once js) : ∃ o, Repeats js o := by
  induction js using List.reverseRecOn with
  | nil => exact absurd List.nodup_nil h
  | append_singleton js j ih =>
    by_cases hfront : Once js
    · obtain ⟨o, ho, hmem⟩ : ∃ o ∈ j.option?, o ∈ given js := by
        by_contra hnew
        push Not at hnew
        exact h (once_concat.2 ⟨hfront, hnew⟩)
      exact ⟨o, js, j, [], rfl, hfront, ho, hmem⟩
    · obtain ⟨o, front, i, back, rfl, honce, ho, hmem⟩ := ih hfront
      exact ⟨o, front, i, back ++ [j], by simp, honce, ho, hmem⟩

/-- Items that give an option twice are refused. -/
theorem gather_repeats {o : AnyOption} (h : Repeats js o) :
    start.gather js = .error (.error (.repeated o)) := by
  obtain ⟨front, j, back, rfl, honce, ho, hmem⟩ := h
  rw [gather_append, gather_start honce]
  show (held front).gather (j :: back) = _
  rw [gather, List.foldlM_cons, take_repeated ho hmem]
  rfl

end CommandLine

end Abacus
