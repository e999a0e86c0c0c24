import Abacus.Proofs.Coverage
import Abacus.Proofs.Positions
import Abacus.Session

/-!
# Histories — what the tokenizers of a session know

A tokenizer knows nothing but what it scanned last, and a copy knows what
its model knew when it was made. So a session is described by its history:
for each tokenizer of the pool that last text, if there is one.
`Session.Stepped` says once what a step can do to a pool, and from it come
the frame of a step (`Stepped.getElem?_of_ne`) and its agreement with the
history (`Stepped.eq_map_history`), and so the count that it gives
(`skipped_step`). A run of steps follows by induction.
-/

namespace Abacus

/-- How many characters of a text no token of it holds. -/
def uncovered (text : List Char) : Nat :=
  (List.range text.length).countP fun i => (holders (tokenize text) (text.take i)).isEmpty

/-- **What a tokenizer knows** when it last scanned a text, or nothing at
all. -/
def Tokenizer.having : Option (List Char) → Tokenizer
  | none => ⟨⟨0, 1, 1⟩, 0⟩
  | some text =>
    ⟨⟨Utf8.size text, 1 + text.count '\n', 1 + (text.rtakeWhile (· != '\n')).length⟩,
      uncovered text⟩

/-- **A scan leaves what its text tells**, whatever the tokenizer knew. -/
theorem Tokenizer.tokenize_fst_eq_having (t : Tokenizer) (text : List Char) :
    (t.tokenize text).1 = .having (some text) := by
  rw [tokenize_fst, skipped_eq_countP]
  rfl

namespace Session

/-- For each tokenizer of a pool the text it last scanned, or, if it is a
copy that has not scanned yet, its model before the copy was made. -/
abbrev History := List (Option (List Char))

/-- A step in a history. Only scans and new tokenizers leave a mark, and
only if the step addresses a tokenizer that is there. -/
def History.after (h : History) (p : Step) : History :=
  match h[p.on]? with
  | none => h
  | some last =>
    match p.action with
    | .tokenize input => h.set p.on (some input)
    | .skipped => h
    | .clone => h ++ [last]
    | .new => h ++ [none]

/-- **The history of a session.** It starts with one tokenizer that has
scanned nothing. -/
def history (ps : List Step) : History := ps.foldl History.after [none]

/-- **What a step does to a pool.** -/
inductive Stepped (s : Session) : Step → Option Answer → Session → Prop
  /-- A scan answers what a tokenizer that knows nothing answers, and
  replaces its own tokenizer. -/
  | tokenize {i : Nat} {input : List Char} : i < s.length →
      Stepped s ⟨i, .tokenize input⟩ (some (.tokens (Abacus.tokenize input)))
        (s.set i (.having (some input)))
  /-- Asking for the count changes nothing. -/
  | skipped {i : Nat} : i < s.length → Stepped s ⟨i, .skipped⟩ (some .nothing) s
  /-- A copy is put at the end. -/
  | clone {i : Nat} {t : Tokenizer} : s[i]? = some t →
      Stepped s ⟨i, .clone⟩ (some (.made s.length)) (s ++ [t])
  /-- And so is a new one. -/
  | new {i : Nat} : i < s.length →
      Stepped s ⟨i, .new⟩ (some (.made s.length)) (s ++ [.having none])
  /-- No tokenizer is addressed. -/
  | refused {p : Step} : s.length ≤ p.on → Stepped s p none s

/-- **Every step is one of these.** -/
theorem stepped_step (s : Session) (p : Step) : Stepped s p (s.step p).answer (s.step p).pool := by
  obtain ⟨i, action⟩ := p
  rcases ht : s[i]? with - | t
  · have hstep : s.step ⟨i, action⟩ = ⟨none, s, none⟩ := by rw [step, ht]
    rw [hstep]
    exact .refused (List.getElem?_eq_none_iff.1 ht)
  · have hi : i < s.length := (List.getElem?_eq_some_iff.1 ht).1
    have hstep : s.step ⟨i, action⟩ = ⟨some (s.act i t action).1, (s.act i t action).2,
        (s.act i t action).2[i]?.map Tokenizer.skipped⟩ := by rw [step, ht]
    rw [hstep]
    cases action with
    | tokenize input =>
      rw [act, Tokenizer.tokenize_fst_eq_having]
      exact .tokenize hi
    | skipped => exact .skipped hi
    | clone => exact .clone ht
    | new => exact .new hi

/-- **The count that a step gives** is that of the tokenizer which it
addresses, in the pool behind it. -/
theorem skipped_step (s : Session) (p : Step) :
    (s.step p).skipped = (s.step p).pool[p.on]?.map Tokenizer.skipped := by
  rcases ht : s[p.on]? with - | t
  · have hstep : s.step p = ⟨none, s, none⟩ := by rw [step, ht]
    rw [hstep, ht]
    rfl
  · rw [step, ht]

namespace Stepped

variable {s pool : Session} {p : Step} {answer : Option Answer}

/-- **A step changes no tokenizer but the one it addresses.** -/
theorem getElem?_of_ne (h : Stepped s p answer pool) {j : Nat} (hj : j < s.length)
    (hne : j ≠ p.on) : pool[j]? = s[j]? := by
  cases h with
  | tokenize _ => rw [List.getElem?_set_ne (Ne.symm hne)]
  | skipped _ => rfl
  | clone _ => rw [List.getElem?_append_left hj]
  | new _ => rw [List.getElem?_append_left hj]
  | refused _ => rfl

/-- **A step agrees with the history.** -/
theorem eq_map_history {h : History} (hstep : Stepped (h.map Tokenizer.having) p answer pool) :
    pool = (h.after p).map Tokenizer.having := by
  cases hstep with
  | @tokenize i input hi =>
    rw [List.length_map] at hi
    rw [History.after, List.getElem?_eq_getElem hi, List.map_set]
  | @skipped i hi =>
    rw [List.length_map] at hi
    rw [History.after, List.getElem?_eq_getElem hi]
  | @clone i t ht =>
    rw [List.getElem?_map, Option.map_eq_some_iff] at ht
    obtain ⟨last, hlast, rfl⟩ := ht
    rw [History.after, hlast, List.map_append, List.map_singleton]
  | @new i hi =>
    rw [List.length_map] at hi
    rw [History.after, List.getElem?_eq_getElem hi, List.map_append, List.map_singleton]
  | refused hle =>
    rw [List.length_map] at hle
    rw [History.after, List.getElem?_eq_none hle]

end Stepped

/-! ## Runs -/

/-- **The pool of a session is told by its history.** -/
theorem final_eq_map_history (ps : List Step) :
    start.final ps = (history ps).map Tokenizer.having := by
  -- step by step from the front, so the last step is the one to look at
  induction ps using List.reverseRecOn with
  | nil => rfl
  | append_singleton ps p ih =>
    have hlast := stepped_step (start.final ps) p
    rw [ih] at hlast
    have hpool := hlast.eq_map_history
    rw [final, List.foldl_append, history, List.foldl_append]
    rw [← ih] at hpool
    exact hpool

/-- A run answers each step from the pool that the steps before it leave. -/
theorem getElem?_run (s : Session) (before : List Step) (p : Step) (after : List Step) :
    (s.run (before ++ p :: after))[before.length]? = some ((s.final before).step p) := by
  induction before generalizing s with
  | nil => rfl
  | cons q before ih => exact ih (s.step q).pool

/-- **Tokenizers carry nothing from one scan to the next.** At every step of
a session, the answer, the pool and the count are those of the history, and
nothing changes but the tokenizer addressed. -/
theorem run_of_history (before : List Step) (p : Step) (after : List Step) :
    start.final before = (history before).map Tokenizer.having ∧
      ∃ answer pool skipped,
        (start.run (before ++ p :: after))[before.length]? = some ⟨answer, pool, skipped⟩ ∧
        pool = (history (before ++ [p])).map Tokenizer.having ∧
        Stepped (start.final before) p answer pool ∧
        skipped = ((history (before ++ [p]))[p.on]?.map fun last =>
          (Tokenizer.having last).skipped) ∧
        ∀ j < (start.final before).length, j ≠ p.on → pool[j]? = (start.final before)[j]? := by
  have hstep := stepped_step (start.final before) p
  have hpool : ((start.final before).step p).pool =
      (history (before ++ [p])).map Tokenizer.having := by
    rw [← final_eq_map_history, final, final, List.foldl_append]
    rfl
  refine ⟨final_eq_map_history before, ((start.final before).step p).answer,
    ((start.final before).step p).pool, ((start.final before).step p).skipped,
    getElem?_run start before p after, hpool, hstep, ?_,
    fun j hj hne => hstep.getElem?_of_ne hj hne⟩
  rw [skipped_step, hpool, List.getElem?_map, Option.map_map]
  rfl

/-- A copy scans, and its model stays as it was. -/
theorem run_of_history_clone :
    0 < (start.final [⟨0, .tokenize ['1', '&']⟩, ⟨0, .clone⟩]).length ∧ 0 ≠ 1 ∧
      ∃ answer pool skipped,
        (start.run [⟨0, .tokenize ['1', '&']⟩, ⟨0, .clone⟩, ⟨1, .tokenize ['\n', '2']⟩])[2]? =
          some ⟨answer, pool, skipped⟩ ∧
        pool = [some ['1', '&'], some ['\n', '2']].map Tokenizer.having ∧
        skipped = some (uncovered ['\n', '2']) ∧
        pool[0]? = (start.final [⟨0, .tokenize ['1', '&']⟩, ⟨0, .clone⟩])[0]? := by
  obtain ⟨hbefore, answer, pool, skipped, hrun, hpool, -, hskipped, hframe⟩ :=
    run_of_history [⟨0, .tokenize ['1', '&']⟩, ⟨0, .clone⟩] ⟨1, .tokenize ['\n', '2']⟩ []
  have hlength : 0 < (start.final [⟨0, .tokenize ['1', '&']⟩, ⟨0, .clone⟩]).length := by
    rw [hbefore]
    decide
  have hne : (0 : Nat) ≠ 1 := by decide
  exact ⟨hlength, hne, answer, pool, skipped, hrun, hpool, hskipped, hframe 0 hlength hne⟩

end Session

end Abacus
