import Abacus.Proofs.Numerals

/-!
# Longest matches — how much of a text is a number

The recognizer of numbers takes the first of two shapes that fits, each
with all the digits there are. The grammar of numbers says nothing of an
order: some prefixes of a text are numerals and others are not. The file
proves that both come to the same: a number is found exactly where some
prefix is a numeral (`absent_iff`), and what is taken is the longest of
them (`Leads.longest`), read as itself (`number_longest`). So a run ends
before what no numeral goes on with.
-/

namespace Abacus

namespace Numeral

variable {text rest input : List Char}

/-- **The longest numeral that a text begins with.** -/
structure Longest (text input : List Char) : Prop where
  /-- The text begins with it. -/
  front : text <+: input
  /-- It is a numeral. -/
  spelled : Spelled text
  /-- No numeral that the text begins with is longer. -/
  longest : ∀ other, other <+: input → Spelled other → other.length ≤ text.length

/-- There is one at most. -/
theorem Longest.unique {other : List Char} (h : Longest text input) (hother : Longest other input) :
    text = other := by
  have hlength : text.length = other.length :=
    Nat.le_antisymm (hother.longest _ h.front h.spelled) (h.longest _ hother.front hother.spelled)
  obtain ⟨rest, hrest⟩ := h.front
  obtain ⟨rest', hrest'⟩ := hother.front
  exact (List.append_inj (hrest.trans hrest'.symm) hlength).1

/-- A numeral has one point at most. -/
theorem Spelled.count_point_le (h : Spelled text) : text.count '.' ≤ 1 := by
  have hnone : ∀ {ds : List Char}, (∀ c ∈ ds, c.isDigit) → ds.count '.' = 0 := fun h =>
    List.count_eq_zero.2 fun hmem => ne_of_isDigit (h _ hmem) rfl rfl
  cases h with
  | whole _ hds => simp [hnone hds]
  | decimal _ hds hfs => simp [hnone hds, hnone hfs]
  | fraction _ hfs => simp [hnone hfs]

/-- **A number stands before no digit**, and before a point only if it has
its own. -/
theorem Leads.ends (h : Leads text rest) :
    ∀ c ∈ rest.head?, c.isDigit = false ∧ (c = '.' → '.' ∈ text) := by
  intro c hc
  cases h with
  | whole _ _ hrest =>
    have hnumeric : Glyph.isNumeric c = false := hrest c hc
    refine ⟨hrest.isDigit c hc, ?_⟩
    rintro rfl
    cases hnumeric
  | decimal _ _ _ hrest => exact ⟨hrest c hc, fun _ => by simp⟩
  | fraction _ _ hrest => exact ⟨hrest c hc, fun _ => by simp⟩

/-- No numeral goes on where a number ends: the next character is nothing
that makes numbers, or a second point. -/
theorem Leads.eq_nil_of_spelled {more behind : List Char} (h : Leads text (more ++ behind))
    (hspelled : Spelled (text ++ more)) : more = [] := by
  cases more with
  | nil => rfl
  | cons c cs =>
    obtain ⟨hdigit, hpoint⟩ := h.ends c rfl
    have hnumeric : Glyph.isNumeric c := hspelled.isNumeric c (by simp)
    rcases Glyph.isNumeric_iff.1 hnumeric with hc | rfl
    · rw [hdigit] at hc
      cases hc
    · have hfirst : 0 < text.count '.' := List.count_pos_iff.2 (hpoint rfl)
      have htwo := hspelled.count_point_le
      rw [List.count_append, List.count_cons_self] at htwo
      omega

/-- **What ends as a number does is the longest numeral there is.** -/
theorem Leads.longest (h : Leads text rest) : Longest text (text ++ rest) where
  front := List.prefix_append _ _
  spelled := h.spelled
  longest other hother hspelled := by
    have hfront : text <+: text ++ rest := List.prefix_append text rest
    rcases List.prefix_or_prefix_of_prefix hother hfront with hle | ⟨more, rfl⟩
    · exact hle.length_le
    · -- what a longer one would have on top is the front of the rest
      obtain ⟨behind, rfl⟩ := (List.prefix_append_right_inj text).1 hother
      rw [h.eq_nil_of_spelled hspelled, List.append_nil]

/-- **No number begins a text exactly if no prefix of it is a numeral.** -/
theorem absent_iff : Absent input ↔ ∀ front, front <+: input → ¬ Spelled front := by
  constructor
  · rintro ⟨hdigit, hpoint⟩ front ⟨behind, rfl⟩ hspelled
    have hfirst : ∀ ds : List Char, ds ≠ [] → (∀ c ∈ ds, c.isDigit) → ∀ more,
        ¬ Stops Char.isDigit (ds ++ more) := by
      intro ds hne hds more hstop
      obtain ⟨c, cs, rfl⟩ := List.exists_cons_of_ne_nil hne
      have hc := hds c List.mem_cons_self
      rw [Stops.cons.1 hstop] at hc
      cases hc
    cases hspelled with
    | whole hne hds => exact hfirst _ hne hds _ hdigit
    | decimal hne hds _ =>
      rw [List.append_assoc] at hdigit
      exact hfirst _ hne hds _ hdigit
    | fraction hne hfs => exact hfirst _ hne hfs _ (hpoint _ rfl)
  · intro h
    by_contra hpresent
    obtain ⟨text, rest, hleads, rfl⟩ := exists_leads hpresent
    exact h text (List.prefix_append _ _) hleads.spelled

end Numeral

namespace Lexeme

open Recognizer

variable {input : List Char} {m : Match Token}

/-- The run that is found has its value. -/
theorem leads_of_number (h : number input = .ok m) :
    Numeral.Leads m.text m.rest ∧ m.text ++ m.rest = input ∧
      m.value = .number (Numeral.value m.text) := by
  rcases hrun : numberRun input with t | run
  · simp [number, labelled, valued, hrun] at h
  · obtain rfl : ⟨run.text, .number (Numeral.value run.text), run.rest⟩ = m := by
      simpa [number, labelled, valued, hrun] using h
    obtain ⟨hleads, hinput⟩ := leads_of_numberRun hrun
    exact ⟨hleads, hinput, rfl⟩

end Lexeme

/-- **The recognizer of numbers accepts exactly the grammar, by longest
match.** It finds a number exactly where some prefix is a numeral, and what
it finds is told by three things: its text is the longest such prefix, the
rest is what stands behind, and its value is what that text converts to. So
nothing is taken but digits and a point, and the run ends before a
character that is no digit, and is a point only if it is the second. -/
theorem number_longest (s : List Char) :
    ((∃ m, Lexeme.number s = .ok m) ↔
      ∃ front, front ≠ [] ∧ front <+: s ∧ Numeral.Spelled front) ∧
    (∀ m, Lexeme.number s = .ok m ↔ Numeral.Longest m.text s ∧ m.text ++ m.rest = s ∧
      ∃ v, Binary64.ofText? m.text = some v ∧ m.value = .number v) ∧
    ∀ m, Lexeme.number s = .ok m → (∀ c ∈ m.text, c.isDigit ∨ c = '.') ∧
      ∀ c ∈ m.rest.head?, c.isDigit = false ∧ (c = '.' → '.' ∈ m.text) := by
  refine ⟨?_, fun m => ⟨fun h => ?_, ?_⟩, fun m h => ?_⟩
  · rw [Lexeme.exists_number_iff, Numeral.absent_iff]
    push Not
    exact exists_congr fun front =>
      ⟨fun ⟨hfront, hspelled⟩ => ⟨hspelled.leads.ne_nil, hfront, hspelled⟩, fun ⟨_, h⟩ => h⟩
  · obtain ⟨hleads, hinput, hvalue⟩ := Lexeme.leads_of_number h
    have hlongest := hleads.longest
    rw [hinput] at hlongest
    exact ⟨hlongest, hinput, _, Numeral.ofText?_of_spelled hleads.spelled, hvalue⟩
  · rintro ⟨hlongest, hinput, v, hconverted, hvalue⟩
    -- some number is found, and it is the longest as well
    have hpresent : ¬ Numeral.Absent s := fun habsent =>
      Numeral.absent_iff.1 habsent m.text hlongest.front hlongest.spelled
    obtain ⟨text, rest, hleads, rfl⟩ := Numeral.exists_leads hpresent
    obtain ⟨mtext, mvalue, mrest⟩ := m
    obtain rfl : mtext = text := hlongest.unique hleads.longest
    obtain rfl : mrest = rest := List.append_cancel_left hinput
    obtain rfl : Numeral.value mtext = v :=
      Option.some.inj ((Numeral.ofText?_of_spelled hleads.spelled).symm.trans hconverted)
    rw [Lexeme.number_of_leads hleads, ← hvalue]
  · obtain ⟨hleads, -, -⟩ := Lexeme.leads_of_number h
    exact ⟨fun c hc => Glyph.isNumeric_iff.1 (hleads.isNumeric c hc), hleads.ends⟩

/-- Before a second point a run ends, and what is longer is no numeral. -/
theorem number_longest_second_point :
    Lexeme.number ['1', '.', '.', '2'] =
        .ok ⟨['1', '.'], .number (Numeral.value ['1', '.']), ['.', '2']⟩ ∧
      Numeral.Longest ['1', '.'] ['1', '.', '.', '2'] ∧ '.' ∈ ['1', '.'] := by
  have hfound : Lexeme.number ['1', '.', '.', '2'] =
      .ok ⟨['1', '.'], .number (Numeral.value ['1', '.']), ['.', '2']⟩ := rfl
  obtain ⟨-, hiff, hends⟩ := number_longest ['1', '.', '.', '2']
  exact ⟨hfound, ((hiff _).1 hfound).1, ((hends _ hfound).2 '.' rfl).2 rfl⟩

end Abacus
