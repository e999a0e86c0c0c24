import Abacus.Proofs.Numerals

/-!
# Trails — the accounts of failures

A recognizer that finds nothing leaves a trail of complaints. Of
alternatives that all failed only the last one is spoken of, so a trail
does not grow with what was tried. The file gives the whole trail of each
recognizer, and the texts in front of which it is left (`trails_exact`):
the innermost complaint may be about the text behind a point, all the
others are about the text itself. So each trail leads out to the text that
was there (`Trail.LeadsOut`), and none tells of a number that was found and
could not be converted.
-/

namespace Abacus

/-- **A trail leads out to a text**: from some place in it to all of it. -/
structure Trail.LeadsOut (t : Trail) (input : List Char) : Prop where
  /-- Each complaint is about an end of the text. -/
  suffix : ∀ c ∈ t, c.rest <:+ input
  /-- None is about less than those inside of it. -/
  widening : t.Pairwise fun c d => c.rest.length ≤ d.rest.length
  /-- The outermost one is about the text, -/
  outermost : t.getLast?.map Complaint.rest = some input
  /-- and so are all but the innermost: nothing of the text was taken. -/
  around : ∀ c ∈ t.tail, c.rest = input

/-- A complaint about an end of a text, and behind it some about the text. -/
theorem Trail.leadsOut_cons {c : Complaint} {input : List Char} (hc : c.rest <:+ input)
    (wanted : List Expectation) (hne : wanted ≠ []) :
    Trail.LeadsOut (c :: wanted.map fun w => ⟨input, w⟩) input where
  suffix d hd := by
    rcases List.mem_cons.1 hd with rfl | hd
    · exact hc
    · obtain ⟨w, -, rfl⟩ := List.mem_map.1 hd
      exact List.suffix_rfl
  widening := by
    refine List.pairwise_cons.2 ⟨fun d hd => ?_, ?_⟩
    · obtain ⟨w, -, rfl⟩ := List.mem_map.1 hd
      exact hc.length_le
    · exact List.pairwise_map.2 (List.pairwise_of_forall fun _ _ => Nat.le_refl _)
  outermost := by
    obtain ⟨before, last, rfl⟩ := (List.eq_nil_or_concat' wanted).resolve_left hne
    rw [List.map_append, ← List.cons_append, List.map_singleton, List.getLast?_concat]
    rfl
  around d hd := by
    obtain ⟨w, -, rfl⟩ := List.mem_map.1 hd
    rfl

/-- What is missing of a number stands in the text, behind its point if it
has one. -/
theorem Numeral.missing_suffix (input : List Char) : (missing input).rest <:+ input := by
  unfold missing
  split
  · exact List.suffix_cons _ _
  · exact List.suffix_rfl

namespace Recognizer

variable {α : Type} {r : Recognizer α} {input : List Char} {p : Prop} {u : Trail}

/-- Where a recognizer fails is known, and what it says there. -/
theorem error_iff (hfail : p → r input = .error u) (hfind : ¬ p → ∃ m, r input = .ok m)
    {t : Trail} : r input = .error t ↔ p ∧ t = u := by
  constructor
  · intro h
    by_cases hp : p
    · exact ⟨hp, Except.error.inj (h.symm.trans (hfail hp))⟩
    · obtain ⟨m, hm⟩ := hfind hp
      rw [hm] at h
      cases h
  · rintro ⟨hp, rfl⟩
    exact hfail hp

end Recognizer

namespace Lexeme

open Recognizer

variable {s : List Char} {t : Trail}

theorem number_error_iff : number s = .error t ↔ Numeral.Absent s ∧
    t = [Numeral.missing s, ⟨s, .alternatives⟩, ⟨s, .label "number run"⟩,
      ⟨s, .label "number"⟩] := by
  refine error_iff (fun h => ?_) exists_number_iff.2
  rw [number, labelled, valued, numberRun_trail h]
  rfl

theorem operator_error_iff : operator s = .error t ↔ (∀ o : Operator, s.head? ≠ some o.glyph) ∧
    t = [⟨s, .char '/'⟩, ⟨s, .alternatives⟩, ⟨s, .label "operator"⟩] := by
  refine error_iff operator_trail fun h => ?_
  push Not at h
  obtain ⟨o, ho⟩ := h
  obtain ⟨rest, rfl⟩ := List.head?_eq_some_iff.1 ho
  exact ⟨_, operator_glyph o rest⟩

theorem parenthesis_error_iff :
    parenthesis s = .error t ↔ (∀ p : Parenthesis, s.head? ≠ some p.glyph) ∧
      t = [⟨s, .char ')'⟩, ⟨s, .alternatives⟩, ⟨s, .label "parenthesis"⟩] := by
  refine error_iff parenthesis_trail fun h => ?_
  push Not at h
  obtain ⟨p, hp⟩ := h
  obtain ⟨rest, rfl⟩ := List.head?_eq_some_iff.1 hp
  exact ⟨_, parenthesis_glyph p rest⟩

/-- Noise fails only where nothing is left, since it takes any character. -/
theorem noise_error_iff : noise s = .error t ↔ s = [] ∧
    t = [⟨s, .anyChar⟩, ⟨s, .alternatives⟩, ⟨s, .label "noise"⟩] := by
  refine error_iff (fun h => ?_) fun h => ?_
  · subst h
    rfl
  · obtain ⟨c, cs, rfl⟩ := List.exists_cons_of_ne_nil h
    cases hc : Glyph.isRecognized c with
    | true => exact ⟨_, noise_recognized hc⟩
    | false => exact ⟨_, noise_not_recognized hc cs⟩

end Lexeme

open Lexeme

/-- **The trails of failures are exact.** Each recognizer fails in front of
known texts and leaves one known trail there, in which of all alternatives
only the last is spoken of. For a number that is the point, or the digit
behind a point; whatever a conversion that is refused would say, it is not
said. And each trail leads out to the text. -/
theorem trails_exact (s : List Char) :
    (∀ t, number s = .error t ↔ Numeral.Absent s ∧
      t = [Numeral.missing s, ⟨s, .alternatives⟩, ⟨s, .label "number run"⟩,
        ⟨s, .label "number"⟩]) ∧
    (∀ t, operator s = .error t ↔ (∀ o : Operator, s.head? ≠ some o.glyph) ∧
      t = [⟨s, .char '/'⟩, ⟨s, .alternatives⟩, ⟨s, .label "operator"⟩]) ∧
    (∀ t, parenthesis s = .error t ↔ (∀ p : Parenthesis, s.head? ≠ some p.glyph) ∧
      t = [⟨s, .char ')'⟩, ⟨s, .alternatives⟩, ⟨s, .label "parenthesis"⟩]) ∧
    (∀ t, noise s = .error t ↔ s = [] ∧
      t = [⟨s, .anyChar⟩, ⟨s, .alternatives⟩, ⟨s, .label "noise"⟩]) ∧
    (∀ refused t, Recognizer.labelled "number" (numberRun.converted
        (fun text => (Binary64.ofText? text).map Token.number) refused) s = .error t →
      number s = .error t) ∧
    ∀ t, (number s = .error t ∨ operator s = .error t ∨ parenthesis s = .error t ∨
      noise s = .error t) → Trail.LeadsOut t s := by
  refine ⟨fun _ => number_error_iff, fun _ => operator_error_iff, fun _ => parenthesis_error_iff,
    fun _ => noise_error_iff, fun refused t h => ?_, fun t h => ?_⟩
  · rwa [number_eq_converted refused]
  · rcases h with h | h | h | h
    · obtain ⟨-, rfl⟩ := number_error_iff.1 h
      exact Trail.leadsOut_cons (Numeral.missing_suffix s)
        [.alternatives, .label "number run", .label "number"] (by simp)
    · obtain ⟨-, rfl⟩ := operator_error_iff.1 h
      have hall : (Complaint.mk s (.char '/')).rest <:+ s := List.suffix_rfl
      exact Trail.leadsOut_cons hall [.alternatives, .label "operator"] (by simp)
    · obtain ⟨-, rfl⟩ := parenthesis_error_iff.1 h
      have hall : (Complaint.mk s (.char ')')).rest <:+ s := List.suffix_rfl
      exact Trail.leadsOut_cons hall [.alternatives, .label "parenthesis"] (by simp)
    · obtain ⟨-, rfl⟩ := noise_error_iff.1 h
      have hall : (Complaint.mk s .anyChar).rest <:+ s := List.suffix_rfl
      exact Trail.leadsOut_cons hall [.alternatives, .label "noise"] (by simp)

/-- A point before an operator: the digit is missed behind the point, and
the trail leads out of there. -/
theorem trails_exact_point :
    number ['.', '+'] = .error [⟨['+'], .digit⟩, ⟨['.', '+'], .alternatives⟩,
      ⟨['.', '+'], .label "number run"⟩, ⟨['.', '+'], .label "number"⟩] ∧
    Trail.LeadsOut [⟨['+'], .digit⟩, ⟨['.', '+'], .alternatives⟩,
      ⟨['.', '+'], .label "number run"⟩, ⟨['.', '+'], .label "number"⟩] ['.', '+'] := by
  obtain ⟨hnumber, -, -, -, -, hout⟩ := trails_exact ['.', '+']
  have hfails := (hnumber _).2 ⟨absent_of_stops (Stops.cons.2 rfl), rfl⟩
  exact ⟨hfails, hout _ (.inl hfails)⟩

end Abacus
