import Abacus.Log.Filter
import Abacus.Proofs.Coverage

/-!
# Filters — which texts can be read

The words of a directive are cut from its text at places that were counted
in the trimmed text. Where these places lie between characters, no word
begins or ends within one (`Directive.Steady`), and so the text is read, if
only to be refused (`Directive.whole_read`). That is so of ASCII
(`Directive.steady_of_ascii`) and of texts without white space at their
start (`Directive.steady_of_stops`). A filter of such parts is always
found, whatever its words are (`LogFilter.exists_choose`).
-/

namespace Abacus

open Directive

/-! ## Places between characters -/

/-- The places along what is left of a text, counted from the byte `a` on,
lie between characters. -/
def Along (s : List Char) (a : Nat) (left : List Char) : Prop :=
  ∀ front back, front ++ back = left → IsBoundary s (a + Utf8.size front)

namespace Along

variable {s left front back : List Char} {a : Nat} {c : Char}

theorem here (h : Along s a left) : IsBoundary s a := h [] left rfl

/-- It stays so behind a front of what is left. -/
theorem behind (h : Along s a (front ++ back)) : Along s (a + Utf8.size front) back := by
  intro f b hfb
  have := h (front ++ f) b (by rw [List.append_assoc, hfb])
  rwa [Utf8.size_append, ← Nat.add_assoc] at this

/-- And behind a mark, which is one byte. -/
theorem behind_mark (h : Along s a (c :: left)) (hc : c.utf8Size = 1) : Along s (a + 1) left := by
  have hbehind : Along s (a + Utf8.size [c]) left := h.behind
  rwa [Utf8.size_cons, Utf8.size_nil, hc] at hbehind

end Along

/-! ## Reading without a split character -/

/-- A text is read, or refused as no directive. -/
def Whole {α : Type} (r : Except Misread α) : Prop := r ≠ .error .splitCharacter

namespace Whole

variable {α β : Type}

theorem ok (v : α) : Whole (.ok v : Except Misread α) := by simp [Whole]

theorem malformed : Whole (.error .malformed : Except Misread α) := by simp [Whole]

theorem bind {x : Except Misread α} {f : α → Except Misread β} (hx : Whole x)
    (hf : ∀ v, Whole (f v)) : Whole (x >>= f) := by
  cases x with
  | ok v => exact hf v
  | error e =>
    intro h
    exact hx (by simpa [Bind.bind, Except.bind] using h)

theorem map {x : Except Misread α} (hx : Whole x) (f : α → β) : Whole (x.map f) := by
  cases x with
  | ok v => exact ok (f v)
  | error e =>
    intro h
    exact hx (by simpa [Except.map] using h)

theorem mapM {xs : List α} {f : α → Except Misread β} (h : ∀ x ∈ xs, Whole (f x)) :
    Whole (xs.mapM f) := by
  induction xs with
  | nil => exact ok []
  | cons x xs ih =>
    rw [List.mapM_cons]
    exact bind (h x List.mem_cons_self) fun v =>
      bind (ih fun y hy => h y (List.mem_cons_of_mem x hy)) fun vs => ok (v :: vs)

end Whole

/-! ## One directive -/

namespace Directive

variable {s left : List Char} {a b : Nat}

theorem cutFrom_append (before after : List Char) :
    cutFrom (before ++ after) (Utf8.size before) = .ok after := by
  rw [cutFrom, Utf8.split?_size]

theorem whole_cutFrom (h : IsBoundary s a) : Whole (cutFrom s a) := by
  obtain ⟨before, after, rfl, rfl⟩ := h
  rw [cutFrom_append]
  exact .ok after

theorem cut_append {before after word rest : List Char} {b : Nat}
    (h : Utf8.split? (b - Utf8.size before) after = some (word, rest)) :
    cut (before ++ after) (Utf8.size before) b = .ok word := by
  simp only [cut, cutFrom_append, Bind.bind, Except.bind, h]
  rfl

/-- **A word between two places between characters is cut.** -/
theorem whole_cut (ha : IsBoundary s a) (hb : IsBoundary s b) : Whole (cut s a b) := by
  obtain ⟨before, after, rfl, rfl⟩ := ha
  obtain ⟨front, back, hfront, rfl⟩ := hb
  rcases List.append_eq_append_iff.1 hfront with ⟨word, rfl, rfl⟩ | ⟨word, rfl, -⟩
  · have hsize : Utf8.size (before ++ word) - Utf8.size before = Utf8.size word := by
      rw [Utf8.size_append]
      omega
    rw [cut_append (hsize ▸ Utf8.split?_size word back)]
    exact .ok word
  · -- the second place is not behind the first, so the word is empty
    have hsize : Utf8.size front - Utf8.size (front ++ word) = 0 := by
      rw [Utf8.size_append]
      omega
    have hnone : Utf8.split? (Utf8.size front - Utf8.size (front ++ word)) after =
        some ([], after) := by
      rw [hsize, Utf8.split?]
    rw [cut_append hnone]
    exact .ok []

theorem whole_limitAfter (s : List Char) : Whole (limitAfter s) := by
  unfold limitAfter
  split
  · exact .ok _
  · split
    · exact .malformed
    · exact .ok _

theorem whole_field (s : List Char) : Whole (FieldPattern.read s) := by
  unfold FieldPattern.read
  dsimp only
  split
  · exact .ok _
  · refine .map ?_ _
    unfold ValuePattern.read
    split
    · exact .ok _
    · split
      · exact .malformed
      · exact .ok _

/-- **A mark is found behind a word of what is left.** -/
theorem nextMark_eq_some {marks rest : List Char} {mark : Char}
    (h : nextMark marks a left = some (b, mark, rest)) :
    ∃ word, left = word ++ mark :: rest ∧ b = a + Utf8.size word ∧ mark ∈ marks := by
  have hleft : left.takeWhile (fun c => !marks.contains c) ++
      left.dropWhile (fun c => !marks.contains c) = left := List.takeWhile_append_dropWhile
  unfold nextMark at h
  rcases hdrop : left.dropWhile (fun c => !marks.contains c) with - | ⟨c, more⟩
  · rw [hdrop] at h
    cases h
  · have hmark : c ∈ marks := by
      have := List.head?_dropWhile_not (fun c => !marks.contains c) left
      rw [hdrop] at this
      simpa using this
    rw [hdrop] at h hleft
    injection h with h
    injection h with hb h
    injection h with hc hmore
    exact ⟨_, by rw [← hc, ← hmore, hleft], hb.symm, hc ▸ hmark⟩

/-- The marks of directives are one byte each. -/
theorem utf8Size_of_mem_marks {c : Char} (h : c ∈ ['=', '[', ']', '\x7b', '\x7d']) :
    c.utf8Size = 1 := by
  simp only [List.mem_cons, List.not_mem_nil, or_false] at h
  rcases h with rfl | rfl | rfl | rfl | rfl <;> rfl

/-- **Places stay between characters from mark to mark.** -/
theorem along_of_nextMark {marks rest : List Char} {mark : Char} (h : Along s a left)
    (hmarks : marks ⊆ ['=', '[', ']', '\x7b', '\x7d'])
    (hnext : nextMark marks a left = some (b, mark, rest)) :
    IsBoundary s b ∧ Along s (b + 1) rest := by
  obtain ⟨word, rfl, rfl, hmark⟩ := nextMark_eq_some hnext
  exact ⟨h.behind.here, h.behind.behind_mark (utf8Size_of_mem_marks (hmarks hmark))⟩

theorem whole_afterBracket (h : Along s a left) (target span : Option (List Char))
    (field : Option FieldPattern) : Whole (afterBracket s target span field a left) := by
  cases left with
  | nil => exact .ok _
  | cons c cs =>
    rw [afterBracket]
    split
    · next hc =>
      subst hc
      exact .bind (whole_cutFrom (h.behind_mark rfl).here) fun word =>
        .bind (whole_limitAfter word) fun limit => .ok _
    · exact .malformed

theorem whole_inBrace (h : Along s a left) (target span : Option (List Char)) :
    Whole (inBrace s target span a left) := by
  unfold inBrace
  split
  · exact .malformed
  · next b _ rest hnext =>
    obtain ⟨hb, hrest⟩ := along_of_nextMark h (by simp) hnext
    refine .bind (whole_cut h.here hb) fun word => ?_
    split
    · exact .malformed
    · refine .bind (whole_field word) fun field => ?_
      split
      · exact whole_afterBracket (hrest.behind_mark rfl) _ _ _
      · exact .malformed

theorem whole_inBracket (h : Along s a left) (target : Option (List Char)) :
    Whole (inBracket s target a left) := by
  unfold inBracket
  split
  · exact .malformed
  · next b mark rest hnext =>
    obtain ⟨hb, hrest⟩ := along_of_nextMark h (by simp) hnext
    refine .bind (whole_cut h.here hb) fun name => ?_
    split
    · exact whole_afterBracket hrest _ _ _
    · exact whole_inBrace hrest _ _

/-- **A text is steady** when the places of the trimmed text are places
between characters of the text as it is. -/
def Steady (s : List Char) : Prop := Along s 0 (trim s)

/-- **No word of a steady text is split.** -/
theorem whole_read (h : Steady s) : Whole (read s) := by
  unfold Steady at h
  unfold read
  split
  · exact .malformed
  · next c cs htrim =>
    rw [htrim] at h
    split
    · next hc =>
      subst hc
      exact whole_inBracket (h.behind_mark rfl) none
    · split
      · exact .malformed
      · split
        · exact .ok _
        · next b mark rest hnext =>
          obtain ⟨hb, hrest⟩ := along_of_nextMark h (by simp) hnext
          refine .bind (whole_cut h.here hb) fun target => ?_
          split
          · exact .bind (whole_cutFrom hrest.here) fun word =>
              .bind (whole_limitAfter word) fun limit => .ok _
          · exact whole_inBracket hrest (some target)

/-- Texts without white space at their start are steady: trimming them
leaves a front. -/
theorem steady_of_stops (h : Stops isWhiteSpace s) : Steady s := by
  have hstart : s.dropWhile isWhiteSpace = s := by
    cases s with
    | nil => rfl
    | cons c cs => rw [List.dropWhile_cons_of_neg (by simpa using h)]
  obtain ⟨blanks, hblanks⟩ : trim s <+: s := by
    rw [trim, hstart]
    exact List.rdropWhile_prefix isWhiteSpace s
  intro front back hfront
  rw [Nat.zero_add]
  refine ⟨front, back ++ blanks, ?_, rfl⟩
  rw [← List.append_assoc, hfront, hblanks]

/-- ASCII texts are steady: they have a byte for each character. -/
theorem steady_of_ascii (h : ∀ c ∈ s, c.utf8Size = 1) : Steady s := by
  have htrim : trim s <:+: s :=
    (List.rdropWhile_prefix isWhiteSpace _).isInfix.trans
      (List.dropWhile_suffix isWhiteSpace).isInfix
  intro front back hfront
  have hmem : ∀ c ∈ front, c ∈ s := fun c hc =>
    htrim.subset (hfront ▸ List.mem_append_left back hc)
  have hlength : front.length ≤ s.length := by
    have := htrim.length_le
    rw [← hfront, List.length_append] at this
    omega
  refine ⟨s.take front.length, s.drop front.length, (List.take_append_drop ..).symm, ?_⟩
  rw [Nat.zero_add, Utf8.size_eq_length fun c hc => h c (List.mem_of_mem_take hc),
    Utf8.size_eq_length fun c hc => h c (hmem c hc), List.length_take]
  omega

end Directive

/-! ## Filters -/

namespace LogFilter

/-- A filter's text is steady when its parts are. -/
def Steady (text : List Char) : Prop := ∀ p ∈ parts text, Directive.Steady p

/-- The parts of a filter are made of its characters. -/
theorem mem_of_mem_pieces {text p : List Char} (hp : p ∈ parts.pieces text) :
    ∀ c ∈ p, c ∈ text := by
  induction text generalizing p with
  | nil => simp_all [parts.pieces]
  | cons d cs ih =>
    rw [parts.pieces] at hp
    split at hp
    · simp_all
    · next q qs hpieces =>
      rw [hpieces] at ih
      split at hp
      · rcases List.mem_cons.1 hp with rfl | hp
        · simp
        · exact fun c hc => List.mem_cons_of_mem d (ih hp c hc)
      · rcases List.mem_cons.1 hp with rfl | hp
        · intro c hc
          rcases List.mem_cons.1 hc with rfl | hc
          · exact List.mem_cons_self
          · exact List.mem_cons_of_mem d (ih List.mem_cons_self c hc)
        · exact fun c hc => List.mem_cons_of_mem d (ih (List.mem_cons_of_mem q hp) c hc)

/-- The filters that are written in ASCII are. -/
theorem steady_of_ascii {text : List Char} (h : text.all fun c => c.utf8Size = 1) :
    Steady text := by
  intro p hp
  refine Directive.steady_of_ascii fun c hc => ?_
  exact of_decide_eq_true (List.all_eq_true.1 h c (mem_of_mem_pieces (List.mem_filter.1 hp).1 c hc))

theorem exists_directives {ps : List (List Char)} (h : ∀ p ∈ ps, Directive.Steady p) :
    ∃ f, directives ps = .ok f := by
  induction ps with
  | nil => exact ⟨[], rfl⟩
  | cons p ps ih =>
    obtain ⟨f, hf⟩ := ih fun q hq => h q (List.mem_cons_of_mem p hq)
    have hwhole := whole_read (h p List.mem_cons_self)
    rw [directives]
    rcases hp : Directive.read p with (- | -) | d
    · exact ⟨f, hf⟩
    · exact absurd hp hwhole
    · exact ⟨d :: f, by rw [hf]; rfl⟩

/-- **A filter is found**, whether or not what the environment asks for is
one. -/
theorem exists_choose {environment : Option (List Char)} {fallback : List Char}
    (henvironment : ∀ text ∈ environment, Steady text) (hfallback : Steady fallback) :
    ∃ f, choose environment fallback = .ok f := by
  have hread : ∀ text ∈ environment, Whole (read text) := fun text htext =>
    .mapM fun p hp => whole_read (henvironment text htext p hp)
  unfold choose
  split
  · exact ⟨_, rfl⟩
  · next hsplit =>
    obtain ⟨text, htext, hsplit⟩ := Option.map_eq_some_iff.1 hsplit
    exact absurd hsplit (hread text htext)
  · exact exists_directives hfallback

/-- Where there is a filter over one fallback, there is one over any that is
steady. -/
theorem exists_choose_of_choose {environment : Option (List Char)} {fallback other : List Char}
    {f : LogFilter} (h : choose environment fallback = .ok f) (hother : Steady other) :
    ∃ g, choose environment other = .ok g := by
  unfold choose at h ⊢
  rcases hread : environment.map read with - | (- | -) | g
  · exact exists_directives hother
  · exact exists_directives hother
  · rw [hread] at h
    cases h
  · exact ⟨g, rfl⟩

end LogFilter

end Abacus
