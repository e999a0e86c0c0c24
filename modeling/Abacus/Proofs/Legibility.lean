import Abacus.Proofs.Nearest
import Abacus.Proofs.Rereading
import Abacus.Proofs.Runs
import Abacus.Proofs.TokenDocuments

/-!
# Legibility — no two results are printed alike

A writing is legible (`Legible`) if it tells what was written and where the
text of it ends. Texts of one class of characters are legible before
whatever is outside it (`Legible.of_class`), and items are with separators
between them and a mark at the end (`Legible.intercalate`). Tokens and spans
are put together from that, in both formats. An infinity stays apart from
all other numbers, since no word for it is a numeral. So every format has
legible lines, and what is printed tells what was found in each expression
(`printAll_eq_iff_map`).
-/

namespace Abacus

/-! ## Legible writings -/

/-- A text and what stands behind it are told apart by a class that only the
text keeps to. -/
theorem Stops.append_inj {p : Char → Bool} {a b r s : List Char} (ha : ∀ c ∈ a, p c)
    (hb : ∀ c ∈ b, p c) (hr : Stops p r) (hs : Stops p s) (h : a ++ r = b ++ s) :
    a = b ∧ r = s := by
  have htake := congrArg (List.takeWhile p) h
  have hdrop := congrArg (List.dropWhile p) h
  rw [hr.takeWhile_append ha, hs.takeWhile_append hb] at htake
  rw [hr.dropWhile_append ha, hs.dropWhile_append hb] at hdrop
  exact ⟨htake, hdrop⟩

/-- **A legible writing.** Before a text that may stand behind it, what is
written of a known thing tells what the thing says and where it ends. -/
def Legible {α β : Type} (known : α → Prop) (behind : List Char → Prop) (write : α → List Char)
    (told : α → β) : Prop :=
  ∀ ⦃a b : α⦄ ⦃r s : List Char⦄, known a → known b → behind r → behind s →
    write a ++ r = write b ++ s → told a = told b ∧ r = s

namespace Legible

variable {α β : Type} {known : α → Prop} {behind : List Char → Prop} {write : α → List Char}
variable {told : α → β} {between closing : Char}

/-- **Texts of one class are legible** before whatever is outside it. -/
theorem of_class {p : Char → Bool} (hclass : ∀ a, known a → ∀ c ∈ write a, p c)
    (htold : ∀ a b, known a → known b → write a = write b → told a = told b) :
    Legible known (Stops p) write told := by
  intro a b r s ha hb hr hs h
  obtain ⟨hwrite, hrest⟩ := Stops.append_inj (hclass a ha) (hclass b hb) hr hs h
  exact ⟨htold a b ha hb hwrite, hrest⟩

/-- Behind an item stands the next separator, or the mark at the end. -/
theorem behind_items (hbetween : ∀ r, behind (between :: r)) (hclosing : ∀ r, behind (closing :: r))
    (as : List α) (r : List Char) :
    behind (as.flatMap (fun a => between :: write a) ++ closing :: r) := by
  cases as with
  | nil => exact hclosing r
  | cons a as => exact hbetween _

/-- Items that each stand behind a separator. -/
theorem flatMap (h : Legible known behind write told) (hne : between ≠ closing)
    (hbetween : ∀ r, behind (between :: r)) (hclosing : ∀ r, behind (closing :: r))
    {as bs : List α} {r s : List Char} (has : ∀ a ∈ as, known a) (hbs : ∀ b ∈ bs, known b)
    (heq : as.flatMap (fun a => between :: write a) ++ closing :: r =
      bs.flatMap (fun b => between :: write b) ++ closing :: s) :
    as.map told = bs.map told ∧ r = s := by
  induction as generalizing bs with
  | nil =>
    cases bs with
    | nil => exact ⟨rfl, (List.cons.inj heq).2⟩
    | cons b bs => exact absurd (List.cons.inj heq).1.symm hne
  | cons a as ih =>
    cases bs with
    | nil => exact absurd (List.cons.inj heq).1 hne
    | cons b bs =>
      simp only [List.flatMap_cons, List.cons_append, List.append_assoc, List.cons.injEq,
        true_and] at heq
      obtain ⟨htold, hrest⟩ := h (has a List.mem_cons_self) (hbs b List.mem_cons_self)
        (behind_items hbetween hclosing as r) (behind_items hbetween hclosing bs s) heq
      obtain ⟨hmore, hend⟩ := ih (fun c hc => has c (List.mem_cons_of_mem _ hc))
        (fun c hc => hbs c (List.mem_cons_of_mem _ hc)) hrest
      exact ⟨by rw [List.map_cons, List.map_cons, htold, hmore], hend⟩

/-- **Items with separators between them are legible** before anything, once
there is a mark at the end that no item begins with. -/
theorem intercalate (h : Legible known behind write told) (hne : between ≠ closing)
    (hbetween : ∀ r, behind (between :: r)) (hclosing : ∀ r, behind (closing :: r))
    (hfirst : ∀ a, known a → ∃ c cs, write a = c :: cs ∧ c ≠ closing) :
    Legible (fun as => ∀ a ∈ as, known a) (fun _ => True)
      (fun as => [between].intercalate (as.map write) ++ [closing]) (List.map told) := by
  intro as bs r s has hbs _ _ heq
  simp only [List.append_assoc, List.singleton_append] at heq
  have hempty : ∀ {a : α} {as : List α} {r s : List Char}, known a →
      [between].intercalate ((a :: as).map write) ++ closing :: r ≠ closing :: s := by
    intro a as r s ha heq
    obtain ⟨c, cs, hwrite, hc⟩ := hfirst a ha
    rw [List.map_cons, Block.intercalate_cons, hwrite] at heq
    exact hc (List.cons.inj heq).1
  cases as with
  | nil =>
    cases bs with
    | nil => exact ⟨rfl, (List.cons.inj heq).2⟩
    | cons b bs => exact absurd heq.symm (hempty (hbs b List.mem_cons_self))
  | cons a as =>
    cases bs with
    | nil => exact absurd heq (hempty (has a List.mem_cons_self))
    | cons b bs =>
      -- the first item is read by itself, and the others behind their separators
      rw [List.map_cons, List.map_cons, Block.intercalate_cons, Block.intercalate_cons,
        List.append_assoc, List.append_assoc, List.flatMap_map, List.flatMap_map] at heq
      obtain ⟨htold, hrest⟩ := h (has a List.mem_cons_self) (hbs b List.mem_cons_self)
        (behind_items hbetween hclosing as r) (behind_items hbetween hclosing bs s) heq
      obtain ⟨hmore, hend⟩ := h.flatMap hne hbetween hclosing
        (fun c hc => has c (List.mem_cons_of_mem _ hc))
        (fun c hc => hbs c (List.mem_cons_of_mem _ hc)) hrest
      exact ⟨by rw [List.map_cons, List.map_cons, htold, hmore], hend⟩

/-- What stands on both sides of every text tells nothing. -/
theorem enclosed (h : Legible known (fun _ => True) write told) (front back : List Char) :
    Legible known (fun _ => True) (fun a => front ++ (write a ++ back)) told := by
  intro a b r s ha hb _ _ heq
  simp only [List.append_assoc, List.append_cancel_left_eq] at heq
  obtain ⟨htold, hrest⟩ := h ha hb trivial trivial heq
  exact ⟨htold, List.append_cancel_left hrest⟩

/-- What is made of another thing that is known is as legible as that. -/
theorem comp {γ : Type} (h : Legible known behind write told) {f : γ → α} (hf : ∀ c, known (f c)) :
    Legible (fun _ => True) behind (fun c => write (f c)) fun c => told (f c) :=
  fun c d _ _ _ _ hr hs heq => h (hf c) (hf d) hr hs heq

end Legible

theorem legible_toDigits :
    Legible (fun _ => True) (Stops Char.isDigit) (Nat.toDigits 10) fun n => n := by
  refine .of_class (fun n _ => isDigit_toDigits n) fun n m _ _ h => ?_
  calc
    n = Nat.ofDigitChars 10 (Nat.toDigits 10 n) 0 := Nat.ofDigitChars_ten_toDigits.symm
    _ = Nat.ofDigitChars 10 (Nat.toDigits 10 m) 0 := by rw [h]
    _ = m := Nat.ofDigitChars_ten_toDigits

/-! ## Tokens as text -/

namespace Binary64

/-- Infinities of the same sign are the same. -/
theorem eq_of_isInfinite {v w : Binary64} (hsign : v.negative = w.negative) (hv : v.isInfinite)
    (hw : w.isInfinite) : v = w := by
  rw [isInfinite, beq_iff_eq] at hv hw
  exact eq_of_magnitude hsign (hv.trans hw.symm)

end Binary64

namespace Token

theorem exists_infinite {t : Token} (h : t.value?.any Binary64.isInfinite) :
    ∃ v : Binary64, t = .number v ∧ v.isInfinite := by
  cases t with
  | number v => exact ⟨v, rfl, h⟩
  | operator _ => cases h
  | parenthesis _ => cases h

/-- Unsigned tokens that are infinite are the same. -/
theorem Unsigned.eq_of_infinite {t u : Token} (ht : t.Unsigned) (hu : u.Unsigned)
    (hinf : t.value?.any Binary64.isInfinite) (hinf' : u.value?.any Binary64.isInfinite) :
    t = u := by
  obtain ⟨v, rfl, hv⟩ := exists_infinite hinf
  obtain ⟨w, rfl, hw⟩ := exists_infinite hinf'
  have hsign : v.negative = w.negative := (ht v rfl).1.trans (hu w rfl).1.symm
  exact congrArg Token.number (Binary64.eq_of_isInfinite hsign hv hw)

/-- The characters of a token's text are none of those that stand between
tokens. -/
def isMark (c : Char) : Bool := !([' ', '@', '\n'].contains c)

theorem isMark_of_isDigit {c : Char} (h : c.isDigit) : isMark c := by
  have hne : ∀ d : Char, d.isDigit = false → c ≠ d := fun d => ne_of_isDigit h
  simp [isMark, hne]

/-- The text of an unsigned number is the word for the infinity, or a
decimal. -/
theorem Unsigned.text_number {v : Binary64} (h : (number v).Unsigned) :
    (number v).text = ['i', 'n', 'f'] ∨ ∃ w : Written, (number v).text = w.text false := by
  obtain ⟨hneg, hnan⟩ := h v rfl
  unfold text Layout.write
  simp only [hneg, hnan, Bool.false_eq_true, if_false, List.nil_append]
  by_cases hinf : v.isInfinite
  · exact .inl (if_pos hinf)
  · have hfinite : v.isFinite := by simp [Binary64.isFinite_iff, hinf, hnan]
    obtain ⟨w, -, -, htext⟩ := exists_written hfinite
    exact .inr ⟨w, by rw [if_neg hinf, ← htext]; rfl⟩

/-- **The text of a token is made of its marks**, and there is one. -/
theorem Unsigned.isMark_text {t : Token} (h : t.Unsigned) :
    t.text ≠ [] ∧ ∀ c ∈ t.text, isMark c := by
  cases t with
  | operator o => exact ⟨by simp [text], List.forall_mem_singleton.2 (by cases o <;> rfl)⟩
  | parenthesis p => exact ⟨by simp [text], List.forall_mem_singleton.2 (by cases p <;> rfl)⟩
  | number v =>
    rcases h.text_number with htext | ⟨w, htext⟩ <;> rw [htext]
    · exact ⟨by simp, List.all_eq_true.1 rfl⟩
    · refine ⟨by simp [Written.text, w.whole_ne_nil], fun c hc => ?_⟩
      have hmarks : ∀ c ∈ ['.', 'e', '+', '-'], isMark c := List.all_eq_true.1 rfl
      exact (Written.mem_text_cases hc).elim isMark_of_isDigit (hmarks c)

/-- **Unsigned tokens with the same text are the same**: the text is parsed as
the token, or the token is infinite. -/
theorem Unsigned.eq_of_text {t u : Token} (ht : t.Unsigned) (hu : u.Unsigned)
    (h : t.text = u.text) : t = u := by
  have hexpand : t.expand = u.expand := by rw [← parse_text, ← parse_text, h]
  rw [ht.expand_eq, hu.expand_eq] at hexpand
  -- infinities are parsed as nothing, so those two are compared by themselves
  by_cases hinf : t.value?.any Binary64.isInfinite <;>
    by_cases hinf' : u.value?.any Binary64.isInfinite
  · exact ht.eq_of_infinite hu hinf hinf'
  · rw [if_pos hinf, if_neg hinf'] at hexpand
    cases hexpand
  · rw [if_neg hinf, if_pos hinf'] at hexpand
    cases hexpand
  · rw [if_neg hinf, if_neg hinf'] at hexpand
    exact List.singleton_inj.1 hexpand

theorem legible_text : Legible Unsigned (Stops isMark) text fun t => t :=
  .of_class (fun _ ht => ht.isMark_text.2) fun _ _ ht hu => ht.eq_of_text hu

theorem Unsigned.begins_text {t : Token} (h : t.Unsigned) :
    ∃ c cs, t.text = c :: cs ∧ c ≠ '\n' := by
  obtain ⟨hne, hmarks⟩ := h.isMark_text
  obtain ⟨c, cs, htext⟩ := List.exists_cons_of_ne_nil hne
  have hmark : isMark c := hmarks c (htext ▸ List.mem_cons_self)
  exact ⟨c, cs, htext, fun hc => absurd hmark (by rw [hc]; decide)⟩

end Token

/-- A token with its bytes: neither the at-sign nor a point is taken for a
part of what stands before it. -/
theorem TokenSpan.legible_text :
    Legible (fun t : TokenSpan => t.token.Unsigned) (Stops Char.isDigit) text bytes := by
  intro t u r s ht hu hr hs h
  simp only [text, List.append_assoc, List.cons_append] at h
  obtain ⟨(htoken : t.token = u.token), h⟩ :=
    Token.legible_text ht hu (Stops.cons.2 rfl) (Stops.cons.2 rfl) h
  obtain ⟨(hstart : t.span.start = u.span.start), h⟩ :=
    legible_toDigits trivial trivial (Stops.cons.2 rfl) (Stops.cons.2 rfl) (List.cons.inj h).2
  obtain ⟨(hstop : t.span.stop = u.span.stop), h⟩ :=
    legible_toDigits trivial trivial hr hs (List.cons.inj (List.cons.inj h).2).2
  exact ⟨by rw [bytes, bytes, htoken, hstart, hstop], h⟩

/-! ## Tokens in JSON -/

open Json

namespace Json

/-- A finite number has digits, a point, a mark and signs, and nothing else. -/
theorem not_mem_number {v : Binary64} (hv : v.isFinite) {c : Char} (hdigit : c.isDigit = false)
    (hmark : c ∉ ['.', 'e', '+', '-']) : c ∉ number v := by
  obtain ⟨w, hnumber, -⟩ := exists_number hv
  intro hc
  rw [hnumber, List.mem_append] at hc
  rcases hc with hc | hc
  · split at hc
    · exact hmark (by simp [List.mem_singleton.1 hc])
    · cases hc
  · rcases Written.mem_text_cases hc with h | h
    · rw [hdigit] at h
      cases h
    · exact hmark h

/-- What is written like a finite number is finite. -/
theorem isFinite_of_number {v w : Binary64} (hv : v.isFinite) (h : number v = number w) :
    w.isFinite := by
  by_contra hw
  have hnull : 'n' ∈ number w := by
    rw [number, if_neg hw]
    exact List.mem_cons_self
  exact not_mem_number hv rfl (by decide) (h ▸ hnull)

/-- **Unsigned numbers with the same text are the same**: finite ones by what
they denote, and null is the infinity. -/
theorem eq_of_number {v w : Binary64} (hv : v.negative = false ∧ v.isNaN = false)
    (hw : w.negative = false ∧ w.isNaN = false) (h : number v = number w) : v = w := by
  have hsign : v.negative = w.negative := hv.1.trans hw.1.symm
  by_cases hfinite : v.isFinite
  · obtain ⟨d, -, -, -, -, hmagnitude, htext, -⟩ := exists_number hfinite
    obtain ⟨d', -, -, -, -, hmagnitude', htext', -⟩ :=
      exists_number (isFinite_of_number hfinite h)
    refine Binary64.eq_of_magnitude hsign ?_
    rw [← hmagnitude, ← hmagnitude', ← htext, ← htext', h]
  · have hfinite' : ¬ w.isFinite := fun hw => hfinite (isFinite_of_number hw h.symm)
    refine Binary64.eq_of_isInfinite hsign ?_ ?_
    · simpa [Binary64.isFinite_iff, hv.2] using hfinite
    · simpa [Binary64.isFinite_iff, hw.2] using hfinite'

theorem brace_not_mem_number (v : Binary64) : '\x7d' ∉ number v := by
  by_cases hv : v.isFinite
  · exact not_mem_number hv rfl (by decide)
  · rw [number, if_neg hv]
    decide

variable {α β : Type} {known : α → Prop} {behind : List Char → Prop} {write : α → List Char}
variable {told : α → β}

/-- A member is as legible as its value. -/
theorem legible_member (name : String) (h : Legible known behind write told) :
    Legible known behind (fun a => Json.member name (write a)) told := by
  intro a b r s ha hb hr hs heq
  simp only [Json.member, List.append_assoc, List.cons_append, List.append_cancel_left_eq,
    List.cons.injEq, true_and] at heq
  exact h ha hb hr hs heq

end Json

namespace Token

/-- What is refused when it is read back is a number. -/
theorem exists_number_of_reread {t : Token} {fault : Fault} (h : t.reread = .error fault) :
    ∃ v, t = .number v := by
  cases t with
  | number v => exact ⟨v, rfl⟩
  | operator _ => cases h
  | parenthesis _ => cases h

/-- **Unsigned tokens that are the same in JSON are the same**: symbols come
back when they are read, and numbers are told by their text. -/
theorem Unsigned.eq_of_toJson {t u : Token} (ht : t.Unsigned) (hu : u.Unsigned)
    (h : t.toJson = u.toJson) : t = u := by
  have hback : t.reread = u.reread := by
    rw [← read_of_answers t.answers_reader .held, h, read_of_answers u.answers_reader .held]
  -- a number may come back as another one, so numbers are left to their texts
  obtain rfl | ⟨v, w, rfl, rfl⟩ : t = u ∨ ∃ v w, t = .number v ∧ u = .number w := by
    cases hx : t.reread with
    | ok x =>
      have htx := returnsAs_of_reread hx
      have hux := returnsAs_of_reread (hback ▸ hx)
      cases htx <;> cases hux
      · exact .inr ⟨_, _, rfl, rfl⟩
      · exact .inl rfl
      · exact .inl rfl
    | error fault =>
      obtain ⟨v, hv⟩ := exists_number_of_reread hx
      obtain ⟨w, hw⟩ := exists_number_of_reread (hback ▸ hx)
      exact .inr ⟨v, w, hv, hw⟩
  · rfl
  · simp only [toJson, object, Json.member, List.intercalate_singleton, List.cons.injEq, true_and,
      List.append_cancel_left_eq, List.append_cancel_right_eq] at h
    exact congrArg Token.number (eq_of_number (ht v rfl) (hu w rfl) h)

/-- A token in JSON has no closing brace but its own. -/
theorem exists_member (t : Token) : ∃ text, t.toJson = '\x7b' :: (text ++ ['\x7d']) ∧
    ∀ c ∈ text, (c != '\x7d') = true := by
  cases t with
  | number v =>
    have hname : ∀ c ∈ Json.text Kind.number.name.toList, (c != '\x7d') = true :=
      List.all_eq_true.1 (by decide)
    refine ⟨Json.member Kind.number.name (Json.number v), by simp [toJson, object], ?_⟩
    rw [Json.member, List.forall_mem_append, List.forall_mem_cons]
    exact ⟨hname, rfl, fun c hc => by simpa using ne_of_mem_of_not_mem hc (brace_not_mem_number v)⟩
  | operator o => exact ⟨_, rfl, List.all_eq_true.1 (by cases o <;> decide)⟩
  | parenthesis p => exact ⟨_, rfl, List.all_eq_true.1 (by cases p <;> decide)⟩

/-- **A token in JSON is legible** before anything. -/
theorem legible_toJson : Legible Unsigned (fun _ => True) toJson fun t => t := by
  intro t u r s ht hu _ _ h
  obtain ⟨a, ha, hclass⟩ := t.exists_member
  obtain ⟨b, hb, hclass'⟩ := u.exists_member
  have hbody : a ++ '\x7d' :: r = b ++ '\x7d' :: s := by
    simpa [ha, hb] using h
  obtain ⟨rfl, hrest⟩ :=
    Stops.append_inj hclass hclass' (Stops.cons.2 rfl) (Stops.cons.2 rfl) hbody
  exact ⟨ht.eq_of_toJson hu (ha.trans hb.symm), (List.cons.inj hrest).2⟩

end Token

/-- **A span in JSON is legible** before anything. -/
theorem Span.legible_toJson :
    Legible (fun _ => True) (fun _ => True) Span.toJson fun s => s := by
  intro a b r s _ _ _ _ h
  simp only [Span.toJson, object, List.intercalate_cons_cons, List.intercalate_singleton,
    List.append_assoc, List.cons_append, List.nil_append, List.cons.injEq, true_and] at h
  -- a digit goes on neither into a comma nor into a brace
  have hcomma : ∀ r, Stops Char.isDigit (',' :: r) := fun _ => Stops.cons.2 rfl
  have hbrace : ∀ r, Stops Char.isDigit ('\x7d' :: r) := fun _ => Stops.cons.2 rfl
  obtain ⟨(hstart : a.start = b.start), h⟩ :=
    legible_member "start" legible_toDigits trivial trivial (hcomma _) (hcomma _) h
  obtain ⟨(hstop : a.stop = b.stop), h⟩ :=
    legible_member "end" legible_toDigits trivial trivial (hcomma _) (hcomma _) (List.cons.inj h).2
  obtain ⟨(hline : a.line = b.line), h⟩ :=
    legible_member "line" legible_toDigits trivial trivial (hcomma _) (hcomma _) (List.cons.inj h).2
  obtain ⟨(hcolumn : a.column = b.column), h⟩ :=
    legible_member "column" legible_toDigits trivial trivial (hbrace _) (hbrace _)
      (List.cons.inj h).2
  refine ⟨?_, (List.cons.inj h).2⟩
  cases a
  cases b
  simp only [Span.mk.injEq]
  exact ⟨hstart, hstop, hline, hcolumn⟩

/-- **A token with its span in JSON is legible** before anything. -/
theorem TokenSpan.legible_toJson :
    Legible (fun t : TokenSpan => t.token.Unsigned) (fun _ => True) TokenSpan.toJson
      fun t => t := by
  intro t u r s ht hu _ _ h
  simp only [TokenSpan.toJson, object, List.intercalate_cons_cons, List.intercalate_singleton,
    List.append_assoc, List.cons_append, List.nil_append, List.cons.injEq, true_and] at h
  obtain ⟨(htoken : t.token = u.token), h⟩ :=
    legible_member "token" Token.legible_toJson ht hu trivial trivial h
  obtain ⟨(hspan : t.span = u.span), h⟩ :=
    legible_member "span" Span.legible_toJson trivial trivial trivial trivial (List.cons.inj h).2
  refine ⟨?_, (List.cons.inj h).2⟩
  cases t
  cases u
  simp only [TokenSpan.mk.injEq]
  exact ⟨htoken, hspan⟩

/-! ## Lines -/

theorem unsigned_of_mem_tokenize {e : List Char} {t : TokenSpan} (h : t ∈ tokenize e) :
    t.token.Unsigned :=
  Token.unsigned_of_mem_parse (List.mem_map_of_mem h)

section

variable {α β : Type} {known : α → Prop} {p : Char → Bool} {write : α → List Char} {told : α → β}

/-- Texts with spaces between them, on a line. -/
theorem legible_joinSpaced (h : Legible known (Stops p) write told) (hspace : p ' ' = false)
    (hnewline : p '\n' = false) (hfirst : ∀ a, known a → ∃ c cs, write a = c :: cs ∧ c ≠ '\n') :
    Legible (fun as => ∀ a ∈ as, known a) (fun _ => True)
      (fun as => joinSpaced (as.map write) ++ ['\n']) (List.map told) :=
  h.intercalate (by decide) (fun _ => Stops.cons.2 hspace) (fun _ => Stops.cons.2 hnewline) hfirst

/-- An array of objects, on a line. -/
theorem legible_array (h : Legible known (fun _ => True) write told)
    (hfirst : ∀ a, known a → ∃ cs, write a = '\x7b' :: cs) :
    Legible (fun as => ∀ a ∈ as, known a) (fun _ => True)
      (fun as => array (as.map write) ++ ['\n']) (List.map told) := by
  have hbrace : ∀ a, known a → ∃ c cs, write a = c :: cs ∧ c ≠ ']' := fun a ha => by
    obtain ⟨cs, hcs⟩ := hfirst a ha
    exact ⟨_, cs, hcs, by decide⟩
  have hcomma : ',' ≠ ']' := by decide
  have hitems := h.intercalate hcomma (fun _ => trivial) (fun _ => trivial) hbrace
  exact hitems.enclosed ['['] ['\n']

end

/-- **A line of text tells the tokens**, the infinities among them. -/
theorem legible_line_text :
    Legible (fun _ => True) (fun _ => True) (printedLine .text false) parse := by
  have h : Legible (fun _ => True) (fun _ => True) (printedLine .text false) fun e =>
      (parse e).map fun t => t :=
    (legible_joinSpaced Token.legible_text rfl rfl fun _ => Token.Unsigned.begins_text).comp
      fun _ _ => Token.unsigned_of_mem_parse
  simpa only [List.map_id'] using h

/-- **With spans it tells their bytes as well.** -/
theorem legible_line_text_spans :
    Legible (fun _ => True) (fun _ => True) (printedLine .text true) fun e =>
      (tokenize e).map TokenSpan.bytes := by
  have hfirst : ∀ t : TokenSpan, t.token.Unsigned → ∃ c cs, t.text = c :: cs ∧ c ≠ '\n' := by
    intro t ht
    obtain ⟨c, cs, htext, hc⟩ := ht.begins_text
    exact ⟨c, _, by rw [TokenSpan.text, htext, List.cons_append], hc⟩
  exact (legible_joinSpaced TokenSpan.legible_text rfl rfl hfirst).comp
    fun _ _ => unsigned_of_mem_tokenize

/-- **A line of JSON tells the tokens**, each null an infinity. -/
theorem legible_line_json :
    Legible (fun _ => True) (fun _ => True) (printedLine .json false) parse := by
  have h : Legible (fun _ => True) (fun _ => True) (printedLine .json false) fun e =>
      (parse e).map fun t => t :=
    (legible_array Token.legible_toJson fun t _ => ⟨_, t.exists_member.choose_spec.1⟩).comp
      fun _ _ => Token.unsigned_of_mem_parse
  simpa only [List.map_id'] using h

/-- **With spans it tells all of them.** -/
theorem legible_line_json_spans :
    Legible (fun _ => True) (fun _ => True) (printedLine .json true) tokenize := by
  have h : Legible (fun _ => True) (fun _ => True) (printedLine .json true) fun e =>
      (tokenize e).map fun t => t :=
    (legible_array TokenSpan.legible_toJson fun _ _ => ⟨_, rfl⟩).comp
      fun _ _ => unsigned_of_mem_tokenize
  simpa only [List.map_id'] using h

/-! ## Outputs -/

/-- The bytes of tokens are all that is written of their spans. -/
theorem TokenSpan.map_text_eq {ts us : List TokenSpan}
    (h : ts.map TokenSpan.bytes = us.map TokenSpan.bytes) :
    ts.map TokenSpan.text = us.map TokenSpan.text := by
  have htext : TokenSpan.text = (fun b : Token × Nat × Nat => b.1.text ++
      '@' :: (Nat.toDigits 10 b.2.1 ++ '.' :: '.' :: Nat.toDigits 10 b.2.2)) ∘
        TokenSpan.bytes := rfl
  rw [htext, ← List.map_map, ← List.map_map, h]

section

variable {β : Type} {told : List Char → β}

/-- **An output tells what was found in each expression**, and no more, if
the lines of its format do. -/
theorem printAll_eq_iff_map (s : Settings)
    (hlegible : Legible (fun _ => True) (fun _ => True) (printedLine s.format s.showSpans) told)
    (htold : ∀ a b, told a = told b →
      printedLine s.format s.showSpans a = printedLine s.format s.showSpans b)
    (t u : Tokenizer) (as bs : List (List Char)) :
    (printAll s t as).1 = (printAll s u bs).1 ↔ as.map told = bs.map told := by
  rw [printAll_fst, printAll_fst]
  have hne : ∀ e es, (e :: es).flatMap (printedLine s.format s.showSpans) ≠ [] := fun e es => by
    simp [printedLine]
  induction as generalizing bs with
  | nil =>
    cases bs with
    | nil => exact iff_of_true rfl rfl
    | cons b bs => exact iff_of_false (hne b bs).symm (by simp)
  | cons a as ih =>
    cases bs with
    | nil => exact iff_of_false (hne a as) (by simp)
    | cons b bs =>
      constructor
      · intro h
        obtain ⟨hline, hlines⟩ := hlegible trivial trivial trivial trivial h
        rw [List.map_cons, List.map_cons, hline, (ih bs).1 hlines]
      · intro h
        obtain ⟨hline, hlines⟩ := List.cons.inj h
        rw [List.flatMap_cons, List.flatMap_cons, htold a b hline, (ih bs).2 hlines]

/-- So does the output for one expression. -/
theorem printAll_eq_iff_of_legible (s : Settings)
    (hlegible : Legible (fun _ => True) (fun _ => True) (printedLine s.format s.showSpans) told)
    (htold : ∀ a b, told a = told b →
      printedLine s.format s.showSpans a = printedLine s.format s.showSpans b)
    (t u : Tokenizer) (a b : List Char) :
    (printAll s t [a]).1 = (printAll s u [b]).1 ↔ told a = told b := by
  rw [printAll_eq_iff_map s hlegible htold]
  simp

end

/-- **No format confuses two results.** Lines of text tell the tokens, and
with spans the bytes of each. Lines of JSON tell the tokens, and with spans
all of their spans. -/
theorem printAll_eq_iff (filter : List Char) (t u : Tokenizer) (a b : List Char) :
    ((printAll ⟨.text, filter, false⟩ t [a]).1 = (printAll ⟨.text, filter, false⟩ u [b]).1 ↔
      parse a = parse b) ∧
    ((printAll ⟨.text, filter, true⟩ t [a]).1 = (printAll ⟨.text, filter, true⟩ u [b]).1 ↔
      (tokenize a).map TokenSpan.bytes = (tokenize b).map TokenSpan.bytes) ∧
    ((printAll ⟨.json, filter, false⟩ t [a]).1 = (printAll ⟨.json, filter, false⟩ u [b]).1 ↔
      parse a = parse b) ∧
    ((printAll ⟨.json, filter, true⟩ t [a]).1 = (printAll ⟨.json, filter, true⟩ u [b]).1 ↔
      tokenize a = tokenize b) := by
  refine ⟨?_, ?_, ?_, ?_⟩
  · refine printAll_eq_iff_of_legible ⟨.text, filter, false⟩ legible_line_text
      (fun c d h => ?_) t u a b
    exact congrArg (fun ts => formatTokens ts ++ ['\n']) h
  · refine printAll_eq_iff_of_legible ⟨.text, filter, true⟩ legible_line_text_spans
      (fun c d h => ?_) t u a b
    exact congrArg (fun texts => joinSpaced texts ++ ['\n']) (TokenSpan.map_text_eq h)
  · refine printAll_eq_iff_of_legible ⟨.json, filter, false⟩ legible_line_json
      (fun c d h => ?_) t u a b
    exact congrArg (fun ts => tokensJson ts ++ ['\n']) h
  · refine printAll_eq_iff_of_legible ⟨.json, filter, true⟩ legible_line_json_spans
      (fun c d h => ?_) t u a b
    exact congrArg (fun ts => spansJson ts ++ ['\n']) h

end Abacus
