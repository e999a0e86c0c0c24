import Abacus.Proofs.JsonNumbers
import Abacus.Token.Json
import Mathlib.Data.List.Forall2

/-!
# Token documents — printed tokens, read back

Printed tokens are read by the same shapes that print them, so each reader
answers what is printed with what comes back of it (`Token.answers_reader`,
`TokenSpan.answers_reader`), and a list with what comes back of its items
in order. Symbols and spans come back as they are. Numbers may not
(`Token.ReturnsAs`), and one that is not finite stops the reading.
`ReadBack` puts the three together for lists of tokens and of tokens with
their spans (`readBack_printed`).
-/

namespace Abacus

open Json

/-! ## What comes back -/

namespace Token

/-- **What comes back of a printed token.** A symbol is itself. -/
def reread : Token → Except Fault Token
  | .number v => .number <$> Json.reread v
  | t => .ok t

end Token

/-- What comes back of a token with its span, which is kept. -/
def TokenSpan.reread (t : TokenSpan) : Except Fault TokenSpan :=
  (fun token => ⟨token, t.span⟩) <$> t.token.reread

/-! ## Tokens -/

theorem Operator.answers_reader (o : Operator) : Answers Operator.reader o.toJson (.ok o) :=
  answers_plainVariant (by cases o <;> decide)

theorem Parenthesis.answers_reader (p : Parenthesis) :
    Answers Parenthesis.reader p.toJson (.ok p) :=
  answers_plainVariant (by cases p <;> decide)

/-- **A printed token is answered** by what comes back of it. -/
theorem Token.answers_reader (t : Token) : Answers Token.reader t.toJson t.reread := by
  cases t with
  | number v =>
    exact answers_variant (k := Kind.number) (by decide)
      ((answers_double v).map Token.number)
  | operator o =>
    exact answers_variant (k := Kind.operator) (by decide)
      (o.answers_reader.map Token.operator)
  | parenthesis p =>
    exact answers_variant (k := Kind.parenthesis) (by decide)
      (p.answers_reader.map Token.parenthesis)

/-! ## Spans -/

namespace Span

/-- The numbers of a span fit 64 bits. -/
def Fits (s : Span) : Prop :=
  s.start < 2 ^ 64 ∧ s.stop < 2 ^ 64 ∧ s.line < 2 ^ 64 ∧ s.column < 2 ^ 64

/-- A field that is not there yet is read and set. -/
theorem reads_field (name : String) (f : Fields) (set : Nat → Fields)
    (hmember : Span.member name.toList f =
      (do let n ← memberOnce name none naturalValue; pure (set n)))
    {n : Nat} (hn : n < 2 ^ 64) {more : List UInt8} (hmore : Ends more) :
    Reads (Span.member name.toList f) (byte ':' :: (Utf8.encode (natural n) ++ more)) (set n)
      more := by
  rw [hmember]
  exact gives_field name set (answers_naturalValue (Nat.le_pred_of_lt hn)) hmore

/-- **A printed span is itself.** -/
theorem answers_reader {s : Span} (h : s.Fits) : Answers Span.reader s.toJson (.ok s) := by
  obtain ⟨hstart, hstop, hline, hcolumn⟩ := h
  have hrecord : Answers Span.reader s.toJson
      ((.ok ⟨some s.start, some s.stop, some s.line, some s.column⟩ : Except Fault Fields) >>=
        fun _ => .ok s) := by
    refine answers_record (encode_member_ne_nil _ _) (fun rounds rest hrounds => ?_)
      (fun f rest hf => ?_)
    · obtain ⟨rounds, rfl⟩ : ∃ n, rounds = n + 5 := ⟨rounds - 5, by simp at hrounds; omega⟩
      have hcomma : ∀ bs, Ends (byte ',' :: bs) := .cons (by decide)
      have hclosing : Ends (byte '\x7d' :: rest) := .cons (by decide) rest
      simp only [following_cons, following_nil, List.cons_append, List.nil_append,
        List.append_assoc]
      -- each member finds its own field empty and those before it set
      refine Reads.members true (reads_field "start" ⟨none, none, none, none⟩
        (fun n => ⟨some n, none, none, none⟩) rfl hstart (hcomma _)) ?_
      refine Reads.members false (reads_field "end" _
        (fun n => ⟨some s.start, some n, none, none⟩) rfl hstop (hcomma _)) ?_
      refine Reads.members false (reads_field "line" _
        (fun n => ⟨some s.start, some s.stop, some n, none⟩) rfl hline (hcomma _)) ?_
      refine Reads.members false (reads_field "column" _
        (fun n => ⟨some s.start, some s.stop, some s.line, some n⟩) rfl hcolumn hclosing) ?_
      exact reads_members_end rounds _ rest
    · obtain rfl := Except.ok.inj hf
      exact Reads.pure s rest
  exact hrecord

end Span

/-! ## Tokens with spans -/

namespace TokenSpan

/-- The token of a token with its span is read first, and set. -/
theorem gives_token (t : Token) {more : List UInt8} (hmore : Ends more) :
    Gives (TokenSpan.member "token".toList ⟨none, none⟩)
      (byte ':' :: (Utf8.encode t.toJson ++ more)) ((fun token => ⟨some token, none⟩) <$> t.reread)
      more := by
  have hmember : TokenSpan.member "token".toList ⟨none, none⟩ =
      (do let t ← memberOnce "token" none Token.reader; pure ⟨some t, none⟩) := rfl
  rw [hmember]
  exact gives_field "token" _ t.answers_reader hmore

/-- Its span is read second, and set. -/
theorem reads_span (token : Token) {s : Span} (h : s.Fits) {more : List UInt8}
    (hmore : Ends more) :
    Reads (TokenSpan.member "span".toList ⟨some token, none⟩)
      (byte ':' :: (Utf8.encode s.toJson ++ more)) ⟨some token, some s⟩ more := by
  have hmember : TokenSpan.member "span".toList ⟨some token, none⟩ =
      (do let s ← memberOnce "span" none Span.reader; pure ⟨some token, some s⟩) := rfl
  rw [hmember]
  exact gives_field "span" _ (Span.answers_reader h) hmore

/-- **A printed token with its span is answered** by what comes back of its
token. -/
theorem answers_reader {t : TokenSpan} (h : t.span.Fits) :
    Answers TokenSpan.reader t.toJson t.reread := by
  have hrecord : Answers TokenSpan.reader t.toJson
      (((fun token => (⟨some token, none⟩ : Fields)) <$> t.token.reread >>= fun f =>
        .ok { f with span := some t.span }) >>= fun _ => t.reread) := by
    refine answers_record (encode_member_ne_nil _ _) (fun rounds rest hrounds => ?_)
      (fun f rest hf => ?_)
    · obtain ⟨rounds, rfl⟩ : ∃ n, rounds = n + 3 := ⟨rounds - 3, by simp at hrounds; omega⟩
      have hclosing : Ends (byte '\x7d' :: rest) := .cons (by decide) rest
      simp only [following_cons, following_nil, List.cons_append, List.nil_append,
        List.append_assoc]
      refine gives_members true (gives_token t.token (.cons (by decide) _)) fun f hf => ?_
      -- the span is read only behind a token that was
      cases ht : t.token.reread with
      | error fault =>
        rw [ht] at hf
        cases hf
      | ok token =>
        rw [ht] at hf
        obtain rfl := Except.ok.inj hf
        refine Reads.members false (reads_span token h hclosing) ?_
        exact reads_members_end rounds _ rest
    · unfold reread
      cases ht : t.token.reread with
      | error fault =>
        rw [ht] at hf
        cases hf
      | ok token =>
        rw [ht] at hf
        obtain rfl := Except.ok.inj hf
        exact Reads.pure (⟨token, t.span⟩ : TokenSpan) rest
  have hreread : (((fun token => (⟨some token, none⟩ : Fields)) <$> t.token.reread >>= fun f =>
      .ok { f with span := some t.span }) >>= fun _ => t.reread) = t.reread := by
    unfold reread
    cases t.token.reread <;> rfl
  rwa [hreread] at hrecord

end TokenSpan

/-! ## Lists of them -/

theorem begins_object (ms : List (List Char)) : Begins (object ms) :=
  ⟨'\x7b', _, rfl, by decide, by decide, by decide⟩

theorem Token.begins_toJson (t : Token) : Begins t.toJson := by
  cases t <;> exact begins_object _

/-- **A list comes to the answers of its items**, or to the fault of one of
them. -/
theorem mapM_cases {α β : Type} (f : α → Except Fault β) (as : List α) :
    (∃ bs, as.mapM f = .ok bs ∧ List.Forall₂ (fun a b => f a = .ok b) as bs) ∨
      ∃ a ∈ as, ∃ fault, f a = .error fault ∧ as.mapM f = .error fault := by
  induction as with
  | nil => exact .inl ⟨[], rfl, .nil⟩
  | cons a as ih =>
    rw [List.mapM_cons]
    cases ha : f a with
    | error fault => exact .inr ⟨a, List.mem_cons_self, fault, ha, rfl⟩
    | ok b =>
      obtain ⟨bs, has, hbs⟩ | ⟨c, hc, fault, hfault, has⟩ := ih
      · exact .inl ⟨b :: bs, by rw [has]; rfl, .cons ha hbs⟩
      · exact .inr ⟨c, List.mem_cons_of_mem a hc, fault, hfault, by rw [has]; rfl⟩

/-- **What reading a printed list comes to**, where each item holds a token:
a list of the same length exactly if every number is finite, each item as
it returns, or else a document that does not fit. -/
structure ReadBack {α : Type} (token : α → Token) (Returns : α → α → Prop) (printed : List α)
    (result : Except Json.ReadError (List α)) : Prop where
  succeeds_iff : (∃ back, result = .ok back) ↔ ∀ a ∈ printed, ∀ v ∈ (token a).value?, v.isFinite
  mismatched : ∀ e, result = .error e → e.fault.category = .mismatched
  returns : ∀ back, result = .ok back → List.Forall₂ Returns printed back

/-- It is enough to know what comes back of each item. -/
theorem readBack_of_reread {α : Type} {token : α → Token} {Returns : α → α → Prop}
    {printed : List α} {result : Except Json.ReadError (List α)} {again : α → Except Fault α}
    (hresult : result.mapError Json.ReadError.fault = printed.mapM again)
    (hfinite : ∀ a, (∃ b, again a = .ok b) ↔ ∀ v ∈ (token a).value?, v.isFinite)
    (hfault : ∀ a fault, again a = .error fault → fault.category = .mismatched)
    (hreturns : ∀ a b, again a = .ok b → Returns a b) : ReadBack token Returns printed result := by
  obtain ⟨bs, hall, hbs⟩ | ⟨a, ha, fault, hagain, hall⟩ := mapM_cases again printed
  · rw [hall] at hresult
    obtain rfl : result = .ok bs := by
      cases result with
      | ok back => exact congrArg Except.ok (Except.ok.inj hresult)
      | error e => cases hresult
    refine ⟨iff_of_true ⟨bs, rfl⟩ fun a ha => ?_, (fun e he => by cases he), fun back hback => ?_⟩
    · have hitems : List.Forall₂ (fun a b => (∃ b, again a = .ok b) ∧ again a = .ok b) printed bs :=
        hbs.imp fun a b hab => ⟨⟨b, hab⟩, hab⟩
      exact (hfinite a).1 ((List.forall₂_and_left _ _).1 hitems |>.1 a ha)
    · obtain rfl := Except.ok.inj hback
      exact hbs.imp hreturns
  · rw [hall] at hresult
    obtain ⟨e, rfl, rfl⟩ : ∃ e, result = .error e ∧ e.fault = fault := by
      cases result with
      | ok back => cases hresult
      | error e => exact ⟨e, rfl, Except.error.inj hresult⟩
    refine ⟨iff_of_false (by simp) fun hall => ?_, fun e' he => ?_,
      fun back hback => by cases hback⟩
    · obtain ⟨b, hb⟩ := (hfinite a).2 (hall a ha)
      rw [hagain] at hb
      cases hb
    · obtain rfl := Except.error.inj he
      exact hfault a _ hagain

/-! ## What survives -/

/-- **How a printed token returns**: a symbol as itself, and a number as
itself if its printed digits and power of ten are small. -/
inductive Token.ReturnsAs : Token → Token → Prop
  | number {v w : Binary64}
      (same : (Decimal.ofText (Json.number v)).digits ≤ 2 ^ 53 →
        (Decimal.ofText (Json.number v)).exponent.natAbs ≤ 22 → w = v) :
      ReturnsAs (.number v) (.number w)
  | operator (o : Operator) : ReturnsAs (.operator o) (.operator o)
  | parenthesis (p : Parenthesis) : ReturnsAs (.parenthesis p) (.parenthesis p)

/-- A span returns as itself. -/
structure TokenSpan.ReturnsAs (t u : TokenSpan) : Prop where
  token : t.token.ReturnsAs u.token
  span : u.span = t.span

namespace Token

theorem exists_reread_iff (t : Token) : (∃ u, t.reread = .ok u) ↔ ∀ v ∈ t.value?, v.isFinite := by
  cases t with
  | number v =>
    constructor
    · rintro ⟨u, hu⟩ w hw
      obtain rfl := Option.some.inj hw
      by_contra hv
      rw [reread, Json.reread, if_neg hv] at hu
      cases hu
    · intro h
      obtain ⟨w, hw⟩ := exists_reread (h v rfl)
      exact ⟨.number w, by rw [reread, hw]; rfl⟩
  | operator o => exact iff_of_true ⟨_, rfl⟩ (by simp [value?])
  | parenthesis p => exact iff_of_true ⟨_, rfl⟩ (by simp [value?])

/-- What is not finite comes back as null, which does not fit. -/
theorem category_of_reread {t : Token} {fault : Fault} (h : t.reread = .error fault) :
    fault.category = .mismatched := by
  cases t with
  | number v =>
    by_cases hv : v.isFinite
    · obtain ⟨w, hw⟩ := exists_reread hv
      rw [reread, hw] at h
      cases h
    · rw [reread, Json.reread, if_neg hv] at h
      obtain rfl := Except.error.inj h
      rfl
  | operator o => cases h
  | parenthesis p => cases h

theorem returnsAs_of_reread {t u : Token} (h : t.reread = .ok u) : t.ReturnsAs u := by
  cases t with
  | number v =>
    have hv : v.isFinite := (exists_reread_iff _).1 ⟨u, h⟩ v rfl
    obtain ⟨w, hw⟩ := exists_reread hv
    rw [reread, hw] at h
    obtain rfl := Except.ok.inj h
    refine .number fun hdigits hpower => ?_
    rw [reread_of_exact hv hdigits hpower] at hw
    exact (Except.ok.inj hw).symm
  | operator o =>
    obtain rfl := Except.ok.inj h
    exact .operator o
  | parenthesis p =>
    obtain rfl := Except.ok.inj h
    exact .parenthesis p

end Token

namespace TokenSpan

theorem reread_eq_ok_iff {t u : TokenSpan} :
    t.reread = .ok u ↔ t.token.reread = .ok u.token ∧ u.span = t.span := by
  obtain ⟨token, span⟩ := u
  unfold reread
  cases t.token.reread with
  | ok again =>
    constructor
    · intro h
      cases h
      exact ⟨rfl, rfl⟩
    · rintro ⟨h, rfl⟩
      cases h
      rfl
  | error fault => exact iff_of_false (fun h => by cases h) fun h => by cases h.1

theorem exists_reread_iff (t : TokenSpan) :
    (∃ u, t.reread = .ok u) ↔ ∀ v ∈ t.token.value?, v.isFinite := by
  rw [← t.token.exists_reread_iff]
  constructor
  · rintro ⟨u, hu⟩
    exact ⟨u.token, (reread_eq_ok_iff.1 hu).1⟩
  · rintro ⟨token, h⟩
    exact ⟨⟨token, t.span⟩, reread_eq_ok_iff.2 ⟨h, rfl⟩⟩

theorem category_of_reread {t : TokenSpan} {fault : Fault} (h : t.reread = .error fault) :
    fault.category = .mismatched := by
  unfold reread at h
  cases ht : t.token.reread with
  | ok token =>
    rw [ht] at h
    cases h
  | error g =>
    rw [ht] at h
    obtain rfl := Except.error.inj h
    exact Token.category_of_reread ht

theorem returnsAs_of_reread {t u : TokenSpan} (h : t.reread = .ok u) : t.ReturnsAs u := by
  obtain ⟨htoken, hspan⟩ := reread_eq_ok_iff.1 h
  exact ⟨Token.returnsAs_of_reread htoken, hspan⟩

end TokenSpan

/-- **Printed tokens are read back**, with their spans or without, if every
number is finite. What is not is printed as null. -/
theorem readBack_printed (source : Source) :
    (∀ v : Binary64, v.isFinite = false → number v = "null".toList) ∧
    (∀ ts : List Token,
      ReadBack id Token.ReturnsAs ts (tokensOfJson source (Utf8.encode (tokensJson ts)))) ∧
    ∀ ts : List TokenSpan, (∀ t ∈ ts, t.span.Fits) →
      ReadBack TokenSpan.token TokenSpan.ReturnsAs ts
        (spansOfJson source (Utf8.encode (spansJson ts))) := by
  refine ⟨fun v hv => ?_, fun ts => ?_, fun ts hts => ?_⟩
  · rw [number, hv]
    rfl
  · have hlist : Answers (list Token.reader) (tokensJson ts) (ts.mapM Token.reread) :=
      answers_list (fun t _ => t.begins_toJson) fun t _ => t.answers_reader
    exact readBack_of_reread (read_of_answers hlist source) Token.exists_reread_iff
      (fun _ _ => Token.category_of_reread) fun _ _ => Token.returnsAs_of_reread
  · have hlist : Answers (list TokenSpan.reader) (spansJson ts) (ts.mapM TokenSpan.reread) :=
      answers_list (fun t _ => begins_object _) fun t ht => TokenSpan.answers_reader (hts t ht)
    exact readBack_of_reread (read_of_answers hlist source) TokenSpan.exists_reread_iff
      (fun _ _ => TokenSpan.category_of_reread) fun _ _ => TokenSpan.returnsAs_of_reread

/-- A number that is exact returns with its span, and so does a parenthesis.
Behind them, the infinity makes the document not fit. -/
theorem readBack_printed_spans :
    (spansOfJson .held (Utf8.encode (spansJson
        [⟨.number (Binary64.ofRatio true 3 2), ⟨0, 4, 1, 1⟩⟩,
          ⟨.parenthesis .opening, ⟨5, 6, 2, 1⟩⟩])) =
      .ok [⟨.number (Binary64.ofRatio true 3 2), ⟨0, 4, 1, 1⟩⟩,
        ⟨.parenthesis .opening, ⟨5, 6, 2, 1⟩⟩]) ∧
    ∃ e, spansOfJson .arriving (Utf8.encode (spansJson
        [⟨.parenthesis .opening, ⟨5, 6, 2, 1⟩⟩,
          ⟨.number (Binary64.ofMagnitude false Binary64.infiniteMagnitude), ⟨6, 9, 2, 2⟩⟩])) =
      .error e ∧ e.fault.category = .mismatched := by
  constructor
  · obtain ⟨hsucceeds, -, hreturns⟩ := (readBack_printed .held).2.2
      [⟨.number (Binary64.ofRatio true 3 2), ⟨0, 4, 1, 1⟩⟩, ⟨.parenthesis .opening, ⟨5, 6, 2, 1⟩⟩]
      (by simp [Span.Fits])
    obtain ⟨back, hback⟩ := hsucceeds.2 (by decide +kernel)
    obtain _ | ⟨⟨hnumber, hspan⟩, _ | ⟨⟨hparenthesis, hspan'⟩, _ | _⟩⟩ := hreturns back hback
    rename_i t u
    obtain ⟨token, span⟩ := t
    obtain ⟨token', span'⟩ := u
    obtain ⟨hsame⟩ | _ | _ := hnumber
    obtain _ | _ | _ := hparenthesis
    obtain rfl := hspan
    obtain rfl := hspan'
    rw [hback, hsame (by decide +kernel) (by decide +kernel)]
  · obtain ⟨hsucceeds, hmismatched, -⟩ := (readBack_printed .arriving).2.2
      [⟨.parenthesis .opening, ⟨5, 6, 2, 1⟩⟩,
        ⟨.number (Binary64.ofMagnitude false Binary64.infiniteMagnitude), ⟨6, 9, 2, 2⟩⟩]
      (by simp [Span.Fits])
    generalize spansOfJson _ _ = result at *
    cases result with
    | ok back => exact absurd (hsucceeds.1 ⟨back, rfl⟩) (by decide +kernel)
    | error e => exact ⟨e, rfl, hmismatched e rfl⟩

end Abacus
