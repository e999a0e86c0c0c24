import Abacus.Json.Shape
import Abacus.Proofs.Encoding

/-!
# Readers abreast — a document held, and the same one arriving

A reader may stand in a document that is held, or in one that arrives. The
two states differ: of a document that arrives the byte that was looked at
is there already. A reader agrees with itself (`Agrees`) if from two such
states, as far in the same text, it comes to the same value, or to the same
fault in places that differ by that byte at most, and again to two such
states. All readers agree, and they do so because the steps do and because
agreement is closed under steps in a row.

Two steps need to be told where they stand, so `AgreesOn` says it for
states that have looked at the next byte. A failure at that byte has one
place for both only if it has arrived. And a text between quotation marks
is decoded, which cannot fail behind a mark: what follows a character of
ASCII in a text is a text (`exists_encode_of_suffix`).
-/

namespace Abacus

namespace Utf8

/-- A character whose first byte is one of ASCII has no other. -/
theorem Shape.tail_eq_nil {c : Char} {a : UInt8} {tail : List UInt8} (h : Shape c (a :: tail))
    (ha : a.toNat < 0x80) : tail = [] := by
  cases h with
  | one => rfl
  | two => omega
  | three => omega
  | four => omega

/-- And the bytes behind the first are none of ASCII. -/
theorem Shape.le_of_mem_tail {c : Char} {a : UInt8} {tail : List UInt8} (h : Shape c (a :: tail)) :
    ∀ b ∈ tail, 0x80 ≤ b.toNat := by
  intro b hb
  cases h <;> simp only [List.mem_cons, List.not_mem_nil, or_false] at hb
  case two =>
    subst hb
    omega
  case three => rcases hb with rfl | rfl <;> omega
  case four => rcases hb with rfl | rfl | rfl <;> omega

/-- Bytes that are those of a text. -/
def IsText (bytes : List UInt8) : Prop := ∃ text, bytes = encode text

/-- **Behind a byte of ASCII the bytes of a text are those of a text.** -/
theorem isText_of_suffix {text : List Char} {b : UInt8} {bs : List UInt8}
    (h : b :: bs <:+ encode text) (hb : b.toNat < 0x80) : IsText bs := by
  obtain ⟨front, hfront⟩ := h
  induction text generalizing front with
  | nil => simp at hfront
  | cons c text ih =>
    have hshape := shape_encode c
    rw [encode_cons] at hfront
    obtain ⟨within, hchar, hbs⟩ | ⟨behind, -, htext⟩ := List.append_eq_append_iff.1 hfront
    · -- the byte begins the text behind the character, or it is all of the character
      cases within with
      | nil => exact ih [] (by simpa using hbs)
      | cons d within =>
        obtain ⟨rfl, rfl⟩ := List.cons.inj hbs
        rw [hchar] at hshape
        cases front with
        | nil => exact ⟨text, by rw [hshape.tail_eq_nil hb]; rfl⟩
        | cons a front => exact absurd (hshape.le_of_mem_tail b (by simp)) (Nat.not_le.2 hb)
    · exact ih behind htext.symm

/-- So a text may be cut behind its first byte, if that is one of ASCII. -/
theorem IsText.tail {b : UInt8} {bs : List UInt8} (h : IsText (b :: bs)) (hb : b.toNat < 0x80) :
    IsText bs := by
  obtain ⟨text, htext⟩ := h
  exact isText_of_suffix ⟨[], htext⟩ hb

/-- One byte of ASCII is a text. -/
theorem isText_singleton {b : UInt8} (hb : b.toNat < 0x80) : IsText [b] := by
  have hchar : (Char.ofNat b.toNat).toNat = b.toNat := toNat_ofNat (.inl (by omega))
  have hshape := shape_encode (Char.ofNat b.toNat)
  have hone : Shape (Char.ofNat b.toNat) [b] := .one (by omega) hchar.symm
  exact ⟨[Char.ofNat b.toNat], by rw [encode_cons, hshape.unique hone]; rfl⟩

end Utf8

namespace Json

/-! ## Two states, two outcomes -/

/-- A state in a document that is held. -/
def State.held (n : Nat) (rest : List UInt8) : State := ⟨.held, n, rest, false⟩

/-- A state in a document that arrives. -/
def State.arriving (n : Nat) (rest : List UInt8) (peeked : Bool) : State :=
  ⟨.arriving, n, rest, peeked⟩

/-- **Places that differ by the byte that was looked at**, at most. -/
inductive Near : Option Nat → Option Nat → Prop
  | unset : Near none none
  | same (n : Nat) : Near (some n) (some n)
  | ahead (n : Nat) : Near (some n) (some (n + 1))

variable {doc : List Char} {α β σ : Type}

/-- **Two outcomes alike**: one value or one fault, and as far in the
document, which is not found to be no text. -/
inductive Alike (doc : List Char) :
    EStateM.Result Failure State α → EStateM.Result Failure State α → Prop
  | ok (a : α) {n : Nat} {rest : List UInt8} (peeked : Bool) : rest <:+ Utf8.encode doc →
      Alike doc (.ok a (.held n rest)) (.ok a (.arriving n rest peeked))
  | error {fault : Fault} {p q : Option Nat} {n : Nat} {rest : List UInt8} {peeked : Bool} :
      rest <:+ Utf8.encode doc → fault ≠ .invalidUtf8 → Near p q →
      Alike doc (.error ⟨fault, p⟩ (.held n rest)) (.error ⟨fault, q⟩ (.arriving n rest peeked))

/-- **A reader agrees with itself** in a document held and arriving. -/
def Agrees (doc : List Char) (r : Reader α) : Prop :=
  ∀ (n : Nat) (rest : List UInt8) (peeked : Bool), rest <:+ Utf8.encode doc →
    Alike doc (r (.held n rest)) (r (.arriving n rest peeked))

/-- A reader agrees with itself where the next byte was looked at. -/
def AgreesOn (doc : List Char) (o : Option UInt8) (r : Reader α) : Prop :=
  ∀ (n : Nat) (rest : List UInt8), rest <:+ Utf8.encode doc → rest.head? = o →
    Alike doc (r (.held n rest)) (r (.arriving n rest o.isSome))

section

variable {r : Reader α} {f : α → Reader β} {o : Option UInt8}

/-- A reader that agrees need not know what was looked at. -/
theorem Agrees.on (h : Agrees doc r) (o : Option UInt8) : AgreesOn doc o r :=
  fun n rest hrest _ => h n rest _ hrest

/-! ## Steps in a row -/

/-- A value that is there reads nothing. -/
theorem Agrees.pure (a : α) : Agrees doc (Pure.pure a : Reader α) :=
  fun _ _ peeked hrest => .ok a peeked hrest

/-- What comes of two outcomes alike is alike. -/
theorem Alike.bind {s t : State} (h : Alike doc (r s) (r t)) (hf : ∀ a, Agrees doc (f a)) :
    Alike doc ((r >>= f) s) ((r >>= f) t) := by
  simp only [Bind.bind, EStateM.bind]
  generalize r s = x at h
  generalize r t = y at h
  cases h with
  | ok a peeked hrest => exact hf a _ _ peeked hrest
  | error hrest hfault hnear => exact .error hrest hfault hnear

/-- **Readers that agree do so in a row.** -/
theorem Agrees.bind (h : Agrees doc r) (hf : ∀ a, Agrees doc (f a)) : Agrees doc (r >>= f) :=
  fun n rest peeked hrest => (h n rest peeked hrest).bind hf

/-- The first of them may know the byte that was looked at. -/
theorem AgreesOn.bind (h : AgreesOn doc o r) (hf : ∀ a, Agrees doc (f a)) :
    AgreesOn doc o (r >>= f) :=
  fun n rest hrest ho => (h n rest hrest ho).bind hf

theorem Alike.map {s t : State} (h : Alike doc (r s) (r t)) (g : α → β) :
    Alike doc ((g <$> r) s) ((g <$> r) t) := by
  simp only [Functor.map, EStateM.map]
  generalize r s = x at h
  generalize r t = y at h
  cases h with
  | ok a peeked hrest => exact .ok (g a) peeked hrest
  | error hrest hfault hnear => exact .error hrest hfault hnear

/-- What is done with a value reads nothing. -/
theorem Agrees.map (h : Agrees doc r) (g : α → β) : Agrees doc (g <$> r) :=
  fun n rest peeked hrest => (h n rest peeked hrest).map g

/-- A place that is set behind the same bytes is near as well. -/
theorem Alike.placed {s t : State} (h : Alike doc (r s) (r t)) :
    Alike doc (r.placed s) (r.placed t) := by
  simp only [Reader.placed]
  generalize r s = x at h
  generalize r t = y at h
  cases h with
  | ok a peeked hrest => exact .ok a peeked hrest
  | @error fault p q n rest peeked hrest hfault hnear =>
    refine .error hrest hfault ?_
    cases hnear with
    | unset =>
      cases peeked with
      | false => exact .same n
      | true => exact .ahead n
    | same m => exact .same m
    | ahead m => exact .ahead m

/-- So a reader that knows its byte may set places. -/
theorem AgreesOn.placed (h : AgreesOn doc o r) : AgreesOn doc o r.placed :=
  fun n rest hrest ho => (h n rest hrest ho).placed

/-- Both have as many bytes left, so they have as many rounds. -/
theorem Agrees.bounded {r : Nat → Reader α} (h : ∀ n, Agrees doc (r n)) :
    Agrees doc (Reader.bounded r) :=
  fun n rest peeked hrest => h (rest.length + 1) n rest peeked hrest

end

/-! ## Steps -/

section

variable {o : Option UInt8} {fault : Fault}

/-- A failure is told of behind the bytes that were taken, or behind the one that
was looked at. These are the two places that are near. -/
theorem agrees_fail (hfault : fault ≠ .invalidUtf8) :
    Agrees doc (Reader.fail fault : Reader α) := by
  intro n rest peeked hrest
  refine .error hrest hfault ?_
  cases peeked with
  | false => exact .same n
  | true => exact .ahead n

/-- At the byte that was looked at, both readers are behind it. -/
theorem agreesOn_failAtNext (hfault : fault ≠ .invalidUtf8) :
    AgreesOn doc o (Reader.failAtNext fault : Reader α) := by
  intro n rest hrest ho
  subst ho
  refine .error hrest hfault ?_
  cases rest with
  | nil => exact .same n
  | cons b bs =>
    have hplace : (State.held n (b :: bs)).nextPlace = n + 1 := by
      simp [State.nextPlace, State.held]
    rw [hplace]
    exact .same (n + 1)

/-- Without a place there is none to differ. -/
theorem agrees_failUnplaced (hfault : fault ≠ .invalidUtf8) :
    Agrees doc (Reader.failUnplaced fault : Reader α) :=
  fun _ _ _ hrest => .error hrest hfault .unset

/-- What is left when some bytes are taken. -/
theorem suffix_drop {rest bytes : List UInt8} (h : rest <:+ bytes) (k : Nat) :
    rest.drop k <:+ bytes :=
  (List.drop_suffix k rest).trans h

/-- Bytes that are taken are gone from both, and so is the look ahead. -/
theorem agrees_take (k : Nat) : Agrees doc (Reader.take k) :=
  fun _ _ _ hrest => .ok () false (suffix_drop hrest k)

theorem agrees_skip : Agrees doc Reader.skip := agrees_take 1

/-- A look at more bytes leaves the look ahead as it was. -/
theorem agrees_upcoming (p : UInt8 → Bool) : Agrees doc (Reader.upcoming p) :=
  fun _ rest peeked hrest => .ok (rest.takeWhile p) peeked hrest

theorem agrees_next : Agrees doc Reader.next := by
  intro n rest peeked hrest
  cases rest with
  | nil => exact .ok none false hrest
  | cons b bs => exact .ok (some b) false (suffix_drop hrest 1)

/-- A byte arrives with a look ahead, if there is one. -/
theorem not_isEmpty (rest : List UInt8) : (!rest.isEmpty) = rest.head?.isSome := by
  cases rest <;> rfl

/-- **A byte is looked at**, and what is done then may know it. -/
theorem agrees_peek_bind {f : Option UInt8 → Reader β} (h : ∀ o, AgreesOn doc o (f o)) :
    Agrees doc (Reader.peek >>= f) := by
  intro n rest peeked hrest
  have hnext := h rest.head? n rest hrest rfl
  rw [← not_isEmpty] at hnext
  exact hnext

/-- Bytes of a class are taken, and the one behind them is looked at. -/
theorem agrees_takeWhile_bind {p : UInt8 → Bool} {f : List UInt8 → Reader β}
    (h : ∀ bs o, AgreesOn doc o (f bs)) : Agrees doc (Reader.takeWhile p >>= f) := by
  intro n rest peeked hrest
  have hafter := suffix_drop hrest (rest.takeWhile p).length
  have hnext := h (rest.takeWhile p) _ (n + (rest.takeWhile p).length) _ hafter rfl
  rw [← not_isEmpty] at hnext
  exact hnext

theorem agrees_takeWhile (p : UInt8 → Bool) : Agrees doc (Reader.takeWhile p) := by
  have h : Agrees doc (Reader.takeWhile p >>= Pure.pure) :=
    agrees_takeWhile_bind fun bs o => (Agrees.pure bs).on o
  rwa [bind_pure] at h

/-- The byte behind blanks is looked at, and what is done then may know it. -/
theorem agrees_afterBlanks_bind {f : Option UInt8 → Reader β} (h : ∀ o, AgreesOn doc o (f o)) :
    Agrees doc (afterBlanks >>= f) := by
  unfold afterBlanks
  rw [bind_assoc]
  exact (agrees_takeWhile _).bind fun _ => agrees_peek_bind h

/-- A byte is asked for behind blanks, and there has to be one. -/
theorem agrees_byteAfterBlanks {fault : Fault} {f : UInt8 → Reader β}
    (hfault : fault ≠ .invalidUtf8) (h : ∀ b, AgreesOn doc (some b) (f b)) :
    Agrees doc (do match ← afterBlanks with
      | none => Reader.failAtNext fault
      | some b => f b) := by
  refine agrees_afterBlanks_bind fun o => ?_
  cases o with
  | none => exact agreesOn_failAtNext hfault
  | some b => exact h b

end

/-- A word is taken byte by byte, up to the first that is not its own. -/
theorem agrees_word (cs : List Char) : Agrees doc (word cs) := by
  induction cs with
  | nil => exact .pure ()
  | cons c cs ih =>
    unfold word
    refine agrees_next.bind fun o => ?_
    cases o with
    | none => exact agrees_fail (by decide)
    | some b =>
      dsimp only
      split
      · exact ih
      · exact agrees_fail (by decide)

theorem agrees_colon : Agrees doc colon := by
  refine agrees_byteAfterBlanks (by decide) fun b => ?_
  split
  · exact agrees_skip.on _
  · exact agreesOn_failAtNext (by decide)

/-! ## Numbers -/

/-- A number out of range fails where it ends. -/
theorem agrees_float (positive : Bool) (digits : Nat) (e : Int) :
    Agrees doc (float positive digits e) := by
  unfold float
  split
  · exact .pure _
  · exact agrees_fail (by decide)

/-- A sign is taken if there is one. -/
theorem agrees_exponentSign : Agrees doc exponentSign := by
  unfold exponentSign
  refine agrees_peek_bind fun o => Agrees.on ?_ o
  split
  · exact agrees_skip.bind fun _ => .pure true
  · split
    · exact agrees_skip.bind fun _ => .pure false
    · exact .pure true

/-- An exponent is digits behind a sign, or too large to be told. -/
theorem agrees_exponent (positive : Bool) (digits : Nat) (e : Int) :
    Agrees doc (exponent positive digits e) := by
  unfold exponent
  refine agrees_skip.bind fun _ => agrees_exponentSign.bind fun up => agrees_next.bind fun o => ?_
  cases o with
  | none => exact agrees_fail (by decide)
  | some d =>
    dsimp only
    split
    · exact agrees_fail (by decide)
    · refine (agrees_upcoming isDigit).bind fun ds => ?_
      split
      · exact (agrees_take _).bind fun _ =>
          agrees_peek_bind fun o => (agrees_float _ _ _).on o
      · split
        · exact (agrees_take _).bind fun _ => agrees_fail (by decide)
        · exact (agrees_take _).bind fun _ => agrees_peek_bind fun o => (Agrees.pure _).on o

/-- Digits behind a point end the number, or an exponent does. -/
theorem agrees_fraction (positive : Bool) (digits : Nat) (e : Int) :
    Agrees doc (fraction positive digits e) := by
  unfold fraction
  refine agrees_skip.bind fun _ => (agrees_takeWhile isDigit).bind fun ds => ?_
  split
  · refine agrees_peek_bind fun o => ?_
    cases o with
    | none => exact agreesOn_failAtNext (by decide)
    | some _ => exact agreesOn_failAtNext (by decide)
  · refine agrees_peek_bind fun o => Agrees.on ?_ o
    split
    · exact agrees_exponent _ _ _
    · exact agrees_float _ _ _

/-- A number that begins with zero has no second digit. -/
theorem agrees_moreDigits (first : UInt8) : Agrees doc (moreDigits first) := by
  unfold moreDigits
  split
  · refine agrees_peek_bind fun o => ?_
    cases o with
    | none => exact (Agrees.pure _).on _
    | some b =>
      dsimp only
      split
      · exact agreesOn_failAtNext (by decide)
      · exact (Agrees.pure _).on _
  · exact agrees_takeWhile isDigit

/-- **Numbers are read alike**: nothing of them hangs on a place. -/
theorem agrees_numeric (positive : Bool) : Agrees doc (numeric positive) := by
  unfold numeric
  refine agrees_next.bind fun o => ?_
  cases o with
  | none => exact agrees_fail (by decide)
  | some d =>
    dsimp only
    split
    · exact agrees_fail (by decide)
    · refine (agrees_moreDigits d).bind fun ds => agrees_peek_bind fun o => Agrees.on ?_ o
      split
      · exact (agrees_fraction _ _ _).map _
      · split
        · exact (agrees_exponent _ _ _).map _
        · split
          · exact .pure _
          · exact (agrees_float _ _ _).map _

/-! ## Texts -/

/-- A text may not end before its mark. -/
theorem agrees_byteOfText : Agrees doc byteOfText := by
  unfold byteOfText
  refine agrees_next.bind fun o => ?_
  cases o with
  | none => exact agrees_fail (by decide)
  | some b => exact .pure b

/-- Four digits are taken whatever they are, and fail together. -/
theorem agrees_codeUnit : Agrees doc codeUnit := by
  unfold codeUnit
  refine agrees_byteOfText.bind fun a => agrees_byteOfText.bind fun b =>
    agrees_byteOfText.bind fun c => agrees_byteOfText.bind fun d => ?_
  split
  · exact .pure _
  · exact agrees_fail (by decide)

/-- The second half of a pair has its own escape. -/
theorem agrees_pairByte (b : UInt8) : Agrees doc (pairByte b) := by
  unfold pairByte
  refine agrees_peek_bind fun o => Agrees.on ?_ o
  cases o with
  | none => exact agrees_fail (by decide)
  | some d =>
    refine agrees_skip.bind fun _ => ?_
    split
    · exact .pure ()
    · exact agrees_fail (by decide)

/-- A code unit may need another to be a character. -/
theorem agrees_numberedEscape : Agrees doc numberedEscape := by
  unfold numberedEscape
  refine agrees_codeUnit.bind fun n => ?_
  split
  · exact agrees_fail (by decide)
  · split
    · exact .pure _
    · refine (agrees_pairByte _).bind fun _ => (agrees_pairByte _).bind fun _ =>
        agrees_codeUnit.bind fun m => ?_
      split
      · exact agrees_fail (by decide)
      · exact .pure _

/-- An escape is a letter or a code unit. -/
theorem agrees_escaped : Agrees doc escaped := by
  unfold escaped
  refine agrees_byteOfText.bind fun b => ?_
  split
  · exact agrees_numberedEscape
  · split
    · exact .pure _
    · exact agrees_fail (by decide)

/-- The bytes of a text up to its mark, before they are decoded. -/
theorem agrees_textBytes (rounds : Nat) : Agrees doc (textBytes rounds) := by
  induction rounds with
  | zero => exact agrees_fail (by decide)
  | succ rounds ih =>
    unfold textBytes
    refine agrees_byteOfText.bind fun b => ?_
    split
    · exact .pure []
    · split
      · exact agrees_escaped.bind fun piece => ih.bind fun more => .pure _
      · split
        · exact agrees_fail (by decide)
        · exact ih.bind fun more => .pure _

/-! ### What is collected is a text -/

section

variable {s t : State}

/-- What two steps in a row read, the first and then the second read. -/
theorem exists_of_bind_ok {r : Reader α} {f : α → Reader β} {b : β} (h : (r >>= f) s = .ok b t) :
    ∃ a u, r s = .ok a u ∧ f a u = .ok b t := by
  simp only [Bind.bind, EStateM.bind] at h
  split at h
  · next a u hr => exact ⟨a, u, hr, h⟩
  · cases h

/-- What is left behind a byte of a text. -/
theorem rest_of_byteOfText {b : UInt8} (h : byteOfText s = .ok b t) : s.rest = b :: t.rest := by
  obtain ⟨o, u, hnext, hb⟩ := exists_of_bind_ok h
  unfold Reader.next at hnext
  cases hs : s.rest with
  | nil =>
    rw [hs] at hnext
    cases hnext
    cases hb
  | cons c cs =>
    rw [hs] at hnext
    cases hnext
    cases hb
    rw [State.rest_drop, hs]
    rfl

/-- Digits of base sixteen are of ASCII. -/
theorem lt_of_hexValue? {b : UInt8} {n : Nat} (h : hexValue? b = some n) : b.toNat < 0x80 := by
  unfold hexValue? at h
  split at h
  · next hdigit =>
    simp only [isDigit, Bool.and_eq_true, decide_eq_true_eq, UInt8.le_iff_toNat_le] at hdigit
    have hnine : (byte '9').toNat = 57 := rfl
    omega
  · split at h
    · omega
    · split at h
      · omega
      · cases h

/-- Digits of base sixteen are taken whole. -/
theorem isText_of_codeUnit {n : Nat} (h : codeUnit s = .ok n t) (hs : Utf8.IsText s.rest) :
    Utf8.IsText t.rest := by
  obtain ⟨a, s₁, ha, h⟩ := exists_of_bind_ok h
  obtain ⟨b, s₂, hb, h⟩ := exists_of_bind_ok h
  obtain ⟨c, s₃, hc, h⟩ := exists_of_bind_ok h
  obtain ⟨d, s₄, hd, h⟩ := exists_of_bind_ok h
  cases ha' : hexValue? a <;> cases hb' : hexValue? b <;> cases hc' : hexValue? c <;>
    cases hd' : hexValue? d <;> simp only [ha', hb', hc', hd'] at h <;> cases h
  rw [rest_of_byteOfText ha, rest_of_byteOfText hb, rest_of_byteOfText hc,
    rest_of_byteOfText hd] at hs
  exact (((hs.tail (lt_of_hexValue? ha')).tail (lt_of_hexValue? hb')).tail
    (lt_of_hexValue? hc')).tail (lt_of_hexValue? hd')

/-- A text stays one behind the bytes that begin the second half of a pair, which
are of ASCII. -/
theorem isText_of_pairByte {b : UInt8} (hb : b.toNat < 0x80) (h : pairByte b s = .ok () t)
    (hs : Utf8.IsText s.rest) : Utf8.IsText t.rest := by
  obtain ⟨o, u, hpeek, h⟩ := exists_of_bind_ok h
  cases hpeek
  cases hrest : s.rest with
  | nil =>
    rw [hrest] at h
    cases h
  | cons d ds =>
    rw [hrest] at h
    obtain ⟨_, v, hskip, h⟩ := exists_of_bind_ok h
    cases hskip
    split at h
    · next hd =>
      cases h
      have htail : (s.look.drop 1).rest = ds := by simp [hrest]
      rw [hrest, hd] at hs
      exact htail ▸ hs.tail hb
    · cases h

/-- An escape by number is a character, and ends behind a digit. -/
theorem isText_of_numberedEscape {piece : List UInt8} (h : numberedEscape s = .ok piece t)
    (hs : Utf8.IsText s.rest) : Utf8.IsText piece ∧ Utf8.IsText t.rest := by
  have hchar : ∀ n, Utf8.IsText (bytesOf n) := fun n => ⟨[Char.ofNat n], (List.append_nil _).symm⟩
  obtain ⟨n, s₁, hn, h⟩ := exists_of_bind_ok h
  have h₁ := isText_of_codeUnit hn hs
  split at h
  · cases h
  · split at h
    · cases h
      exact ⟨hchar _, h₁⟩
    · obtain ⟨_, s₂, hslash, h⟩ := exists_of_bind_ok h
      obtain ⟨_, s₃, hu, h⟩ := exists_of_bind_ok h
      obtain ⟨m, s₄, hm, h⟩ := exists_of_bind_ok h
      have h₂ := isText_of_pairByte (by decide) hslash h₁
      have h₄ := isText_of_codeUnit hm (isText_of_pairByte (by decide) hu h₂)
      split at h
      · cases h
      · obtain ⟨rfl, rfl⟩ := EStateM.Result.ok.inj h
        exact ⟨hchar _, h₄⟩

theorem lt_of_letterEscape? {b c : UInt8} (h : letterEscape? b = some c) :
    b.toNat < 0x80 ∧ c.toNat < 0x80 := by
  unfold letterEscape? at h
  split_ifs at h
  all_goals obtain rfl := Option.some.inj h
  all_goals subst b
  all_goals exact ⟨by decide, by decide⟩

/-- So is any escape. -/
theorem isText_of_escaped {piece : List UInt8} (h : escaped s = .ok piece t)
    (hs : Utf8.IsText s.rest) : Utf8.IsText piece ∧ Utf8.IsText t.rest := by
  obtain ⟨b, u, hb, h⟩ := exists_of_bind_ok h
  rw [rest_of_byteOfText hb] at hs
  split at h
  · next hu => exact isText_of_numberedEscape h (hs.tail (hu ▸ by decide))
  · cases hc : letterEscape? b with
    | none =>
      rw [hc] at h
      cases h
    | some c =>
      rw [hc] at h
      cases h
      obtain ⟨hlt, hlt'⟩ := lt_of_letterEscape? hc
      exact ⟨Utf8.isText_singleton hlt', hs.tail hlt⟩

/-- **From within a character of a text, the rest of it is collected and a
text behind it.** -/
theorem exists_of_textBytes {rounds : Nat} {within bytes : List UInt8} {text : List Char}
    (h : textBytes rounds s = .ok bytes t) (hwithin : ∀ b ∈ within, 0x80 ≤ b.toNat)
    (hs : s.rest = within ++ Utf8.encode text) : ∃ more, bytes = within ++ Utf8.encode more := by
  induction rounds generalizing s bytes within text with
  | zero => cases h
  | succ rounds ih =>
    obtain ⟨b, u, hb, h⟩ := exists_of_bind_ok h
    rw [rest_of_byteOfText hb] at hs
    cases within with
    | cons a within =>
      obtain ⟨rfl, hrest⟩ := List.cons.inj hs
      have hhigh := hwithin b List.mem_cons_self
      have hne : ∀ c : Char, c.toNat < 0x80 → b ≠ byte c := by
        rintro c hc rfl
        rw [byte, UInt8.toNat_ofNat'] at hhigh
        omega
      have hcontrol : ¬ b < 0x20 := by
        rw [UInt8.lt_iff_toNat_lt]
        exact Nat.not_lt.2 (Nat.le_trans (by decide) hhigh)
      rw [if_neg (hne _ (by decide)), if_neg (hne _ (by decide)), if_neg hcontrol] at h
      obtain ⟨collected, v, hcollected, h⟩ := exists_of_bind_ok h
      cases h
      obtain ⟨more, rfl⟩ := ih hcollected (fun d hd => hwithin d (List.mem_cons_of_mem _ hd)) hrest
      exact ⟨more, rfl⟩
    | nil =>
      cases text with
      | nil => cases hs
      | cons c text =>
        obtain ⟨a, tail, hchar⟩ := List.exists_cons_of_ne_nil (String.utf8EncodeChar_ne_nil (c := c))
        have hshape := hchar ▸ Utf8.shape_encode c
        rw [List.nil_append, Utf8.encode_cons, hchar, List.cons_append] at hs
        obtain ⟨rfl, hrest⟩ := List.cons.inj hs
        split at h
        · cases h
          exact ⟨[], rfl⟩
        · split at h
          · next hslash =>
            obtain ⟨piece, v, hpiece, h⟩ := exists_of_bind_ok h
            obtain ⟨collected, w, hcollected, h⟩ := exists_of_bind_ok h
            cases h
            have htail := hshape.tail_eq_nil (hslash ▸ by decide)
            rw [htail, List.nil_append] at hrest
            obtain ⟨⟨x, rfl⟩, y, hy⟩ := isText_of_escaped hpiece ⟨text, hrest⟩
            have hbehind : v.rest = [] ++ Utf8.encode y := hy
            obtain ⟨more, rfl⟩ := ih hcollected (List.forall_mem_nil _) hbehind
            exact ⟨x ++ more, (Utf8.encode_append x more).symm⟩
          · split at h
            · cases h
            · obtain ⟨collected, v, hcollected, h⟩ := exists_of_bind_ok h
              cases h
              obtain ⟨more, rfl⟩ := ih hcollected hshape.le_of_mem_tail hrest
              exact ⟨c :: more, by rw [List.nil_append, Utf8.encode_cons, hchar]; rfl⟩

end

/-- **A text is read alike behind its mark**, since what is collected there
can be decoded. -/
theorem agreesOn_text : AgreesOn doc (some (byte '"')) (do Reader.skip; textBody) := by
  intro n rest hrest hmark
  obtain ⟨bs, rfl⟩ := List.head?_eq_some_iff.1 hmark
  obtain ⟨text, htext⟩ := Utf8.isText_of_suffix hrest (by decide)
  have hbytes : Alike doc (Reader.bounded textBytes (.held (n + 1) bs))
      (Reader.bounded textBytes (.arriving (n + 1) bs false)) :=
    Agrees.bounded agrees_textBytes (n + 1) bs false (suffix_drop hrest 1)
  change Alike doc (textBody (.held (n + 1) bs)) (textBody (.arriving (n + 1) bs false))
  unfold textBody
  simp only [Bind.bind, EStateM.bind]
  generalize hx : Reader.bounded textBytes (.held (n + 1) bs) = x at hbytes
  generalize Reader.bounded textBytes (.arriving (n + 1) bs false) = y at hbytes
  cases hbytes with
  | error hrest hfault hnear => exact .error hrest hfault hnear
  | ok bytes peeked hrest =>
    have hcollected : ∃ more, bytes = [] ++ Utf8.encode more :=
      exists_of_textBytes hx (List.forall_mem_nil _) htext
    obtain ⟨collected, rfl⟩ := hcollected
    dsimp only
    rw [List.nil_append, Utf8.front_encode]
    exact .ok collected peeked hrest

end Json

end Abacus
