import Abacus.Proofs.JsonNumbers

/-!
# Values of documents — and where they end

The grammar of values, with blanks wherever they may stand: words, numbers
of any size and texts in any spelling (`IsScalar`), and lists and objects
of values (`IsValue`). A value that nobody asked for is passed over to its
end and not a byte further, however deep it is (`reads_passValue`). The
frames that are open around it are the reader's stack, so a value is
followed together with what comes of these frames behind it (`PassesOn`).
-/

namespace Abacus

namespace Json

/-! ## Numbers -/

/-- Decimal digits, at least one. -/
structure IsDigits (ds : List Char) : Prop where
  ne_nil : ds ≠ []
  digit : ∀ c ∈ ds, c.isDigit

/-- The digits in front of a point: a zero stands alone. -/
structure IsWhole (ds : List Char) : Prop extends IsDigits ds where
  zero_alone : ds.head? = some '0' → ds = ['0']

/-- A fraction, which may be missing. -/
inductive IsFraction : List Char → Prop
  | none : IsFraction []
  | point {ds : List Char} : IsDigits ds → IsFraction ('.' :: ds)

/-- An exponent, which may be missing, and so may its sign. -/
inductive IsExponent : List Char → Prop
  | none : IsExponent []
  | power {mark : Char} {sign ds : List Char} : mark ∈ ['e', 'E'] → sign ∈ [[], ['+'], ['-']] →
      IsDigits ds → IsExponent (mark :: (sign ++ ds))

/-- **A number**, of whatever size. -/
inductive IsNumber : List Char → Prop
  | parts {sign whole fraction exponent : List Char} : sign ∈ [[], ['-']] → IsWhole whole →
      IsFraction fraction → IsExponent exponent →
      IsNumber (sign ++ (whole ++ (fraction ++ exponent)))

/-! ## Values -/

/-- **A value without parts**: a word, a number or a text. -/
inductive IsScalar : List Char → Prop
  | word {w : List Char} : w ∈ ["null".toList, "true".toList, "false".toList] → IsScalar w
  | number {w : List Char} : IsNumber w → IsScalar w
  | text {s w : List Char} : Quoted s w → IsScalar w

/-- A name in quotation marks with its colon, and blanks around that. -/
inductive Named : List Char → List Char → Prop
  | colon {name q b c : List Char} : Quoted name q → Blank b → Blank c →
      Named name (q ++ (b ++ ':' :: c))

namespace Frame

/-- The mark that opens a frame. -/
def opening : Frame → Char
  | .list => '['
  | .object => '\x7b'

/-- The mark that closes a frame. -/
def closing : Frame → Char
  | .list => ']'
  | .object => '\x7d'

/-- What stands in front of a value in a frame: in an object its name. -/
inductive IsLabel : Frame → List Char → Prop
  | list : IsLabel .list []
  | object {name w : List Char} : Named name w → IsLabel .object w

end Frame

mutual

/-- **A value**: one without parts, or a list or an object. -/
inductive IsValue : List Char → Prop
  | scalar {w : List Char} : IsScalar w → IsValue w
  | empty (frame : Frame) {b : List Char} : Blank b →
      IsValue (frame.opening :: (b ++ [frame.closing]))
  | filled (frame : Frame) {b w : List Char} : Blank b → IsEntries frame w →
      IsValue (frame.opening :: (b ++ (w ++ [frame.closing])))

/-- **The entries of a list or an object**, with commas between them. -/
inductive IsEntries : Frame → List Char → Prop
  | last {frame : Frame} {l v b : List Char} : frame.IsLabel l → IsValue v → Blank b →
      IsEntries frame (l ++ (v ++ b))
  | more {frame : Frame} {l v b c w : List Char} : frame.IsLabel l → IsValue v → Blank b →
      Blank c → IsEntries frame w → IsEntries frame (l ++ (v ++ (b ++ ',' :: (c ++ w))))

end

/-- The marks, the name and the colon. -/
theorem encode_named (w b c : List Char) (rest : List UInt8) :
    Utf8.encode ('"' :: (w ++ ['"']) ++ (b ++ ':' :: c)) ++ rest =
      byte '"' :: (Utf8.encode w ++
        byte '"' :: (Utf8.encode b ++ byte ':' :: (Utf8.encode c ++ rest))) := by
  rw [Utf8.encode_append, List.append_assoc, encode_marks, Utf8.encode_append,
    encode_cons (by decide), List.append_assoc, List.cons_append]

/-! ## Numbers, passed over -/

section

variable {rest : List UInt8}

theorem IsDigits.encode {ds : List Char} (h : IsDigits ds) : Utf8.encode ds = ascii ds :=
  encode_eq_ascii fun c hc => lt_of_isDigit (h.digit c hc)

/-- Digits are a first one and more. -/
theorem IsDigits.exists_cons {ds : List Char} (h : IsDigits ds) :
    ∃ d more, ds = d :: more ∧ d.isDigit ∧ ∀ c ∈ more, c.isDigit := by
  obtain ⟨hne, hdigit⟩ := h
  obtain ⟨d, more, rfl⟩ := List.exists_cons_of_ne_nil hne
  obtain ⟨hd, hmore⟩ := List.forall_mem_cons.1 hdigit
  exact ⟨d, more, rfl, hd, hmore⟩

theorem exists_reads_exponentSign {sign : List Char} (h : sign ∈ [[], ['+'], ['-']]) {d : Char}
    (hd : d.isDigit) (after : List UInt8) :
    ∃ up, Reads exponentSign (Utf8.encode sign ++ byte d :: after) up (byte d :: after) := by
  simp only [List.mem_cons, List.not_mem_nil, or_false] at h
  rcases h with rfl | rfl | rfl
  · exact ⟨_, reads_exponentSign 0 false hd after⟩
  · exact ⟨_, reads_exponentSign 0 true hd after⟩
  · have hminus := reads_exponentSign (-1) false hd after
    rw [if_pos (by decide)] at hminus
    exact ⟨_, hminus⟩

/-- The letter of an exponent begins nothing else. -/
theorem mark_cases {mark : Char} (h : mark ∈ ['e', 'E']) :
    mark.toNat < 0x80 ∧ isExponentMark (some (byte mark)) ∧ isDigit (byte mark) = false ∧
      byte mark ≠ byte '.' := by
  simp only [List.mem_cons, List.not_mem_nil, or_false] at h
  rcases h with rfl | rfl <;> decide

theorem reads_passExponent {mark : Char} {sign ds : List Char} (hsign : sign ∈ [[], ['+'], ['-']])
    (hds : IsDigits ds) (hrest : Ends rest) :
    Reads passExponent (byte mark :: (Utf8.encode sign ++ (Utf8.encode ds ++ rest))) () rest := by
  rw [hds.encode]
  obtain ⟨d, more, rfl, hd, hmore⟩ := hds.exists_cons
  obtain ⟨up, hup⟩ := exists_reads_exponentSign hsign hd (ascii more ++ rest)
  unfold passExponent
  refine (reads_skip _ _).bind ?_
  refine hup.bind ?_
  refine (reads_next _ _).bind ?_
  dsimp only
  rw [if_pos (isDigit_byte hd)]
  exact (reads_takeWhile (isDigit_ascii hmore) hrest.not_isDigit).map _

/-- What stands behind the digits of a number is no digit. -/
theorem IsExponent.not_isDigit {exponent : List Char} (h : IsExponent exponent)
    (hrest : Ends rest) :
    ∀ b ∈ (Utf8.encode exponent ++ rest).head?, isDigit b = false := by
  cases h with
  | none => exact hrest.not_isDigit
  | power hmark =>
    obtain ⟨hascii, -, hdigit, -⟩ := mark_cases hmark
    rw [encode_cons hascii]
    intro b hb
    obtain rfl := Option.some.inj hb
    exact hdigit

theorem IsFraction.not_isDigit {fraction : List Char} (h : IsFraction fraction)
    {after : List UInt8} (hafter : ∀ b ∈ after.head?, isDigit b = false) :
    ∀ b ∈ (Utf8.encode fraction ++ after).head?, isDigit b = false := by
  cases h with
  | none => exact hafter
  | point =>
    rw [encode_cons (by decide)]
    intro b hb
    obtain rfl := Option.some.inj hb
    decide

/-- An exponent is passed over if there is one. -/
theorem reads_passExponent_if {exponent : List Char} (h : IsExponent exponent) (hrest : Ends rest) :
    Reads (if isExponentMark (Utf8.encode exponent ++ rest).head? then passExponent else pure ())
      (Utf8.encode exponent ++ rest) () rest := by
  cases h with
  | none =>
    rw [Utf8.encode_nil, List.nil_append, hrest.head?_ne.2, if_neg Bool.false_ne_true]
    exact .pure _ _
  | power hmark hsign hds =>
    obtain ⟨hascii, hbegins, -⟩ := mark_cases hmark
    rw [encode_cons hascii, Utf8.encode_append, List.cons_append, List.append_assoc,
      List.head?_cons, if_pos hbegins]
    exact reads_passExponent hsign hds hrest

theorem reads_passFraction {ds exponent : List Char} (hds : IsDigits ds)
    (hexponent : IsExponent exponent) (hrest : Ends rest) :
    Reads passFraction (byte '.' :: (Utf8.encode ds ++ (Utf8.encode exponent ++ rest))) ()
      rest := by
  have hne : (ascii ds).isEmpty = false := by
    obtain ⟨d, more, rfl, -⟩ := hds.exists_cons
    rfl
  rw [hds.encode]
  unfold passFraction
  refine (reads_skip _ _).bind ?_
  refine (reads_takeWhile (isDigit_ascii hds.digit) (hexponent.not_isDigit hrest)).bind ?_
  rw [hne, if_neg Bool.false_ne_true]
  refine (reads_peek _).bind ?_
  exact reads_passExponent_if hexponent hrest

/-- **A number is passed over**, from after its sign. -/
theorem reads_passNumber {whole fraction exponent : List Char} (hwhole : IsWhole whole)
    (hfraction : IsFraction fraction) (hexponent : IsExponent exponent) (hrest : Ends rest) :
    Reads passNumber
      (Utf8.encode whole ++ (Utf8.encode fraction ++ (Utf8.encode exponent ++ rest))) () rest := by
  have hstop := hfraction.not_isDigit (hexponent.not_isDigit hrest)
  have hzero := hwhole.zero_alone
  rw [hwhole.encode]
  obtain ⟨d, more, rfl, hd, hmore⟩ := hwhole.exists_cons
  have halone : d = '0' → more = [] := fun h => (List.cons.inj (hzero (by rw [h]; rfl))).2
  unfold passNumber
  refine (reads_next _ _).bind ?_
  simp only [isDigit_byte hd, Bool.not_true, Bool.false_eq_true, if_false]
  refine (reads_moreDigits halone hmore hstop hd).bind ?_
  refine (reads_peek _).bind ?_
  cases hfraction with
  | none =>
    have hpoint : (Utf8.encode exponent ++ rest).head? ≠ some (byte '.') := by
      cases hexponent with
      | none => exact hrest.head?_ne.1
      | power hmark =>
        obtain ⟨hascii, -, -, hne⟩ := mark_cases hmark
        rw [encode_cons hascii]
        exact fun h => hne (Option.some.inj h)
    rw [Utf8.encode_nil, List.nil_append, if_neg hpoint]
    exact reads_passExponent_if hexponent hrest
  | point hds =>
    rw [encode_cons (by decide), List.cons_append, List.head?_cons, if_pos rfl]
    exact reads_passFraction hds hexponent hrest

end

/-! ## One value, passed over -/

section

variable {rest after : List UInt8}

/-- The sign of a number is passed over with it. -/
theorem reads_passHead_number {w : List Char} (h : IsNumber w) (hrest : Ends rest) :
    Reads passHead (Utf8.encode w ++ rest) none rest := by
  obtain ⟨hsign, hwhole, hfraction, hexponent⟩ := h
  have hnumber := reads_passNumber hwhole hfraction hexponent hrest
  simp only [List.mem_cons, List.not_mem_nil, or_false] at hsign
  unfold passHead
  rcases hsign with rfl | rfl
  · obtain ⟨d, more, rfl, hd, -⟩ := hwhole.exists_cons
    have hbyte := isDigit_byte hd
    have hne : ∀ c, isDigit (byte c) = false → byte d ≠ byte c := fun c hc h => by
      rw [h, hc] at hbyte
      exact Bool.false_ne_true hbyte
    simp only [List.nil_append, Utf8.encode_append, List.append_assoc] at hnumber ⊢
    rw [encode_cons (lt_of_isDigit hd)] at hnumber ⊢
    refine (reads_afterBlanks_cons (isBlank_of_isDigit hbyte) _).bind ?_
    dsimp only
    rw [if_neg (hne _ (by decide)), if_neg (hne _ (by decide)), if_neg (hne _ (by decide)),
      if_neg (hne _ (by decide)), if_pos hbyte]
    exact hnumber.bind (.pure _ _)
  · rw [List.singleton_append, encode_cons (by decide), Utf8.encode_append, Utf8.encode_append,
      List.cons_append, List.append_assoc, List.append_assoc]
    refine (reads_afterBlanks_cons (by decide) _).bind ?_
    change Reads (do Reader.skip; passNumber; pure none) _ none rest
    exact (reads_skip _ _).bind (hnumber.bind (.pure _ _))

/-- **A value without parts is passed over**, and no frame is opened. -/
theorem reads_passHead {w : List Char} (h : IsScalar w) (hrest : Ends rest) :
    Reads passHead (Utf8.encode w ++ rest) none rest := by
  cases h with
  | number h => exact reads_passHead_number h hrest
  | text h =>
    obtain ⟨hs⟩ := h
    rw [encode_marks]
    unfold passHead
    refine (reads_afterBlanks_cons (by decide) _).bind ?_
    change Reads (do Reader.skip; passText; pure none) _ none rest
    exact (reads_skip _ _).bind ((reads_passText hs rest).bind (.pure _ _))
  | word h =>
    simp only [List.mem_cons, List.not_mem_nil, or_false] at h
    unfold passHead
    have hword : ∀ (c : Char) (cs : List Char),
        Reads (do Reader.skip; word cs; pure (none : Option Frame))
          (byte c :: (ascii cs ++ rest)) none rest := fun c cs =>
      (reads_skip _ _).bind ((reads_word cs rest).bind (.pure _ _))
    -- the first letter tells which word it is
    rcases h with rfl | rfl | rfl
    · exact (reads_afterBlanks_cons (by decide) _).bind (hword 'n' ['u', 'l', 'l'])
    · exact (reads_afterBlanks_cons (by decide) _).bind (hword 't' ['r', 'u', 'e'])
    · exact (reads_afterBlanks_cons (by decide) _).bind (hword 'f' ['a', 'l', 's', 'e'])

namespace Frame

theorem isBlank_closer (frame : Frame) : isBlank frame.closer = false := by cases frame <;> decide

theorem closer_mem_endings (frame : Frame) : frame.closer ∈ endings := by cases frame <;> decide

end Frame

/-- The marks of a frame and what stands between them. -/
theorem encode_frame (frame : Frame) (w : List Char) (rest : List UInt8) :
    Utf8.encode (frame.opening :: (w ++ [frame.closing])) ++ rest =
      byte frame.opening :: (Utf8.encode w ++ frame.closer :: rest) := by
  have hopening : frame.opening.toNat < 0x80 := by cases frame <;> decide
  have hclosing : Utf8.encode [frame.closing] = [frame.closer] := by cases frame <;> rfl
  rw [encode_cons hopening, Utf8.encode_append, hclosing, List.cons_append, List.append_assoc,
    List.singleton_append]

/-- The mark that opens a frame opens it. -/
theorem reads_passHead_opening (frame : Frame) (rest : List UInt8) :
    Reads passHead (byte frame.opening :: rest) (some frame) rest := by
  have hblank : isBlank (byte frame.opening) = false := by cases frame <;> decide
  have hopens : Reads (do Reader.skip; pure (some frame)) (byte frame.opening :: rest) (some frame)
      rest := (reads_skip _ _).bind (.pure _ _)
  unfold passHead
  refine (reads_afterBlanks_cons hblank _).bind ?_
  cases frame with
  | list => exact hopens
  | object => exact hopens

end

/-! ## Frames, passed over -/

/-- What is done with the frames that are left behind a value. -/
def passOn (rounds : Nat) : List Frame → Reader Unit
  | [] => pure ()
  | frame :: outer => do
    passName frame
    passFrames rounds (frame :: outer)

/-- **What is done behind a value** in some frames: those that end there are
left, and the others passed over. -/
def afterValue (frames : List Frame) (rounds : Nat) : Reader Unit :=
  passEnds true frames >>= passOn rounds

theorem behindBlanks_passFrames (rounds : Nat) (frames : List Frame) :
    BehindBlanks (passFrames (rounds + 1) frames) := by
  unfold passFrames passHead
  exact (behindBlanks_afterBlanks_bind _).bind _

theorem behindBlanks_afterValue (frame : Frame) (outer : List Frame) (rounds : Nat) :
    BehindBlanks (afterValue (frame :: outer) rounds) := by
  unfold afterValue passEnds
  exact (behindBlanks_afterBlanks_bind _).bind _

theorem behindBlanks_passOn (rounds : Nat) (frame : Frame) (outer : List Frame) :
    BehindBlanks (passOn (rounds + 1) (frame :: outer)) := by
  cases frame with
  | list => exact behindBlanks_passFrames rounds _
  | object => exact (behindBlanks_afterBlanks_bind _).bind _

section

variable {frame : Frame} {frames outer : List Frame} {rounds : Nat} {before between : List UInt8}
  {rest after : List UInt8}

/-- A round with a value that has no parts. -/
theorem reads_passFrames_scalar (hhead : Reads passHead before none between)
    (hafter : Reads (afterValue frames rounds) between () after) :
    Reads (passFrames (rounds + 1) frames) before () after := by
  unfold passFrames
  exact hhead.bind hafter

/-- A round that opens a frame. -/
theorem reads_passFrames_opening (hhead : Reads passHead before (some frame) between)
    (hafter : Reads (passEnds false (frame :: frames) >>= passOn rounds) between () after) :
    Reads (passFrames (rounds + 1) frames) before () after := by
  unfold passFrames
  exact hhead.bind hafter

/-- A closing ends its frame, and what is done next is done behind the frame. -/
theorem reads_passEnds_closer {afterValue : Bool} {next : List Frame → Reader Unit}
    (h : Reads (passEnds true outer >>= next) rest () after) :
    Reads (passEnds afterValue (frame :: outer) >>= next) (frame.closer :: rest) () after := by
  unfold passEnds
  rw [bind_assoc]
  refine (reads_afterBlanks_cons frame.isBlank_closer _).bind ?_
  dsimp only
  rw [if_pos rfl, bind_assoc]
  exact (reads_skip _ _).bind h

/-- A frame that was opened goes on with its first entry. -/
theorem reads_passEnds_entry {b : UInt8} (hblank : isBlank b = false) (hb : b ≠ frame.closer)
    (bs : List UInt8) :
    Reads (passEnds false (frame :: outer)) (b :: bs) (frame :: outer) (b :: bs) := by
  unfold passEnds
  refine (reads_afterBlanks_cons hblank _).bind ?_
  dsimp only
  rw [if_neg hb, Bool.not_false, if_pos rfl]
  exact .pure _ _

/-- Behind a comma a frame goes on. -/
theorem reads_passEnds_comma (rest : List UInt8) :
    Reads (passEnds true (frame :: outer)) (byte ',' :: rest) (frame :: outer) rest := by
  have hcomma : byte ',' ≠ frame.closer := by cases frame <;> decide
  unfold passEnds
  refine (reads_afterBlanks_cons (by decide) _).bind ?_
  dsimp only
  rw [if_neg hcomma, if_neg (by decide), if_pos rfl]
  exact (reads_skip _ _).bind (.pure _ _)

/-- Blanks behind the colon are those in front of the value. -/
theorem reads_passName_bind {l : List Char} {r : Reader Unit} (h : frame.IsLabel l)
    (hr : BehindBlanks r) (hrest : Reads r rest () after) :
    Reads (passName frame >>= fun _ => r) (Utf8.encode l ++ rest) () after := by
  cases h with
  | list => exact (Reads.pure () rest).bind hrest
  | object h =>
    obtain ⟨hq, hb, hc⟩ := h
    obtain ⟨hs⟩ := hq
    rw [encode_named]
    unfold passName
    refine Reads.bind (a := ()) ?_ (hr.reads hc hrest)
    refine (reads_afterBlanks_cons (by decide) _).bind ?_
    dsimp only
    rw [if_pos rfl]
    refine (reads_skip _ _).bind ((reads_passText hs _).bind ?_)
    exact behindBlanks_colon.reads hb (reads_colon _)

/-! ## Values, passed over -/

/-- Blanks may stand in front of what may stand behind a value. -/
theorem Ends.blank {b : List Char} (hb : Blank b) (h : Ends rest) :
    Ends (Utf8.encode b ++ rest) := by
  have hmarks : ∀ d : UInt8, isBlank d → d ∈ endings := by
    intro d hd
    simp only [isBlank, Bool.or_eq_true, beq_iff_eq] at hd
    rcases hd with ((rfl | rfl) | rfl) | rfl <;> decide
  cases b with
  | nil => exact h
  | cons c cs =>
    obtain ⟨hascii, hc⟩ := blank_cases (hb c List.mem_cons_self)
    rw [encode_cons hascii]
    exact .cons (hmarks _ hc) _

/-- **A value is passed over in some frames** with all that is done behind
it, whatever that is. -/
def PassesValue (v : List Char) : Prop :=
  ∀ {frames : List Frame} {rest after : List UInt8}, Ends rest →
    ReadsInRounds (afterValue frames) rest () after →
    ReadsInRounds (fun rounds => passFrames rounds frames) (Utf8.encode v ++ rest) () after

/-- And so are the entries of the innermost one. -/
def PassesEntries (frame : Frame) (w : List Char) : Prop :=
  ∀ {outer : List Frame} {rest after : List UInt8}, Ends rest →
    ReadsInRounds (afterValue (frame :: outer)) rest () after →
    ReadsInRounds (fun rounds => passOn rounds (frame :: outer)) (Utf8.encode w ++ rest) () after

/-- Blanks are passed over with what is read behind them. -/
theorem ReadsInRounds.blank {r : Nat → Reader Unit} (hr : ∀ n, BehindBlanks (r (n + 1)))
    {b : List Char} (hb : Blank b) (h : ReadsInRounds r rest () after) :
    ReadsInRounds r (Utf8.encode b ++ rest) () after := by
  refine .of_succ fun rounds hrounds => ?_
  rw [List.length_append] at hrounds
  exact (hr rounds).reads hb (h _ (by omega))

/-! A value begins with no blank and no closing. -/

theorem IsScalar.begins {v : List Char} (h : IsScalar v) : Begins v := by
  cases h with
  | word h =>
    simp only [List.mem_cons, List.not_mem_nil, or_false] at h
    rcases h with rfl | rfl | rfl
    · exact ⟨'n', _, rfl, by decide, by decide, by decide⟩
    · exact ⟨'t', _, rfl, by decide, by decide, by decide⟩
    · exact ⟨'f', _, rfl, by decide, by decide, by decide⟩
  | text h =>
    obtain ⟨-⟩ := h
    exact ⟨'"', _, rfl, by decide, by decide, by decide⟩
  | number h =>
    obtain ⟨hsign, hwhole, -, -⟩ := h
    obtain ⟨d, more, rfl, hd, -⟩ := hwhole.exists_cons
    have hbyte := isDigit_byte hd
    have hclosing : byte d ≠ byte ']' := fun h => absurd (h ▸ hbyte) (by decide)
    simp only [List.mem_cons, List.not_mem_nil, or_false] at hsign
    rcases hsign with rfl | rfl
    · exact ⟨d, _, rfl, lt_of_isDigit hd, isBlank_of_isDigit hbyte, hclosing⟩
    · exact ⟨'-', _, rfl, by decide, by decide, by decide⟩

theorem IsValue.begins {v : List Char} (h : IsValue v) : Begins v := by
  cases h with
  | scalar h => exact h.begins
  | empty frame => cases frame <;> exact ⟨_, _, rfl, by decide, by decide, by decide⟩
  | filled frame => cases frame <;> exact ⟨_, _, rfl, by decide, by decide, by decide⟩

/-- An entry begins with its name or with its value. -/
theorem Frame.IsLabel.begins {l v : List Char} (h : frame.IsLabel l) (hv : IsValue v)
    (rest : List UInt8) :
    ∃ b bs, Utf8.encode l ++ (Utf8.encode v ++ rest) = b :: bs ∧ isBlank b = false ∧
      b ≠ frame.closer := by
  cases h with
  | list => exact hv.begins.encode rest
  | object h =>
    obtain ⟨hq, -, -⟩ := h
    obtain ⟨-⟩ := hq
    exact ⟨byte '"', _, encode_named _ _ _ _, by decide, by decide⟩

theorem IsEntries.begins {w : List Char} (h : IsEntries frame w) (rest : List UInt8) :
    ∃ b bs, Utf8.encode w ++ rest = b :: bs ∧ isBlank b = false ∧ b ≠ frame.closer := by
  cases h with
  | last hl hv _ =>
    rw [Utf8.encode_append, Utf8.encode_append, List.append_assoc, List.append_assoc]
    exact hl.begins hv _
  | more hl hv _ _ _ =>
    rw [Utf8.encode_append, Utf8.encode_append, List.append_assoc, List.append_assoc]
    exact hl.begins hv _

theorem Begins.length_pos {v : List Char} (h : Begins v) : 0 < (Utf8.encode v).length := by
  obtain ⟨b, bs, hbytes, -⟩ := h.encode []
  rw [List.append_nil] at hbytes
  rw [hbytes]
  exact Nat.succ_pos _

/-! Each form of a value, and each of entries. -/

theorem passesValue_scalar {v : List Char} (h : IsScalar v) : PassesValue v := by
  intro frames rest after hrest hafter
  have hpos := h.begins.length_pos
  refine .of_succ fun rounds hrounds => ?_
  rw [List.length_append] at hrounds
  exact reads_passFrames_scalar (reads_passHead h hrest) (hafter rounds (by omega))

theorem passesValue_empty (frame : Frame) {b : List Char} (hb : Blank b) :
    PassesValue (frame.opening :: (b ++ [frame.closing])) := by
  intro frames rest after _ hafter
  rw [encode_frame]
  refine .of_succ fun rounds hrounds => ?_
  simp only [List.length_cons, List.length_append] at hrounds
  refine reads_passFrames_opening (reads_passHead_opening frame _) ?_
  have hends : BehindBlanks (passEnds false (frame :: frames) >>= passOn rounds) := by
    unfold passEnds
    exact (behindBlanks_afterBlanks_bind _).bind _
  exact hends.reads hb (reads_passEnds_closer (hafter rounds (by omega)))

theorem passesValue_filled (frame : Frame) {b w : List Char} (hb : Blank b)
    (hentries : IsEntries frame w) (h : PassesEntries frame w) :
    PassesValue (frame.opening :: (b ++ (w ++ [frame.closing]))) := by
  intro frames rest after _ hafter
  rw [← List.append_assoc, encode_frame, Utf8.encode_append, List.append_assoc]
  refine .of_succ fun rounds hrounds => ?_
  simp only [List.length_cons, List.length_append] at hrounds
  refine reads_passFrames_opening (reads_passHead_opening frame _) ?_
  have hends : BehindBlanks (passEnds false (frame :: frames)) := by
    unfold passEnds
    exact behindBlanks_afterBlanks_bind _
  have hclosed : ReadsInRounds (afterValue (frame :: frames)) (frame.closer :: rest) () after :=
    fun n hn => reads_passEnds_closer (hafter n (by rw [List.length_cons] at hn; omega))
  have hinside := h (.cons frame.closer_mem_endings rest) hclosed rounds
    (by rw [List.length_append, List.length_cons]; omega)
  obtain ⟨c, cs, hbytes, hblank, hc⟩ := hentries.begins (frame.closer :: rest)
  refine Reads.bind (hends.reads hb ?_) hinside
  rw [hbytes]
  exact reads_passEnds_entry hblank hc cs

/-- An entry is a value behind its name. -/
theorem readsInRounds_entry {l v : List Char} (hl : frame.IsLabel l) (hv : IsValue v)
    (h : PassesValue v) (hrest : Ends rest)
    (hafter : ReadsInRounds (afterValue (frame :: outer)) rest () after) :
    ReadsInRounds (fun rounds => passOn rounds (frame :: outer))
      (Utf8.encode l ++ (Utf8.encode v ++ rest)) () after := by
  intro rounds hrounds
  have hpos := hv.begins.length_pos
  simp only [List.length_append] at hrounds
  obtain ⟨rounds, rfl⟩ : ∃ n, rounds = n + 1 := ⟨rounds - 1, by omega⟩
  exact reads_passName_bind hl (behindBlanks_passFrames rounds _)
    (h hrest hafter _ (by rw [List.length_append]; omega))

theorem passesEntries_last {l v b : List Char} (hl : frame.IsLabel l) (hv : IsValue v)
    (hb : Blank b) (h : PassesValue v) : PassesEntries frame (l ++ (v ++ b)) := by
  intro outer rest after hrest hafter
  rw [Utf8.encode_append, Utf8.encode_append, List.append_assoc, List.append_assoc]
  exact readsInRounds_entry hl hv h (hrest.blank hb)
    (.blank (behindBlanks_afterValue frame outer ·.succ) hb hafter)

theorem passesEntries_more {l v b c w : List Char} (hl : frame.IsLabel l) (hv : IsValue v)
    (hb : Blank b) (hc : Blank c) (h : PassesValue v) (hw : PassesEntries frame w) :
    PassesEntries frame (l ++ (v ++ (b ++ ',' :: (c ++ w)))) := by
  intro outer rest after hrest hafter
  simp only [Utf8.encode_append, List.append_assoc]
  rw [encode_cons (by decide), Utf8.encode_append, List.cons_append, List.append_assoc]
  have hmore : ReadsInRounds (afterValue (frame :: outer))
      (byte ',' :: (Utf8.encode c ++ (Utf8.encode w ++ rest))) () after := by
    intro rounds hrounds
    rw [List.length_cons] at hrounds
    have hnext := ReadsInRounds.blank (behindBlanks_passOn · frame outer) hc (hw hrest hafter)
    exact (reads_passEnds_comma _).bind (hnext rounds (by omega))
  have hcomma : Ends (byte ',' :: (Utf8.encode c ++ (Utf8.encode w ++ rest))) :=
    .cons (by decide) _
  exact readsInRounds_entry hl hv h (hcomma.blank hb)
    (.blank (behindBlanks_afterValue frame outer ·.succ) hb hmore)

mutual

/-- **Every value is passed over**, -/
theorem passesValue {v : List Char} : IsValue v → PassesValue v
  | .scalar h => passesValue_scalar h
  | .empty frame hb => passesValue_empty frame hb
  | .filled frame hb h => passesValue_filled frame hb h (passesEntries h)

/-- and so are all entries. -/
theorem passesEntries {frame : Frame} {w : List Char} : IsEntries frame w → PassesEntries frame w
  | .last hl hv hb => passesEntries_last hl hv hb (passesValue hv)
  | .more hl hv hb hc hw => passesEntries_more hl hv hb hc (passesValue hv) (passesEntries hw)

end

/-- **A value is passed over to its end**, with blanks in front. -/
theorem reads_passValue {b v : List Char} (hb : Blank b) (hv : IsValue v) (hrest : Ends rest) :
    Reads passValue (Utf8.encode b ++ (Utf8.encode v ++ rest)) () rest := by
  have hdone : ReadsInRounds (afterValue []) rest () rest := fun _ _ => .pure _ _
  exact (ReadsInRounds.blank (behindBlanks_passFrames · []) hb
    (passesValue hv hrest hdone)).bounded

end

end Json

end Abacus
