import Abacus.Proofs.JsonSteps

/-!
# Spellings of texts

Between quotation marks a character stands for itself, or an escape stands
for it: by a letter, by its code point, or by two surrogates (`Spells`). So
one text has many spellings (`Spelled`), and what is printed is one of them
(`spelled_escape`). Whatever the spelling, the text is what is read
(`reads_textBody`), and a text that nobody wants is passed over to its
closing mark (`reads_passText`).
-/

namespace Abacus

namespace Json

/-! ## Spellings -/

/-- A digit of base sixteen, as a small or a large letter. -/
def IsHexDigit (n : Nat) (c : Char) : Prop :=
  n < 16 ∧ (c = Nat.digitChar n ∨ c = (Nat.digitChar n).toUpper)

/-- **A code unit in four digits** of base sixteen. -/
inductive CodeUnit : Nat → List Char → Prop
  | digits {k l m n : Nat} {a b c d : Char} : IsHexDigit k a → IsHexDigit l b → IsHexDigit m c →
      IsHexDigit n d → CodeUnit (((k * 16 + l) * 16 + m) * 16 + n) [a, b, c, d]

/-- What the letters of escapes stand for. -/
def letters : List (Char × Char) :=
  [('"', '"'), ('\\', '\\'), ('/', '/'), ('b', '\x08'), ('f', '\x0c'), ('n', '\n'), ('r', '\r'),
    ('t', '\t')]

/-- **The spellings of a character** inside a text. -/
inductive Spells : Char → List Char → Prop
  | plain {c : Char} : 0x20 ≤ c.toNat → c ≠ '"' → c ≠ '\\' → Spells c [c]
  | letter {c l : Char} : (l, c) ∈ letters → Spells c ['\\', l]
  | unit {c : Char} {w : List Char} : CodeUnit c.toNat w → Spells c ('\\' :: 'u' :: w)
  | pair {c : Char} {high low : Nat} {v w : List Char} : high < 0x400 → low < 0x400 →
      c.toNat = 0x10000 + high * 0x400 + low → CodeUnit (0xD800 + high) v →
      CodeUnit (0xDC00 + low) w → Spells c ('\\' :: 'u' :: (v ++ '\\' :: 'u' :: w))

/-- **The spellings of a text**, character by character. -/
inductive Spelled : List Char → List Char → Prop
  | nil : Spelled [] []
  | cons {c : Char} {s v w : List Char} : Spells c v → Spelled s w → Spelled (c :: s) (v ++ w)

/-- **A text in quotation marks.** -/
inductive Quoted : List Char → List Char → Prop
  | marks {s w : List Char} : Spelled s w → Quoted s ('"' :: (w ++ ['"']))

/-! ## What is printed -/

theorem isHexDigit_hexDigit {n : Nat} : IsHexDigit (n % 16) (hexDigit n) :=
  ⟨Nat.mod_lt n (by decide), .inl rfl⟩

theorem spells_escape (c : Char) : Spells c (escape c) := by
  unfold escape
  by_cases hquote : c = '"'
  · rw [if_pos hquote, hquote]
    exact .letter (by decide)
  rw [if_neg hquote]
  by_cases hslash : c = '\\'
  · rw [if_pos hslash, hslash]
    exact .letter (by decide)
  rw [if_neg hslash]
  split
  · next h => exact .letter (by rw [h]; decide)
  split
  · next h => exact .letter (by rw [h]; decide)
  split
  · next h => exact .letter (by rw [h]; decide)
  split
  · next h => exact .letter (by rw [h]; decide)
  split
  · next h => exact .letter (by rw [h]; decide)
  split
  · next hcontrol =>
    have hunit : CodeUnit (((0 * 16 + 0) * 16 + c.toNat / 16 % 16) * 16 + c.toNat % 16)
        ['0', '0', hexDigit (c.toNat / 16), hexDigit c.toNat] :=
      .digits ⟨by decide, .inl rfl⟩ ⟨by decide, .inl rfl⟩ isHexDigit_hexDigit isHexDigit_hexDigit
    have hcode : ((0 * 16 + 0) * 16 + c.toNat / 16 % 16) * 16 + c.toNat % 16 = c.toNat := by omega
    rw [hcode] at hunit
    exact .unit hunit
  · next hcontrol => exact .plain (by omega) hquote hslash

/-- **What is printed of a text is a spelling of it.** -/
theorem spelled_escape (s : List Char) : Spelled s (s.flatMap escape) := by
  induction s with
  | nil => exact .nil
  | cons c s ih => exact .cons (spells_escape c) ih

theorem quoted_text (s : List Char) : Quoted s (text s) := .marks (spelled_escape s)

/-- The quotation marks and what stands between them. -/
theorem encode_marks (w : List Char) (rest : List UInt8) :
    Utf8.encode ('"' :: (w ++ ['"'])) ++ rest =
      byte '"' :: (Utf8.encode w ++ byte '"' :: rest) := by
  rw [encode_cons (by decide), Utf8.encode_append, encode_cons (by decide), List.cons_append,
    List.append_assoc]
  rfl

/-! ## Escapes, read -/

theorem reads_byteOfText (b : UInt8) (bs : List UInt8) : Reads byteOfText (b :: bs) b bs := by
  unfold byteOfText
  exact (reads_next b bs).bind (.pure _ _)

theorem IsHexDigit.ascii {n : Nat} {c : Char} (h : IsHexDigit n c) : c.toNat < 0x80 := by
  have hall : ∀ n < 16,
      (Nat.digitChar n).toNat < 0x80 ∧ (Nat.digitChar n).toUpper.toNat < 0x80 := by decide
  obtain ⟨hn, rfl | rfl⟩ := h
  · exact (hall n hn).1
  · exact (hall n hn).2

theorem IsHexDigit.hexValue? {n : Nat} {c : Char} (h : IsHexDigit n c) :
    Json.hexValue? (byte c) = some n := by
  have hall : ∀ n < 16, Json.hexValue? (byte (Nat.digitChar n)) = some n ∧
      Json.hexValue? (byte (Nat.digitChar n).toUpper) = some n := by decide
  obtain ⟨hn, rfl | rfl⟩ := h
  · exact (hall n hn).1
  · exact (hall n hn).2

/-- Four digits are read as their code unit. -/
theorem reads_codeUnit {n : Nat} {w : List Char} (h : CodeUnit n w) (rest : List UInt8) :
    Reads codeUnit (Utf8.encode w ++ rest) n rest := by
  cases h with
  | digits hk hl hm hn =>
    rw [encode_cons hk.ascii, encode_cons hl.ascii, encode_cons hm.ascii, encode_cons hn.ascii]
    unfold codeUnit
    refine (reads_byteOfText _ _).bind ?_
    refine (reads_byteOfText _ _).bind ?_
    refine (reads_byteOfText _ _).bind ?_
    refine (reads_byteOfText _ _).bind ?_
    rw [hk.hexValue?, hl.hexValue?, hm.hexValue?, hn.hexValue?]
    exact .pure _ _

theorem reads_pairByte (b : UInt8) (bs : List UInt8) : Reads (pairByte b) (b :: bs) () bs := by
  unfold pairByte
  refine (reads_peek _).bind ?_
  dsimp only [List.head?_cons]
  refine (reads_skip _ _).bind ?_
  rw [if_pos rfl]
  exact .pure _ _

/-- What a letter stands for is ASCII, and so is the letter. -/
theorem letter_cases {l c : Char} (h : (l, c) ∈ letters) :
    l.toNat < 0x80 ∧ c.toNat < 0x80 ∧ byte l ≠ byte 'u' ∧
      letterEscape? (byte l) = some (byte c) := by
  have hall : ∀ p ∈ letters, p.1.toNat < 0x80 ∧ p.2.toNat < 0x80 ∧ byte p.1 ≠ byte 'u' ∧
      letterEscape? (byte p.1) = some (byte p.2) := by decide
  exact hall (l, c) h

/-- **An escape is read as its character.** -/
theorem reads_escaped {c : Char} {e : List Char} (h : Spells c ('\\' :: e)) (rest : List UInt8) :
    Reads escaped (Utf8.encode e ++ rest) (String.utf8EncodeChar c) rest := by
  have hbytes : bytesOf c.toNat = String.utf8EncodeChar c := by rw [bytesOf, Char.ofNat_toNat]
  unfold escaped
  cases h with
  | plain _ _ hslash => exact absurd rfl hslash
  | @letter l h =>
    obtain ⟨hl, hc, hne, hletter⟩ := letter_cases h
    have hone : [byte c] = String.utf8EncodeChar c := (if_pos (Nat.le_of_lt_succ hc)).symm
    rw [encode_cons hl]
    refine (reads_byteOfText _ _).bind ?_
    rw [if_neg hne, hletter]
    dsimp only
    rw [hone]
    exact .pure _ _
  | unit h =>
    -- no character is a surrogate
    have hvalid := c.valid
    have hval : c.val.toNat = c.toNat := rfl
    simp only [UInt32.isValidChar, Nat.isValidChar, hval] at hvalid
    rw [encode_cons (by decide)]
    refine (reads_byteOfText _ _).bind ?_
    rw [if_pos rfl]
    unfold numberedEscape
    refine (reads_codeUnit h rest).bind ?_
    rw [if_neg (by omega), if_pos (by omega), hbytes]
    exact .pure _ _
  | @pair high low v w hhigh hlow hcode hv hw =>
    have hsum : (0xD800 + high - 0xD800) * 0x400 + (0xDC00 + low - 0xDC00) + 0x10000 = c.toNat := by
      omega
    rw [encode_cons (by decide), Utf8.encode_append, encode_cons (by decide),
      encode_cons (by decide), List.cons_append, List.append_assoc, List.cons_append,
      List.cons_append]
    refine (reads_byteOfText _ _).bind ?_
    rw [if_pos rfl]
    unfold numberedEscape
    refine (reads_codeUnit hv _).bind ?_
    rw [if_neg (by omega), if_neg (by omega)]
    refine (reads_pairByte _ _).bind ?_
    refine (reads_pairByte _ _).bind ?_
    refine (reads_codeUnit hw rest).bind ?_
    rw [if_neg (by omega), hsum, hbytes]
    exact .pure _ _

/-! ## Texts, read -/

/-- A byte between quotation marks that stands for itself. -/
def IsPlainByte (b : UInt8) : Prop := b ≠ byte '"' ∧ b ≠ byte '\\' ∧ ¬ b < 0x20

theorem isPlainByte_of_mem {c : Char} (hlow : 0x20 ≤ c.toNat) (hquote : c ≠ '"')
    (hslash : c ≠ '\\') : ∀ b ∈ String.utf8EncodeChar c, IsPlainByte b := by
  have hne : c.toNat ≠ 0x22 ∧ c.toNat ≠ 0x5C :=
    ⟨fun h => hquote (Char.toNat_inj.1 h), fun h => hslash (Char.toNat_inj.1 h)⟩
  have hbyte : ∀ b : UInt8, 0x20 ≤ b.toNat → b.toNat ≠ 0x22 → b.toNat ≠ 0x5C → IsPlainByte b :=
    fun b hb hquote hslash => ⟨fun h => hquote (by rw [h]; rfl), fun h => hslash (by rw [h]; rfl),
      fun h => by
        have hlt : b.toNat < 0x20 := UInt8.lt_iff_toNat_lt.1 h
        omega⟩
  intro b hb
  have hshape := Utf8.shape_encode c
  generalize String.utf8EncodeChar c = bytes at hb hshape
  -- a byte is the character's code or none of ASCII
  refine hbyte b ?_ ?_ ?_ <;> cases hshape <;>
    simp only [List.mem_cons, List.not_mem_nil, or_false] at hb <;>
    rcases hb with rfl | rfl | rfl | rfl <;> omega

section

variable {between more after : List UInt8} {c : Char} {s w : List Char}

/-- **A character's spelling is read as the character**, and then what stands
behind it. -/
theorem Spells.textBytes (h : Spells c w) (hmore : ReadsInRounds textBytes between more after) :
    ReadsInRounds textBytes (Utf8.encode w ++ between) (String.utf8EncodeChar c ++ more) after := by
  have hescape : ∀ e, Spells c ('\\' :: e) →
      ReadsInRounds Json.textBytes (Utf8.encode ('\\' :: e) ++ between)
        (String.utf8EncodeChar c ++ more) after := by
    intro e he
    rw [encode_cons (by decide), List.cons_append]
    refine .of_succ fun rounds hrounds => ?_
    simp only [List.length_cons, List.length_append] at hrounds
    unfold Json.textBytes
    refine (reads_byteOfText _ _).bind ?_
    rw [if_neg (by decide), if_pos rfl]
    refine (reads_escaped he between).bind ?_
    exact (hmore rounds (by omega)).bind (.pure _ _)
  cases h with
  | plain hlow hquote hslash =>
    have hplain := isPlainByte_of_mem hlow hquote hslash
    rw [Utf8.encode_cons, Utf8.encode_nil, List.append_nil]
    generalize String.utf8EncodeChar c = bs at hplain
    induction bs with
    | nil => exact hmore
    | cons b bs ih =>
      obtain ⟨⟨hq, hs, hcontrol⟩, hplain⟩ := List.forall_mem_cons.1 hplain
      rw [List.cons_append, List.cons_append]
      refine .of_succ fun rounds hrounds => ?_
      simp only [List.length_cons] at hrounds
      unfold Json.textBytes
      refine (reads_byteOfText _ _).bind ?_
      rw [if_neg hq, if_neg hs, if_neg hcontrol]
      exact (ih hplain rounds (by omega)).bind (.pure _ _)
  | letter h => exact hescape _ (.letter h)
  | unit h => exact hescape _ (.unit h)
  | pair hhigh hlow hcode hv hw => exact hescape _ (.pair hhigh hlow hcode hv hw)

theorem Spelled.textBytes (h : Spelled s w) (rest : List UInt8) :
    ReadsInRounds textBytes (Utf8.encode w ++ byte '"' :: rest) (Utf8.encode s) rest := by
  induction h with
  | nil =>
    refine .of_succ fun rounds _ => ?_
    unfold Json.textBytes
    refine (reads_byteOfText _ _).bind ?_
    rw [if_pos rfl]
    exact .pure _ _
  | cons hc _ ih =>
    rw [Utf8.encode_append, List.append_assoc, Utf8.encode_cons]
    exact hc.textBytes ih

/-- **A text is read as itself**, whatever its spelling. -/
theorem reads_textBody (h : Spelled s w) (rest : List UInt8) :
    Reads textBody (Utf8.encode w ++ byte '"' :: rest) s rest := by
  unfold textBody
  refine (h.textBytes rest).bounded.bind ?_
  rw [Utf8.front_encode]
  exact .pure _ _

/-! ## Texts, passed over -/

/-- A letter or a code unit is passed over behind its backslash. -/
theorem passBytes_escape {e : List Char}
    (hpass : Reads passEscape (Utf8.encode e ++ between) () between)
    (hmore : ReadsInRounds passBytes between () after) :
    ReadsInRounds passBytes (Utf8.encode ('\\' :: e) ++ between) () after := by
  rw [encode_cons (by decide), List.cons_append]
  refine .of_succ fun rounds hrounds => ?_
  simp only [List.length_cons, List.length_append] at hrounds
  unfold passBytes
  refine (reads_peek _).bind ?_
  dsimp only [List.head?_cons]
  rw [if_neg (by decide), if_pos rfl]
  refine (reads_skip _ _).bind ?_
  refine hpass.bind ?_
  exact hmore rounds (by omega)

theorem reads_passEscape_unit {n : Nat} (h : CodeUnit n w) (rest : List UInt8) :
    Reads passEscape (Utf8.encode ('u' :: w) ++ rest) () rest := by
  rw [encode_cons (by decide)]
  unfold passEscape
  refine (reads_byteOfText _ _).bind ?_
  rw [if_pos rfl]
  exact (reads_codeUnit h rest).bind (.pure _ _)

/-- **A character's spelling is passed over**, two surrogates one after the
other. -/
theorem Spells.passBytes (h : Spells c w) (hmore : ReadsInRounds passBytes between () after) :
    ReadsInRounds passBytes (Utf8.encode w ++ between) () after := by
  cases h with
  | plain hlow hquote hslash =>
    have hplain := isPlainByte_of_mem hlow hquote hslash
    rw [Utf8.encode_cons, Utf8.encode_nil, List.append_nil]
    generalize String.utf8EncodeChar c = bs at hplain
    induction bs with
    | nil => exact hmore
    | cons b bs ih =>
      obtain ⟨⟨hq, hs, hcontrol⟩, hplain⟩ := List.forall_mem_cons.1 hplain
      rw [List.cons_append]
      refine .of_succ fun rounds hrounds => ?_
      simp only [List.length_cons] at hrounds
      unfold Json.passBytes
      refine (reads_peek _).bind ?_
      dsimp only [List.head?_cons]
      rw [if_neg hq, if_neg hs, if_neg hcontrol]
      exact (reads_skip _ _).bind (ih hplain rounds (by omega))
  | @letter l h =>
    obtain ⟨hl, -, hne, hletter⟩ := letter_cases h
    refine passBytes_escape ?_ hmore
    rw [encode_cons hl]
    unfold passEscape
    refine (reads_byteOfText _ _).bind ?_
    rw [if_neg hne, hletter]
    exact .pure _ _
  | unit h => exact passBytes_escape (reads_passEscape_unit h between) hmore
  | pair _ _ _ hv hw =>
    rw [← List.cons_append, ← List.cons_append, Utf8.encode_append, List.append_assoc]
    exact passBytes_escape (reads_passEscape_unit hv _)
      (passBytes_escape (reads_passEscape_unit hw between) hmore)

theorem Spelled.passBytes (h : Spelled s w) (rest : List UInt8) :
    ReadsInRounds passBytes (Utf8.encode w ++ byte '"' :: rest) () rest := by
  induction h with
  | nil =>
    refine .of_succ fun rounds _ => ?_
    unfold Json.passBytes
    refine (reads_peek _).bind ?_
    dsimp only [Utf8.encode_nil, List.nil_append, List.head?_cons]
    rw [if_pos rfl]
    exact reads_skip _ _
  | cons hc _ ih =>
    rw [Utf8.encode_append, List.append_assoc]
    exact hc.passBytes ih

/-- **A text is passed over to its closing mark.** -/
theorem reads_passText (h : Spelled s w) (rest : List UInt8) :
    Reads passText (Utf8.encode w ++ byte '"' :: rest) () rest :=
  (h.passBytes rest).bounded

end

end Json

end Abacus
