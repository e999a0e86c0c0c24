import Abacus.Text.Utf8
import Mathlib.Data.List.Basic

/-!
# Encoding — texts told by their bytes

A text is read back from its bytes, and bytes that are read as a text are
the bytes of it (`Utf8.decode?_eq_some_iff`). So which bytes are a text
can be said without a reader. A character has one of four shapes
(`Utf8.Shape`), and writing and reading it are both told by them. A
newline in the bytes is one in the text.
-/

namespace Abacus

namespace Utf8

@[simp] theorem encode_nil : encode [] = [] := rfl

theorem encode_cons (c : Char) (text : List Char) :
    encode (c :: text) = String.utf8EncodeChar c ++ encode text := List.flatMap_cons

@[simp] theorem encode_append (s t : List Char) : encode (s ++ t) = encode s ++ encode t :=
  List.flatMap_append

/-! ## The shapes of a character -/

/-- **The bytes of a character**, by how many there are. The first tells
that, and each of the others carries six bits. -/
inductive Shape (c : Char) : List UInt8 → Prop
  | one {a : UInt8} : c.toNat < 0x80 → a.toNat = c.toNat → Shape c [a]
  | two {a b : UInt8} : 0x80 ≤ c.toNat → c.toNat < 0x800 → a.toNat = 0xC0 + c.toNat / 0x40 →
      b.toNat = 0x80 + c.toNat % 0x40 → Shape c [a, b]
  | three {a b d : UInt8} : 0x800 ≤ c.toNat → c.toNat < 0x10000 →
      a.toNat = 0xE0 + c.toNat / 0x1000 → b.toNat = 0x80 + c.toNat / 0x40 % 0x40 →
      d.toNat = 0x80 + c.toNat % 0x40 → Shape c [a, b, d]
  | four {a b d e : UInt8} : 0x10000 ≤ c.toNat → a.toNat = 0xF0 + c.toNat / 0x40000 →
      b.toNat = 0x80 + c.toNat / 0x1000 % 0x40 → d.toNat = 0x80 + c.toNat / 0x40 % 0x40 →
      e.toNat = 0x80 + c.toNat % 0x40 → Shape c [a, b, d, e]

/-- There are no characters behind the last plane. -/
theorem toNat_lt (c : Char) : c.toNat < 0x110000 := by
  rcases c.valid with h | h
  · exact Nat.lt_trans h (by decide)
  · exact h.2

theorem toNat_ofNat {n : Nat} (h : n.isValidChar) : (Char.ofNat n).toNat = n := by
  rw [Char.ofNat, dif_pos h]
  rfl

theorem toNat_byte {m n : Nat} (h : m = n) (hn : n < 0x100) : (UInt8.ofNat m).toNat = n := by
  rw [h, UInt8.toNat_ofNat', Nat.mod_eq_of_lt hn]

theorem byte_eq {a b : UInt8} {n : Nat} (ha : a.toNat = n) (hb : b.toNat = n) : a = b :=
  UInt8.toNat_inj.1 (ha.trans hb.symm)

/-- The bytes that are written have the shape, -/
theorem shape_encode (c : Char) : Shape c (String.utf8EncodeChar c) := by
  have hlt := toNat_lt c
  have hval : c.val.toNat = c.toNat := rfl
  rw [String.utf8EncodeChar]
  simp only [hval]
  split
  · exact .one (by omega) (toNat_byte rfl (by omega))
  split
  · exact .two (by omega) (by omega) (toNat_byte (by omega) (by omega))
      (toNat_byte (by omega) (by omega))
  split
  · exact .three (by omega) (by omega) (toNat_byte (by omega) (by omega))
      (toNat_byte (by omega) (by omega)) (toNat_byte (by omega) (by omega))
  · exact .four (by omega) (toNat_byte (by omega) (by omega)) (toNat_byte (by omega) (by omega))
      (toNat_byte (by omega) (by omega)) (toNat_byte (by omega) (by omega))

/-- and no others do. -/
theorem Shape.unique {c : Char} {bytes others : List UInt8} (h : Shape c bytes)
    (hothers : Shape c others) : bytes = others := by
  cases h <;> cases hothers
  case one.one _ _ ha _ _ ha' => rw [byte_eq ha ha']
  case two.two _ _ _ _ ha hb _ _ _ _ ha' hb' => rw [byte_eq ha ha', byte_eq hb hb']
  case three.three _ _ _ _ _ ha hb hd _ _ _ _ _ ha' hb' hd' =>
    rw [byte_eq ha ha', byte_eq hb hb', byte_eq hd hd']
  case four.four _ _ _ _ _ ha hb hd he _ _ _ _ _ ha' hb' hd' he' =>
    rw [byte_eq ha ha', byte_eq hb hb', byte_eq hd hd', byte_eq he he']
  -- the shapes are of characters in different ranges
  all_goals omega

/-! ## One character, read -/

/-- What a byte adds that continues a character. -/
theorem continuation?_eq_some_iff {b : UInt8} {k : Nat} :
    continuation? b = some k ↔ b.toNat = 0x80 + k ∧ k < 0x40 := by
  rw [continuation?]
  split
  · rw [Option.some.injEq]
    omega
  · constructor
    · intro hnone
      cases hnone
    · intro hk
      omega

/-- A code point is a character if it needs as many bytes as were used. -/
theorem scalar?_eq_some_iff {least n : Nat} {c : Char} :
    scalar? least n = some c ↔ least ≤ n ∧ c.toNat = n := by
  rw [scalar?]
  constructor
  · intro h
    split at h
    · next hn =>
      obtain rfl := Option.some.inj h
      exact ⟨hn.1, toNat_ofNat hn.2⟩
    · cases h
  · rintro ⟨hle, rfl⟩
    rw [if_pos ⟨hle, c.valid⟩, Char.ofNat_toNat]

/-- **A character is read from its bytes**, whatever comes behind them. -/
theorem Shape.next? {c : Char} {a : UInt8} {tail : List UInt8} (h : Shape c (a :: tail))
    (rest : List UInt8) : Utf8.next? a (tail ++ rest) = some (c, tail.length) := by
  have hlt := toNat_lt c
  cases h with
  | one hc ha =>
    unfold Utf8.next?
    rw [if_pos (by omega), ha, Char.ofNat_toNat]
    rfl
  | two hc hc' ha hb =>
    have hb := continuation?_eq_some_iff.2 ⟨hb, by omega⟩
    have hs : scalar? 0x80 (a.toNat % 0x20 * 0x40 + c.toNat % 0x40) = some c :=
      scalar?_eq_some_iff.2 (by omega)
    unfold Utf8.next?
    rw [if_neg (by omega), if_pos (by omega)]
    simp [hb, hs]
  | three hc hc' ha hb hd =>
    have hb := continuation?_eq_some_iff.2 ⟨hb, by omega⟩
    have hd := continuation?_eq_some_iff.2 ⟨hd, by omega⟩
    have hs : scalar? 0x800 ((a.toNat % 0x10 * 0x40 + c.toNat / 0x40 % 0x40) * 0x40 +
        c.toNat % 0x40) = some c := scalar?_eq_some_iff.2 (by omega)
    unfold Utf8.next?
    rw [if_neg (by omega), if_neg (by omega), if_pos (by omega)]
    simp [hb, hd, hs]
  | four hc ha hb hd he =>
    have hb := continuation?_eq_some_iff.2 ⟨hb, by omega⟩
    have hd := continuation?_eq_some_iff.2 ⟨hd, by omega⟩
    have he := continuation?_eq_some_iff.2 ⟨he, by omega⟩
    have hs : scalar? 0x10000 (((a.toNat % 0x08 * 0x40 + c.toNat / 0x1000 % 0x40) * 0x40 +
        c.toNat / 0x40 % 0x40) * 0x40 + c.toNat % 0x40) = some c :=
      scalar?_eq_some_iff.2 (by omega)
    unfold Utf8.next?
    rw [if_neg (by omega), if_neg (by omega), if_neg (by omega), if_pos (by omega)]
    simp [hb, hd, he, hs]

/-- **And from no others.** -/
theorem shape_of_next? {c : Char} {a : UInt8} {rest : List UInt8} {more : Nat}
    (h : next? a rest = some (c, more)) : Shape c (a :: rest.take more) := by
  have ha := a.toNat_lt
  -- the range of the first byte says how many there are, and each other one adds six bits
  unfold next? at h
  split at h
  · obtain ⟨rfl, rfl⟩ := Prod.mk.inj (Option.some.inj h)
    have hc : (Char.ofNat a.toNat).toNat = a.toNat := toNat_ofNat (.inl (by omega))
    exact .one (by omega) hc.symm
  split at h
  · split at h
    · next b _ =>
      simp only [Option.bind_eq_bind, Option.bind_eq_some_iff, Option.pure_def, Option.some.injEq,
        Prod.mk.injEq, continuation?_eq_some_iff, scalar?_eq_some_iff] at h
      obtain ⟨k, ⟨hb, hk⟩, c, hc, rfl, rfl⟩ := h
      exact .two (by omega) (by omega) (by omega) (by omega)
    · cases h
  split at h
  · split at h
    · next b d _ =>
      simp only [Option.bind_eq_bind, Option.bind_eq_some_iff, Option.pure_def, Option.some.injEq,
        Prod.mk.injEq, continuation?_eq_some_iff, scalar?_eq_some_iff] at h
      obtain ⟨k, ⟨hb, hk⟩, l, ⟨hd, hl⟩, c, hc, rfl, rfl⟩ := h
      exact .three (by omega) (by omega) (by omega) (by omega) (by omega)
    · cases h
  split at h
  · split at h
    · next b d e _ =>
      simp only [Option.bind_eq_bind, Option.bind_eq_some_iff, Option.pure_def, Option.some.injEq,
        Prod.mk.injEq, continuation?_eq_some_iff, scalar?_eq_some_iff] at h
      obtain ⟨k, ⟨hb, hk⟩, l, ⟨hd, hl⟩, m, ⟨he, hm⟩, c, hc, rfl, rfl⟩ := h
      exact .four (by omega) (by omega) (by omega) (by omega) (by omega)
    · cases h
  · cases h

/-! ## Texts -/

/-- **A text is read back from its bytes.** -/
theorem front_encode (text : List Char) : front (encode text) = (text, []) := by
  induction text with
  | nil => rw [encode_nil, front]
  | cons c text ih =>
    obtain ⟨a, tail, hbytes⟩ := List.exists_cons_of_ne_nil (String.utf8EncodeChar_ne_nil (c := c))
    have hnext := (hbytes ▸ shape_encode c).next? (encode text)
    rw [encode_cons, hbytes, List.cons_append, front, hnext]
    simp [ih]

/-- **What is read off some bytes is what they begin with.** -/
theorem encode_front (bytes : List UInt8) : encode (front bytes).1 ++ (front bytes).2 = bytes := by
  induction bytes using front.induct with
  | case1 => rw [front]; rfl
  | case2 a rest h => rw [front, h]; rfl
  | case3 a rest c more h ih =>
    -- the bytes that were taken have the shape of the character, and only its own do
    have hchar : String.utf8EncodeChar c = a :: rest.take more :=
      (shape_encode c).unique (shape_of_next? h)
    rw [front, h]
    show encode (c :: _) ++ _ = _
    rw [encode_cons, hchar, List.append_assoc, ih, List.cons_append, List.take_append_drop]

/-- **Bytes are a text if they are those of it.** -/
theorem decode?_eq_some_iff {bytes : List UInt8} {text : List Char} :
    decode? bytes = some text ↔ bytes = encode text := by
  rw [decode?]
  constructor
  · intro h
    have hfront := encode_front bytes
    split at h
    · next hnil =>
      rw [Option.some.inj h, List.isEmpty_iff.1 hnil, List.append_nil] at hfront
      exact hfront.symm
    · cases h
  · rintro rfl
    rw [front_encode]
    rfl

theorem decode?_encode (text : List Char) : decode? (encode text) = some text :=
  decode?_eq_some_iff.2 rfl

/-- What begins no character is no text. -/
theorem ne_encode_of_next? {a : UInt8} {rest : List UInt8} (h : next? a rest = none)
    (text : List Char) : a :: rest ≠ encode text := by
  intro htext
  have hread := decode?_eq_some_iff.2 htext
  rw [decode?, front, h] at hread
  cases hread

/-- Two texts do not have the same bytes. -/
theorem encode_inj {s t : List Char} (h : encode s = encode t) : s = t := by
  have := decode?_encode s
  rw [h, decode?_encode] at this
  exact (Option.some.inj this).symm

/-! ## Newlines -/

/-- A byte of a character that needs more than one is none of ASCII. -/
theorem Shape.newline_mem {c : Char} {bytes : List UInt8} (h : Shape c bytes) :
    10 ∈ bytes ↔ c = '\n' := by
  have hten : (10 : UInt8).toNat = 10 := rfl
  have hnewline : c = '\n' ↔ c.toNat = 10 := by
    rw [← Char.toNat_inj]
    rfl
  rw [hnewline]
  cases h <;> simp only [List.mem_cons, List.not_mem_nil, or_false, ← UInt8.toNat_inj, hten] <;>
    omega

/-- **The newlines of a text are those of its bytes.** -/
theorem newline_mem_encode {text : List Char} : 10 ∈ encode text ↔ '\n' ∈ text := by
  induction text with
  | nil => simp
  | cons c text ih =>
    rw [encode_cons, List.mem_append, (shape_encode c).newline_mem, ih, List.mem_cons, eq_comm]

theorem encode_newline : encode ['\n'] = [10] := rfl

end Utf8

end Abacus
