import Abacus.Json.Shape
import Abacus.Proofs.Encoding
import Mathlib.Data.List.Basic
import Mathlib.Tactic.Basic

/-!
# Steps of readers — what is taken off the front

A reader is known by what it does to the bytes in front of it: it takes a
value off them (`Reads`) or refuses them (`Refuses`), and `Gives` is the
one or the other as an outcome says. Each of the three is closed under
steps in a row, so a reader is followed through its own text. Most readers
look past blanks first (`BehindBlanks`), and what such a reader does it
also does with blanks in front (`BehindBlanks.reads`).

Places are left out on purpose. They are the bytes taken before, and no
outcome depends on them.
-/

namespace Abacus

namespace Json

variable {α β : Type}

/-! ## Outcomes -/

/-- **A reader takes a value off the front** of some bytes, however many were
taken before. -/
def Reads (r : Reader α) (before : List UInt8) (a : α) (after : List UInt8) : Prop :=
  ∀ s : State, s.rest = before → ∃ t : State, r s = .ok a t ∧ t.rest = after

/-- **A reader refuses** what some bytes begin with, and says why. -/
def Refuses (r : Reader α) (before : List UInt8) (fault : Fault) : Prop :=
  ∀ s : State, s.rest = before → ∃ f t, r s = .error f t ∧ f.fault = fault

section

variable {r : Reader α} {f : α → Reader β} {before between after : List UInt8} {a : α} {b : β}
  {fault : Fault}

theorem Reads.pure (a : α) (before : List UInt8) : Reads (Pure.pure a) before a before :=
  fun s hs => ⟨s, rfl, hs⟩

/-- Readers in a row take one value behind the other. -/
theorem Reads.bind (h : Reads r before a between) (hf : Reads (f a) between b after) :
    Reads (r >>= f) before b after := by
  intro s hs
  obtain ⟨t, ht, hbetween⟩ := h s hs
  obtain ⟨u, hu, hafter⟩ := hf t hbetween
  exact ⟨u, by simp [Bind.bind, EStateM.bind, ht, hu], hafter⟩

/-- What is done with a value takes nothing. -/
theorem Reads.map (g : α → β) (h : Reads r before a after) :
    Reads (g <$> r) before (g a) after := by
  intro s hs
  obtain ⟨t, ht, hafter⟩ := h s hs
  exact ⟨t, by simp [Functor.map, EStateM.map, ht], hafter⟩

/-- A reader refuses what is behind the value of the one before. -/
theorem Reads.refuses_bind (h : Reads r before a between) (hf : Refuses (f a) between fault) :
    Refuses (r >>= f) before fault := by
  intro s hs
  obtain ⟨t, ht, hbetween⟩ := h s hs
  obtain ⟨g, u, hu, hfault⟩ := hf t hbetween
  exact ⟨g, u, by simp [Bind.bind, EStateM.bind, ht, hu], hfault⟩

/-- What is refused is not gone on with. -/
theorem Refuses.bind (h : Refuses r before fault) (f : α → Reader β) :
    Refuses (r >>= f) before fault := by
  intro s hs
  obtain ⟨g, t, ht, hfault⟩ := h s hs
  exact ⟨g, t, by simp [Bind.bind, EStateM.bind, ht], hfault⟩

theorem Refuses.map (g : α → β) (h : Refuses r before fault) :
    Refuses (g <$> r) before fault := by
  intro s hs
  obtain ⟨e, t, ht, hfault⟩ := h s hs
  exact ⟨e, t, by simp [Functor.map, EStateM.map, ht], hfault⟩

/-- A place is only set where there is a fault. -/
theorem Reads.placed (h : Reads r before a after) : Reads r.placed before a after := by
  intro s hs
  obtain ⟨t, ht, hafter⟩ := h s hs
  exact ⟨t, by simp [Reader.placed, ht], hafter⟩

/-- And setting it keeps the fault. -/
theorem Refuses.placed (h : Refuses r before fault) : Refuses r.placed before fault := by
  intro s hs
  obtain ⟨g, t, ht, hfault⟩ := h s hs
  exact ⟨{ g with place := g.place.or (some t.place) }, t,
    by simp only [Reader.placed, ht], hfault⟩

/-- A fault without a place is a refusal as well. -/
theorem Refuses.failUnplaced (fault : Fault) (before : List UInt8) :
    Refuses (Reader.failUnplaced fault : Reader α) before fault :=
  fun s _ => ⟨_, s, rfl, rfl⟩

/-- A bounded reader has one round more than there are bytes. -/
theorem Reads.bounded {r : Nat → Reader α} (h : Reads (r (before.length + 1)) before a after) :
    Reads (Reader.bounded r) before a after := by
  rintro s rfl
  exact h s rfl

theorem Refuses.bounded {r : Nat → Reader α} (h : Refuses (r (before.length + 1)) before fault) :
    Refuses (Reader.bounded r) before fault := by
  rintro s rfl
  exact h s rfl

/-- **A loop takes a value off the front** in any number of rounds above that
of the bytes. -/
def ReadsInRounds (r : Nat → Reader α) (before : List UInt8) (a : α) (after : List UInt8) : Prop :=
  ∀ rounds, before.length < rounds → Reads (r rounds) before a after

/-- So a reader that needs no more rounds than bytes is bounded without loss. -/
theorem ReadsInRounds.bounded {r : Nat → Reader α} (h : ReadsInRounds r before a after) :
    Reads (Reader.bounded r) before a after :=
  Reads.bounded (h _ (Nat.lt_succ_self _))

/-- A round that takes bytes leaves rounds enough for the others. -/
theorem ReadsInRounds.of_succ {r : Nat → Reader α}
    (h : ∀ rounds, before.length ≤ rounds → Reads (r (rounds + 1)) before a after) :
    ReadsInRounds r before a after := by
  intro rounds hrounds
  obtain ⟨rounds, rfl⟩ : ∃ n, rounds = n + 1 := ⟨rounds - 1, by omega⟩
  exact h rounds (Nat.le_of_lt_succ hrounds)

/-! ## Steps -/

/-- A look takes nothing. -/
theorem reads_peek (before : List UInt8) : Reads Reader.peek before before.head? before := by
  rintro s rfl
  exact ⟨s.look, rfl, rfl⟩

/-- The next byte is taken. -/
theorem reads_next (b : UInt8) (bs : List UInt8) : Reads Reader.next (b :: bs) (some b) bs := by
  intro s hs
  exact ⟨s.drop 1, by rw [Reader.next, hs], by simp [hs]⟩

theorem reads_skip (b : UInt8) (bs : List UInt8) : Reads Reader.skip (b :: bs) () bs := by
  intro s hs
  exact ⟨s.drop 1, rfl, by simp [hs]⟩

/-- As many bytes are taken as are asked for. -/
theorem reads_take (front back : List UInt8) :
    Reads (Reader.take front.length) (front ++ back) () back := by
  intro s hs
  exact ⟨s.drop front.length, rfl, by simp [hs]⟩

variable {p : UInt8 → Bool}

/-- A run of bytes ends where a byte is not of its class. -/
theorem takeWhile_append_of_stop {run rest : List UInt8} (hrun : ∀ b ∈ run, p b)
    (hstop : ∀ b ∈ rest.head?, p b = false) : (run ++ rest).takeWhile p = run := by
  rw [List.takeWhile_append_of_pos hrun]
  cases rest with
  | nil => simp
  | cons c cs => simp [hstop c rfl]

/-- The bytes of a class that come are looked at. -/
theorem reads_upcoming {run rest : List UInt8} (hrun : ∀ b ∈ run, p b)
    (hstop : ∀ b ∈ rest.head?, p b = false) :
    Reads (Reader.upcoming p) (run ++ rest) run (run ++ rest) := by
  intro s hs
  exact ⟨s, by rw [Reader.upcoming, hs, takeWhile_append_of_stop hrun hstop], hs⟩

/-- And they are taken, up to the first that is not of it. -/
theorem reads_takeWhile {run rest : List UInt8} (hrun : ∀ b ∈ run, p b)
    (hstop : ∀ b ∈ rest.head?, p b = false) :
    Reads (Reader.takeWhile p) (run ++ rest) run rest := by
  intro s hs
  refine ⟨(s.drop run.length).look, ?_, by simp [hs]⟩
  rw [Reader.takeWhile, hs, takeWhile_append_of_stop hrun hstop]

end

/-! ## A value or a fault -/

/-- What comes of reading some bytes: a value and the bytes behind it, or a
fault. -/
def Gives (r : Reader α) (before : List UInt8) (o : Except Fault α) (after : List UInt8) : Prop :=
  match o with
  | .ok a => Reads r before a after
  | .error fault => Refuses r before fault

section

variable {r : Reader α} {f : α → Reader β} {before between after : List UInt8} {o : Except Fault α}

/-- **Steps in a row give what their answers in a row are.** -/
theorem Gives.bind {g : α → Except Fault β} (h : Gives r before o between)
    (hf : ∀ a, o = .ok a → Gives (f a) between (g a) after) :
    Gives (r >>= f) before (o >>= g) after := by
  cases o with
  | error fault => exact Refuses.bind h f
  | ok a =>
    have hnext := hf a rfl
    change Gives (r >>= f) before (g a) after
    cases hg : g a with
    | ok b => exact Reads.bind h (by rwa [hg] at hnext)
    | error fault => exact Reads.refuses_bind h (by rwa [hg] at hnext)

/-- What is taken behind a value changes nothing about it. -/
theorem Gives.bind_reads {f : α → Reader α} (h : Gives r before o between)
    (hf : ∀ a, Reads (f a) between a after) : Gives (r >>= f) before o after := by
  cases o with
  | ok a => exact Reads.bind h (hf a)
  | error fault => exact Refuses.bind h f

/-- What a reader gives behind a value is what both give. -/
theorem Reads.gives_bind {a : α} {o : Except Fault β} (h : Reads r before a between)
    (hf : Gives (f a) between o after) : Gives (r >>= f) before o after := by
  cases o with
  | ok b => exact h.bind hf
  | error fault => exact h.refuses_bind hf

theorem Gives.map (g : α → β) (h : Gives r before o after) :
    Gives (g <$> r) before (g <$> o) after := by
  cases o with
  | ok a => exact Reads.map g h
  | error fault => exact Refuses.map g h

/-- Setting a place changes no outcome. -/
theorem Gives.placed (h : Gives r before o after) : Gives r.placed before o after := by
  cases o with
  | ok a => exact Reads.placed h
  | error fault => exact Refuses.placed h

/-- Nor does it matter that rounds are counted. -/
theorem Gives.bounded {r : Nat → Reader α} (h : Gives (r (before.length + 1)) before o after) :
    Gives (Reader.bounded r) before o after := by
  cases o with
  | ok a => exact Reads.bounded h
  | error fault => exact Refuses.bounded h

/-- A failure inside brackets is that of the whole. The closing is still
tried, but its own failure is not told. -/
theorem Refuses.closedBy {inside : Reader α} {fault : Fault} (h : Refuses inside before fault)
    (close : Reader Unit) : Refuses (closedBy close inside) before fault := by
  intro s hs
  obtain ⟨e, t, ht, hfault⟩ := h s hs
  cases hu : close t with
  | ok _ u => exact ⟨e, u, by simp only [Json.closedBy, ht, hu], hfault⟩
  | error _ u => exact ⟨e, u, by simp only [Json.closedBy, ht, hu], hfault⟩

/-- What stands inside brackets decides what comes of the whole. -/
theorem Gives.closedBy {close : Reader Unit} {inside : Reader α}
    (h : Gives inside before o between) (hclose : ∀ a, o = .ok a → Reads close between () after) :
    Gives (closedBy close inside) before o after := by
  cases o with
  | ok a =>
    intro s hs
    obtain ⟨t, ht, hbetween⟩ := h s hs
    obtain ⟨u, hu, hafter⟩ := hclose a rfl t hbetween
    exact ⟨u, by simp only [Json.closedBy, ht, hu], hafter⟩
  | error fault => exact Refuses.closedBy h close

end

/-! ## Bytes of ASCII -/

/-- Characters of ASCII as bytes. -/
def ascii (text : List Char) : List UInt8 := text.map byte

@[simp] theorem ascii_nil : ascii [] = [] := rfl

@[simp] theorem ascii_cons (c : Char) (cs : List Char) : ascii (c :: cs) = byte c :: ascii cs := rfl

/-- Bytes of ASCII are told character by character. -/
@[simp] theorem ascii_append (s t : List Char) : ascii (s ++ t) = ascii s ++ ascii t :=
  List.map_append

/-- ASCII is UTF-8. -/
theorem encode_eq_ascii {text : List Char} (h : ∀ c ∈ text, c.toNat < 0x80) :
    Utf8.encode text = ascii text := by
  induction text with
  | nil => rfl
  | cons c cs ih =>
    have hbytes : String.utf8EncodeChar c = [byte c] :=
      if_pos (Nat.le_of_lt_succ (h c List.mem_cons_self))
    rw [Utf8.encode_cons, hbytes, ascii_cons, ih fun d hd => h d (List.mem_cons_of_mem _ hd),
      List.singleton_append]

/-- A character of ASCII is its byte. -/
theorem toNat_byte {c : Char} (h : c.toNat < 0x80) : (byte c).toNat = c.toNat := by
  rw [byte, UInt8.toNat_ofNat']
  omega

/-- So two of them with one byte are one. -/
theorem byte_inj {c d : Char} (hc : c.toNat < 0x80) (hd : d.toNat < 0x80) (h : byte c = byte d) :
    c = d := by
  rw [← UInt8.toNat_inj, toNat_byte hc, toNat_byte hd] at h
  exact Char.toNat_inj.1 h


/-- One byte for a character of ASCII. -/
theorem encode_cons {c : Char} (h : c.toNat < 0x80) (s : List Char) :
    Utf8.encode (c :: s) = byte c :: Utf8.encode s := by
  have hc : Utf8.encode [c] = [byte c] := encode_eq_ascii (List.forall_mem_singleton.2 h)
  rw [← List.singleton_append, Utf8.encode_append, hc, List.singleton_append]

/-- The letters of a word are taken one by one. -/
theorem reads_word (cs : List Char) (rest : List UInt8) :
    Reads (word cs) (ascii cs ++ rest) () rest := by
  induction cs with
  | nil => exact .pure _ _
  | cons c cs ih =>
    unfold word
    refine (reads_next _ _).bind ?_
    dsimp only
    rw [if_pos rfl]
    exact ih

/-! ## Blanks -/

/-- Characters that only stand between the parts of a document. -/
def Blank (w : List Char) : Prop := ∀ c ∈ w, c ∈ [' ', '\n', '\t', '\r']

theorem blank_nil : Blank [] := by simp [Blank]

/-- The four blanks are of ASCII, and blank as bytes. -/
theorem blank_cases {c : Char} (h : c ∈ [' ', '\n', '\t', '\r']) :
    c.toNat < 0x80 ∧ isBlank (byte c) := by
  simp only [List.mem_cons, List.not_mem_nil, or_false] at h
  rcases h with rfl | rfl | rfl | rfl <;> decide

/-- **Blanks are blank in bytes**, which is all that a reader sees of them. -/
theorem Blank.encode {w : List Char} (h : Blank w) : ∀ b ∈ Utf8.encode w, isBlank b := by
  rw [encode_eq_ascii fun c hc => (blank_cases (h c hc)).1]
  intro b hb
  obtain ⟨c, hc, rfl⟩ := List.mem_map.1 hb
  exact (blank_cases (h c hc)).2

/-- No blanks are skipped where none stand. -/
theorem reads_afterBlanks {before : List UInt8} (h : ∀ b ∈ before.head?, isBlank b = false) :
    Reads afterBlanks before before.head? before := by
  have hblanks : Reads (Reader.takeWhile isBlank) ([] ++ before) [] before :=
    reads_takeWhile (by simp) h
  exact hblanks.bind (reads_peek before)

/-- A byte that is no blank is the next one. -/
theorem reads_afterBlanks_cons {b : UInt8} (h : isBlank b = false) (bs : List UInt8) :
    Reads afterBlanks (b :: bs) (some b) (b :: bs) :=
  reads_afterBlanks fun c hc => by
    obtain rfl := Option.some.inj hc
    exact h

/-- **Blanks that were taken are taken no second time.** -/
theorem afterBlanks_drop {s : State} {bs before : List UInt8} (hs : s.rest = bs ++ before)
    (hblank : ∀ b ∈ bs, isBlank b) : afterBlanks (s.drop bs.length) = afterBlanks s := by
  have htaken : (bs ++ before).takeWhile isBlank = bs ++ before.takeWhile isBlank :=
    List.takeWhile_append_of_pos hblank
  have hrest : (s.drop bs.length).rest = before := by simp [hs]
  have hsame : (s.drop bs.length).drop (before.takeWhile isBlank).length =
      s.drop (bs ++ before.takeWhile isBlank).length := by
    simp only [State.drop, List.drop_drop, List.length_append, Nat.add_assoc]
  simp only [afterBlanks, Bind.bind, EStateM.bind, Reader.takeWhile, Reader.peek, hrest, hs, htaken,
    hsame]

/-- **A reader that looks past blanks first** depends on nothing else about
where it is. -/
def BehindBlanks (r : Reader α) : Prop :=
  ∀ s t : State, afterBlanks s = afterBlanks t → r s = r t

section

variable {r : Reader α} {w : List Char} {before after : List UInt8} {a : α} {fault : Fault}

/-- A reader that looks behind blanks first does not see how many there are. -/
theorem behindBlanks_afterBlanks_bind (f : Option UInt8 → Reader α) :
    BehindBlanks (afterBlanks >>= f) := by
  intro s t h
  simp only [Bind.bind, EStateM.bind, h]

/-- Nor does one that goes on from there. -/
theorem BehindBlanks.bind (h : BehindBlanks r) (f : α → Reader β) : BehindBlanks (r >>= f) := by
  intro s t hst
  simp only [Bind.bind, EStateM.bind, h s t hst]

/-- **What is read behind blanks** is read with the blanks in front, -/
theorem BehindBlanks.reads (hr : BehindBlanks r) (hw : Blank w) (h : Reads r before a after) :
    Reads r (Utf8.encode w ++ before) a after := by
  intro s hs
  rw [← hr _ _ (afterBlanks_drop hs hw.encode)]
  exact h _ (by simp [hs])

/-- and so is what is refused. -/
theorem BehindBlanks.refuses (hr : BehindBlanks r) (hw : Blank w) (h : Refuses r before fault) :
    Refuses r (Utf8.encode w ++ before) fault := by
  intro s hs
  rw [← hr _ _ (afterBlanks_drop hs hw.encode)]
  exact h _ (by simp [hs])

/-- **So blanks in front change nothing** of what a reader gives. -/
theorem BehindBlanks.gives (hr : BehindBlanks r) (hw : Blank w) {o : Except Fault α}
    (h : Gives r before o after) : Gives r (Utf8.encode w ++ before) o after := by
  cases o with
  | ok a => exact BehindBlanks.reads hr hw h
  | error fault => exact BehindBlanks.refuses hr hw h

end

end Json

end Abacus
