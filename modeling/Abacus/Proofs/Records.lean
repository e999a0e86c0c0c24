import Abacus.Proofs.Legibility
import Abacus.Trace

/-!
# Records — the words of events

A record shows a text between quotation marks, character by character
(`Quoted.Shown`), and names a token by its kind with its number or its name
(`Token.Named`). The words of an event are put together from these and a
place (`ScanEvent.Words`). Where each part ends can be seen: a shown text
ends with the first mark that no backslash is in front of, and a name at
the blank behind it. So the words tell what happened and where
(`ScanEvent.Words.unique`).
-/

namespace Abacus

/-! ## Digits of a small base -/

/-- A digit is known by its character, up to base sixteen. -/
theorem digitChar_inj {d e : Nat} (hd : d < 16) (he : e < 16)
    (h : Nat.digitChar d = Nat.digitChar e) : d = e := by
  have hall : ∀ d < 16, ∀ e < 16, Nat.digitChar d = Nat.digitChar e → d = e := by decide
  exact hall d hd e he h

/-- A number is written in the digits of its base. -/
theorem mem_toDigits {b n : Nat} (hb : 1 < b) {c : Char} (h : c ∈ Nat.toDigits b n) :
    ∃ d < b, c = Nat.digitChar d := by
  induction n using Nat.strong_induction_on with
  | _ n ih =>
    rcases Nat.lt_or_ge n b with hlt | hge
    · rw [Nat.toDigits_of_lt_base hlt, List.mem_singleton] at h
      exact ⟨n, hlt, h⟩
    · rw [Nat.toDigits_of_base_le hb hge, List.mem_append, List.mem_singleton] at h
      rcases h with h | h
      · exact ih (n / b) (Nat.div_lt_self (by omega) hb) h
      · exact ⟨n % b, Nat.mod_lt n (by omega), h⟩

/-- **Digits tell the number** in every base up to sixteen. -/
theorem toDigits_inj {b m n : Nat} (hb : 1 < b) (hbase : b ≤ 16)
    (h : Nat.toDigits b m = Nat.toDigits b n) : m = n := by
  induction m using Nat.strong_induction_on generalizing n with
  | _ m ih =>
    have hlast : ∀ k, 0 < k % b + 1 ∧ k % b < 16 := fun k =>
      ⟨Nat.succ_pos _, (Nat.mod_lt k (by omega)).trans_le hbase⟩
    have hlength : ∀ {k}, b ≤ k → (Nat.toDigits b k).length ≠ 1 := by
      intro k hk
      have hpos := Nat.length_toDigits_pos (b := b) (n := k / b)
      rw [Nat.toDigits_of_base_le hb hk, List.length_append, List.length_singleton]
      omega
    rcases Nat.lt_or_ge m b with hm | hm <;> rcases Nat.lt_or_ge n b with hn | hn
    · rw [Nat.toDigits_of_lt_base hm, Nat.toDigits_of_lt_base hn, List.singleton_inj] at h
      exact digitChar_inj (hm.trans_le hbase) (hn.trans_le hbase) h
    · exact absurd (by rw [← h, Nat.toDigits_of_lt_base hm]; rfl) (hlength hn)
    · exact absurd (by rw [h, Nat.toDigits_of_lt_base hn]; rfl) (hlength hm)
    · rw [Nat.toDigits_of_base_le hb hm, Nat.toDigits_of_base_le hb hn] at h
      obtain ⟨hfront, hback⟩ := List.append_inj' h rfl
      have hdiv := ih (m / b) (Nat.div_lt_self (by omega) hb) hfront
      have hmod := digitChar_inj (hlast m).2 (hlast n).2 (List.singleton_inj.1 hback)
      rw [← Nat.div_add_mod m b, ← Nat.div_add_mod n b, hdiv, hmod]

/-! ## Quoted texts -/

namespace Quoted

/-- What the letters behind a backslash stand for. -/
def letters : List (Char × Char) :=
  [('0', '\x00'), ('t', '\t'), ('r', '\r'), ('n', '\n'), ('"', '"'), ('\\', '\\')]

/-- **How a character is shown** between quotation marks: as itself, by a
letter, or by its number in base sixteen. -/
inductive Shows : Char → List Char → Prop
  | itself {c : Char} : isPrintable c → c ≠ '"' → c ≠ '\\' → Shows c [c]
  | letter {c l : Char} : (l, c) ∈ letters → Shows c ['\\', l]
  | number {c : Char} : isPrintable c = false →
      Shows c (['\\', 'u', '\x7b'] ++ (Nat.toDigits 16 c.toNat ++ ['\x7d']))

/-- **How a text is shown**, character by character. -/
inductive Shown : List Char → List Char → Prop
  | nil : Shown [] []
  | cons {c : Char} {s v w : List Char} : Shows c v → Shown s w → Shown (c :: s) (v ++ w)

/-- What is written for a character shows it. -/
theorem shows_escape (c : Char) : Shows c (escape c) := by
  have hletter : ∀ {d l : Char}, c = d → (l, d) ∈ letters → Shows c ['\\', l] :=
    fun hc h => hc ▸ .letter h
  unfold escape
  split
  · next h => exact hletter h (by decide)
  split
  · next h => exact hletter h (by decide)
  split
  · next h => exact hletter h (by decide)
  split
  · next h => exact hletter h (by decide)
  split
  · next h => exact hletter h (by decide)
  split
  · next h => exact hletter h (by decide)
  split
  · next hquote hslash h => exact .itself h hquote hslash
  · next h =>
    rw [byNumber, List.append_assoc]
    exact .number (by simpa using h)

/-- So what is written for a text shows the text. -/
theorem shown_escape (text : List Char) : Shown text (text.flatMap escape) := by
  induction text with
  | nil => exact .nil
  | cons c cs ih => exact .cons (shows_escape c) ih

/-- Letters stand for one character each, and none of them is that of a
number. -/
theorem letter_inj {l c d : Char} (hc : (l, c) ∈ letters) (hd : (l, d) ∈ letters) :
    c = d ∧ l ≠ 'u' := by
  have hall : ∀ p ∈ letters, p.1 ≠ 'u' ∧ ∀ q ∈ letters, p.1 = q.1 → p.2 = q.2 := by decide
  exact ⟨(hall _ hc).2 _ hd rfl, (hall _ hc).1⟩

/-- **What is shown of a character tells it**, and where it ends. -/
theorem Shows.unique {c d : Char} {v w r s : List Char} (hc : Shows c v) (hd : Shows d w)
    (h : v ++ r = w ++ s) : c = d ∧ r = s := by
  cases hc with
  | itself _ _ hslash =>
    cases hd with
    | itself => exact List.cons.inj h
    | letter => exact absurd (List.cons.inj h).1 hslash
    | number => exact absurd (List.cons.inj h).1 hslash
  | letter hletter =>
    cases hd with
    | itself _ _ hslash => exact absurd (List.cons.inj h).1.symm hslash
    | letter hletter' =>
      obtain ⟨rfl, hrest⟩ := List.cons.inj (List.cons.inj h).2
      exact ⟨(letter_inj hletter hletter').1, hrest⟩
    | number => exact absurd (List.cons.inj (List.cons.inj h).2).1 (letter_inj hletter hletter).2
  | number =>
    cases hd with
    | itself _ _ hslash => exact absurd (List.cons.inj h).1.symm hslash
    | letter hletter =>
      exact absurd (List.cons.inj (List.cons.inj h).2).1.symm (letter_inj hletter hletter).2
    | number =>
      -- no digit is a brace, so the digits end alike
      have hdigit : ∀ n, ∀ e ∈ Nat.toDigits 16 n, (e != '\x7d') = true := by
        intro n e he
        obtain ⟨k, hk, rfl⟩ := mem_toDigits (by decide) he
        have hall : ∀ k < 16, (Nat.digitChar k != '\x7d') = true := by decide
        exact hall k hk
      simp only [List.append_assoc, List.append_cancel_left_eq] at h
      obtain ⟨hdigits, hrest⟩ := Stops.append_inj (hdigit _) (hdigit _) (Stops.cons.2 rfl)
        (Stops.cons.2 rfl) h
      exact ⟨Char.toNat_inj.1 (toDigits_inj (by decide) (by decide) hdigits),
        (List.cons.inj hrest).2⟩

/-- Nothing that is shown begins with a mark. -/
theorem Shows.head?_ne {c : Char} {v : List Char} (h : Shows c v) (r : List Char) :
    ∃ d ds, v ++ r = d :: ds ∧ d ≠ '"' := by
  cases h with
  | itself _ hquote => exact ⟨c, r, rfl, hquote⟩
  | letter => exact ⟨'\\', _, rfl, by decide⟩
  | number => exact ⟨'\\', _, rfl, by decide⟩

/-- **What is shown of a text tells it**, up to the closing mark. -/
theorem Shown.unique {a b v w r s : List Char} (ha : Shown a v) (hb : Shown b w)
    (h : v ++ '"' :: r = w ++ '"' :: s) : a = b ∧ r = s := by
  induction ha generalizing b w with
  | nil =>
    cases hb with
    | nil => exact ⟨rfl, (List.cons.inj h).2⟩
    | @cons d b v' w hd hb =>
      obtain ⟨e, es, heq, he⟩ := hd.head?_ne (w ++ '"' :: s)
      rw [List.append_assoc, heq] at h
      exact absurd (List.cons.inj h).1.symm he
  | @cons c a v w hc ha ih =>
    cases hb with
    | nil =>
      obtain ⟨e, es, heq, he⟩ := hc.head?_ne (w ++ '"' :: r)
      rw [List.append_assoc, heq] at h
      exact absurd (List.cons.inj h).1 he
    | cons hd hb =>
      rw [List.append_assoc, List.append_assoc] at h
      obtain ⟨rfl, hrest⟩ := hc.unique hd h
      obtain ⟨rfl, hend⟩ := ih hb hrest
      exact ⟨rfl, hend⟩

end Quoted

/-! ## Numbers -/

namespace Binary64

/-- **How a double is shown in records**: its sign, and a decimal that goes
back to it, with a point or a power of ten in it. What is not finite has a
word. -/
inductive Shown : Binary64 → List Char → Prop
  | finite {v : Binary64} {w : Written} : v.isFinite → w.denotes.magnitude = v.magnitude →
      (w.places.isSome ∨ w.power.isSome) →
      Shown v ((if v.negative then ['-'] else []) ++ w.text false)
  | infinite {v : Binary64} : v.isInfinite →
      Shown v ((if v.negative then ['-'] else []) ++ ['i', 'n', 'f'])
  | notNumber {v : Binary64} : v.isNaN → Shown v ['N', 'a', 'N']

/-- **What is written for a double shows it.** -/
theorem shown_write (v : Binary64) : Shown v (Token.recordLayout.write v) := by
  unfold Layout.write
  by_cases hnan : v.isNaN
  · rw [if_pos hnan]
    exact .notNumber hnan
  by_cases hinf : v.isInfinite
  · rw [if_neg hnan, if_pos hinf]
    exact .infinite hinf
  · have hfinite : v.isFinite := by simp [isFinite_iff, hinf, hnan]
    have hm : v.magnitude < infiniteMagnitude := of_decide_eq_true hfinite
    obtain ⟨w, htext, hvalue, -, hdouble⟩ :=
      Token.recordLayout.exists_writeDecimal (Decimal.exponent_shortest_le .up hm)
    have hback : w.denotes.magnitude = v.magnitude := by
      rw [Decimal.magnitude_congr hvalue, Decimal.magnitude_shortest .up hm]
    have hdecimal : Token.recordLayout.writeDecimal
        (Decimal.shortest Token.recordLayout.tie v.magnitude) = w.text false := htext
    rw [if_neg hnan, if_neg hinf, hdecimal]
    exact .finite hfinite hback (hdouble rfl)

/-- A sign is told from what begins with none. -/
theorem sign_inj {a b : Bool} {c d : Char} {v w : List Char} (hc : c ≠ '-') (hd : d ≠ '-')
    (h : (if a then ['-'] else []) ++ c :: v = (if b then ['-'] else []) ++ d :: w) :
    a = b ∧ c :: v = d :: w := by
  cases a <;> cases b
  · exact ⟨rfl, h⟩
  · exact absurd (List.cons.inj h).1 hc
  · exact absurd (List.cons.inj h).1.symm hd
  · exact ⟨rfl, (List.cons.inj h).2⟩

/-- **The first character behind the sign tells what is shown**: a decimal
begins with a digit, and the words with their letters. -/
theorem Shown.exists_body {v : Binary64} {s : List Char} (h : Shown v s) :
    ∃ b c cs, s = (if b then ['-'] else []) ++ c :: cs ∧ c ≠ '-' ∧
      (c.isDigit ∧ b = v.negative ∧ (Decimal.ofText (c :: cs)).magnitude = v.magnitude ∨
        c = 'i' ∧ b = v.negative ∧ v.isInfinite ∨ c = 'N' ∧ v.isNaN) := by
  cases h with
  | @finite w _ hback _ =>
    obtain ⟨c, cs, hwhole⟩ := List.exists_cons_of_ne_nil w.whole_ne_nil
    have hc : c.isDigit := w.isDigit_whole c (by simp [hwhole])
    have htext : w.text false = c :: (cs ++ w.fraction ++ w.exponent false) := by
      rw [Written.text, hwhole]
      rfl
    rw [← Written.ofText_text w false, htext] at hback
    rw [htext]
    exact ⟨_, c, _, rfl, ne_of_isDigit hc rfl, .inl ⟨hc, rfl, hback⟩⟩
  | infinite hinf => exact ⟨_, 'i', _, rfl, by decide, .inr (.inl ⟨rfl, rfl, hinf⟩)⟩
  | notNumber hnan => exact ⟨false, 'N', _, rfl, by decide, .inr (.inr ⟨rfl, hnan⟩)⟩

/-- **What is shown of a double tells it**, unless it is no number. -/
theorem Shown.unique {v w : Binary64} {s : List Char} (hv : Shown v s) (hw : Shown w s) :
    v = w ∨ v.isNaN ∧ w.isNaN := by
  obtain ⟨a, c, cs, rfl, hc, hv⟩ := hv.exists_body
  obtain ⟨b, d, ds, hsame, hd, hw⟩ := hw.exists_body
  obtain ⟨rfl, hbody⟩ := sign_inj hc hd hsame
  obtain ⟨rfl, rfl⟩ := List.cons.inj hbody
  rcases hv with ⟨hdigit, rfl, hback⟩ | ⟨rfl, rfl, hinf⟩ | ⟨rfl, hnan⟩
  · rcases hw with ⟨-, hsign, hback'⟩ | ⟨rfl, -⟩ | ⟨rfl, -⟩
    · exact .inl (eq_of_magnitude hsign (hback.symm.trans hback'))
    · cases hdigit
    · cases hdigit
  · rcases hw with ⟨hdigit, -⟩ | ⟨-, hsign, hinf'⟩ | ⟨h, -⟩
    · cases hdigit
    · exact .inl (eq_of_isInfinite hsign hinf hinf')
    · exact absurd h (by decide)
  · rcases hw with ⟨hdigit, -⟩ | ⟨h, -⟩ | ⟨-, hnan'⟩
    · cases hdigit
    · exact absurd h (by decide)
    · exact .inr ⟨hnan, hnan'⟩

/-- What is shown of a double has no blank in it. -/
theorem Shown.ne_blank {v : Binary64} {s : List Char} (h : Shown v s) :
    ∀ c ∈ s, (c != ' ') = true := by
  have hsign : ∀ c ∈ (if v.negative then ['-'] else []), (c != ' ') = true := by
    cases v.negative <;> exact List.all_eq_true.1 rfl
  cases h with
  | finite =>
    refine List.forall_mem_append.2 ⟨hsign, fun c hc => ?_⟩
    have hmarks : ∀ d ∈ ['.', 'e', '+', '-'], (d != ' ') = true := List.all_eq_true.1 rfl
    rcases Written.mem_text_cases hc with h | h
    · simpa using ne_of_isDigit h rfl
    · exact hmarks c h
  | infinite => exact List.forall_mem_append.2 ⟨hsign, List.all_eq_true.1 rfl⟩
  | notNumber => exact List.all_eq_true.1 rfl

end Binary64

/-! ## Tokens -/

namespace Token

/-- The names of symbols in records. -/
def symbolNames : List (Token × String) :=
  [ (.operator .add, "Operator(Add)"), (.operator .subtract, "Operator(Subtract)"),
    (.operator .multiply, "Operator(Multiply)"), (.operator .divide, "Operator(Divide)"),
    (.parenthesis .opening, "Parenthesis(Opening)"),
    (.parenthesis .closing, "Parenthesis(Closing)") ]

/-- **How a token is named in records**: by its kind, with its number or its
name. -/
inductive Named : Token → List Char → Prop
  | number {v : Binary64} {s : List Char} : v.Shown s →
      Named (.number v) ("Number(".toList ++ (s ++ [')']))
  | symbol {t : Token} {name : String} : (t, name) ∈ symbolNames → Named t name.toList

/-- **What is written for a token names it.** -/
theorem named_record (t : Token) : t.Named t.record := by
  cases t with
  | number v =>
    have hnamed := Named.number v.shown_write
    rwa [← List.append_assoc] at hnamed
  | operator o =>
    have hname : (operator o, "Operator(" ++ o.name ++ ")") ∈ symbolNames := by
      cases o <;> decide
    have hnamed := Named.symbol hname
    rwa [String.toList_append, String.toList_append] at hnamed
  | parenthesis p =>
    have hname : (parenthesis p, "Parenthesis(" ++ p.name ++ ")") ∈ symbolNames := by
      cases p <;> decide
    have hnamed := Named.symbol hname
    rwa [String.toList_append, String.toList_append] at hnamed

/-- No two symbols have one name, and none is named as a number is. -/
theorem symbolNames_inj {t : Token} {name : String} (ht : (t, name) ∈ symbolNames) :
    (∀ u, (u, name) ∈ symbolNames → t = u) ∧ ∀ s, name.toList ≠ 'N' :: s := by
  have hall : ∀ p ∈ symbolNames, (∀ q ∈ symbolNames, p.2 = q.2 → p.1 = q.1) ∧
      p.2.toList.head? ≠ some 'N' := by decide
  exact ⟨fun u hu => (hall _ ht).1 _ hu rfl, fun s hs => (hall _ ht).2 (by rw [hs]; rfl)⟩

/-- **A name tells the token**, unless it is no number. -/
theorem Named.unique {t u : Token} {s : List Char} (ht : t.Named s) (hu : u.Named s) :
    t = u ∨ ∃ v w, t = .number v ∧ u = .number w ∧ v.isNaN ∧ w.isNaN := by
  generalize hsame : s = s' at hu
  cases ht with
  | number hv =>
    cases hu with
    | number hw =>
      obtain rfl := List.append_cancel_right (List.append_cancel_left hsame)
      exact (hv.unique hw).imp (congrArg Token.number) fun hnan => ⟨_, _, rfl, rfl, hnan⟩
    | symbol hname => exact absurd hsame.symm ((symbolNames_inj hname).2 _)
  | symbol hname =>
    cases hu with
    | number => exact absurd hsame ((symbolNames_inj hname).2 _)
    | symbol hname' =>
      obtain rfl := String.toList_inj.1 hsame
      exact .inl ((symbolNames_inj hname).1 _ hname')

/-- No name has a blank in it. -/
theorem Named.ne_blank {t : Token} {s : List Char} (h : t.Named s) :
    ∀ c ∈ s, (c != ' ') = true := by
  cases h with
  | number hv =>
    have hback : ∀ c ∈ [')'], (c != ' ') = true := List.all_eq_true.1 rfl
    exact List.forall_mem_append.2
      ⟨List.all_eq_true.1 rfl, List.forall_mem_append.2 ⟨hv.ne_blank, hback⟩⟩
  | symbol hname =>
    have hall : symbolNames.all fun p => p.2.toList.all (· != ' ') := rfl
    exact List.all_eq_true.1 (List.all_eq_true.1 hall _ hname)

end Token

/-! ## Events -/

namespace ScanEvent

/-- **The words of an event**: of a token its name, of noise the text that
was skipped, and of both the first byte. -/
inductive Words : ScanEvent → List Char → Prop
  | token {t : Token} {name : List Char} {offset : Nat} : t.Named name →
      Words (.token t offset)
        ("token ".toList ++ (name ++ ' ' :: ("at ".toList ++ Nat.toDigits 10 offset)))
  | noise {text shown : List Char} {offset : Nat} : Quoted.Shown text shown →
      Words (.noise text offset) ("skipping unrecognized input ".toList ++
        '"' :: (shown ++ '"' :: ' ' :: ("at ".toList ++ Nat.toDigits 10 offset)))

/-- **What is written for an event is its words.** -/
theorem words_message (e : ScanEvent) : e.Words e.message := by
  have hplace : " at ".toList = ' ' :: "at ".toList := rfl
  cases e with
  | token t offset =>
    have hmessage : message (.token t offset) =
        "token ".toList ++ t.record ++ " at ".toList ++ Nat.toDigits 10 offset := rfl
    rw [hmessage, hplace, List.append_assoc, List.append_assoc, List.cons_append]
    exact .token t.named_record
  | noise text offset =>
    have hmessage : message (.noise text offset) = "skipping unrecognized input ".toList ++
        quoted text ++ " at ".toList ++ Nat.toDigits 10 offset := rfl
    have hquoted : quoted text = '"' :: (text.flatMap Quoted.escape ++ ['"']) := rfl
    rw [hmessage, hplace, hquoted, List.append_assoc, List.append_assoc, List.cons_append,
      List.cons_append, List.append_assoc, List.singleton_append]
    exact .noise (Quoted.shown_escape text)

/-- **Words tell what happened and where**, unless it is about what is no
number. -/
theorem Words.unique {e e' : ScanEvent} {s : List Char} (h : e.Words s) (h' : e'.Words s) :
    e = e' ∨ ∃ v w n, e = .token (.number v) n ∧ e' = .token (.number w) n ∧ v.isNaN ∧ w.isNaN := by
  generalize hsame : s = s' at h'
  cases h with
  | token ht =>
    cases h' with
    | token hu =>
      have hname := List.append_cancel_left hsame
      obtain ⟨rfl, hplace⟩ := Stops.append_inj ht.ne_blank hu.ne_blank (Stops.cons.2 rfl)
        (Stops.cons.2 rfl) hname
      have hdigits := List.append_cancel_left (List.cons.inj hplace).2
      obtain rfl := toDigits_inj (by decide) (by decide) hdigits
      rcases ht.unique hu with rfl | ⟨v, w, rfl, rfl, hnan⟩
      · exact .inl rfl
      · exact .inr ⟨v, w, _, rfl, rfl, hnan⟩
    | noise => exact absurd (List.cons.inj hsame).1 (by decide)
  | noise ht =>
    cases h' with
    | token => exact absurd (List.cons.inj hsame).1 (by decide)
    | noise hu =>
      obtain ⟨rfl, hplace⟩ := ht.unique hu (List.cons.inj (List.append_cancel_left hsame)).2
      have hdigits := List.append_cancel_left (List.cons.inj hplace).2
      obtain rfl := toDigits_inj (by decide) (by decide) hdigits
      exact .inl rfl

end ScanEvent

end Abacus
