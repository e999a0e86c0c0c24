import Abacus.Proofs.JsonSpelling

/-!
# Reading documents — answers for printed values

A reader answers a printed value (`Answers`) if it takes the value off the
front or refuses it, whatever stands behind. What may stand there is
fixed: only blanks, a comma or a closing (`Ends`), which no value goes on
with. Variants, lists and records are answered by the answers of what they
hold (`answers_variant`, `answers_list`, `answers_record`), and a whole
document by the answer of its one value (`read_of_answers`).
-/

namespace Abacus

namespace Json

variable {α β : Type}

/-! ## Behind a value -/

/-- The bytes that may stand behind a value. -/
def endings : List UInt8 :=
  [byte ' ', byte '\n', byte '\t', byte '\r', byte ',', byte ']', byte '\x7d']

/-- **What may stand behind a written value**: a blank, a comma or a closing. -/
def Ends (rest : List UInt8) : Prop := ∀ b ∈ rest.head?, b ∈ endings

namespace Ends

variable {rest : List UInt8}

/-- What holds of these bytes holds of what stands behind a value. -/
theorem of_all {p : UInt8 → Bool} (h : Ends rest) (hp : endings.all p) : ∀ b ∈ rest.head?, p b :=
  fun b hb => List.all_eq_true.1 hp b (h b hb)

theorem cons {b : UInt8} (h : b ∈ endings) (rest : List UInt8) : Ends (b :: rest) := by
  intro c hc
  obtain rfl := Option.some.inj hc
  exact h

end Ends

theorem ends_nil : Ends [] := by
  intro b hb
  cases hb

/-! ## Answers -/

/-- **A reader gives an answer for a printed value**, whatever comma or
closing stands behind it. -/
def Answers (r : Reader α) (printed : List Char) (o : Except Fault α) : Prop :=
  ∀ rest, Ends rest → Gives r (Utf8.encode printed ++ rest) o rest

theorem Answers.map {r : Reader α} {printed : List Char} {o : Except Fault α} (g : α → β)
    (h : Answers r printed o) : Answers (g <$> r) printed (g <$> o) :=
  fun rest hrest => (h rest hrest).map g

/-- The quotation marks and the text between them. -/
theorem encode_text (s : List Char) (rest : List UInt8) :
    Utf8.encode (text s) ++ rest =
      byte '"' :: (Utf8.encode (s.flatMap escape) ++ byte '"' :: rest) :=
  encode_marks _ rest

/-- The name, the colon and the value. -/
theorem encode_member (name : String) (value : List Char) (rest : List UInt8) :
    Utf8.encode (member name value) ++ rest =
      byte '"' :: (Utf8.encode (name.toList.flatMap escape) ++
        byte '"' :: byte ':' :: (Utf8.encode value ++ rest)) := by
  rw [member, Utf8.encode_append, List.append_assoc, encode_text, encode_cons (by decide),
    List.cons_append]

theorem encode_member_ne_nil (name : String) (value : List Char) :
    Utf8.encode (member name value) ≠ [] := by
  rw [member, text, List.cons_append, encode_cons (by decide)]
  exact List.cons_ne_nil _ _

/-- The bytes of printed values, each behind a comma. -/
def following (printed : List (List Char)) : List UInt8 :=
  Utf8.encode (printed.flatMap fun s => ',' :: s)

@[simp] theorem following_nil : following [] = [] := rfl

@[simp] theorem following_cons (s : List Char) (ss : List (List Char)) :
    following (s :: ss) = byte ',' :: (Utf8.encode s ++ following ss) := by
  rw [following, List.flatMap_cons, List.cons_append, encode_cons (by decide), Utf8.encode_append]
  rfl

/-- Every value comes with a byte at least. -/
theorem length_le_following (printed : List (List Char)) :
    printed.length ≤ (following printed).length := by
  induction printed with
  | nil => exact Nat.zero_le _
  | cons s ss ih =>
    rw [following_cons, List.length_cons, List.length_cons, List.length_append]
    omega

/-- Behind the first of values with commas between come the others. -/
theorem encode_intercalate (s : List Char) (ss : List (List Char)) :
    Utf8.encode (List.intercalate [','] (s :: ss)) = Utf8.encode s ++ following ss := by
  induction ss generalizing s with
  | nil => simp
  | cons t ss ih =>
    rw [List.intercalate_cons_cons, Utf8.encode_append, Utf8.encode_append, ih, following_cons,
      List.append_assoc]
    rfl

theorem encode_object (m : List Char) (ms : List (List Char)) (rest : List UInt8) :
    Utf8.encode (object (m :: ms)) ++ rest =
      byte '\x7b' :: (Utf8.encode m ++ (following ms ++ byte '\x7d' :: rest)) := by
  rw [object, encode_cons (by decide), Utf8.encode_append, encode_intercalate,
    encode_cons (by decide)]
  simp [Utf8.encode]

/-- Behind a value stands a comma, or what stands behind the last. -/
theorem ends_following {rest : List UInt8} (h : Ends rest) (printed : List (List Char)) :
    Ends (following printed ++ rest) := by
  cases printed with
  | nil => exact h
  | cons s ss =>
    rw [following_cons, List.cons_append]
    exact .cons (by decide) _

theorem behindBlanks_colon : BehindBlanks colon := behindBlanks_afterBlanks_bind _

theorem reads_colon (rest : List UInt8) : Reads colon (byte ':' :: rest) () rest := by
  unfold colon
  refine (reads_afterBlanks_cons (by decide) _).bind ?_
  dsimp only
  rw [if_pos rfl]
  exact reads_skip _ _

theorem reads_listEnd (rest : List UInt8) : Reads listEnd (byte ']' :: rest) () rest := by
  unfold listEnd
  refine (reads_afterBlanks_cons (by decide) _).bind ?_
  dsimp only
  rw [if_pos rfl]
  exact reads_skip _ _

theorem reads_objectEnd (rest : List UInt8) : Reads objectEnd (byte '\x7d' :: rest) () rest := by
  unfold objectEnd
  refine (reads_afterBlanks_cons (by decide) _).bind ?_
  dsimp only
  rw [if_pos rfl]
  exact reads_skip _ _

/-- **A value by its first byte** is read as the reader of that byte reads
it. -/
theorem gives_valueBy {wanted : Wanted} {r : UInt8 → Option (Reader α)} {b : UInt8}
    {bs after : List UInt8} {o : Except Fault α} (hblank : isBlank b = false)
    (h : Gives ((r b).getD (unwanted wanted)) (b :: bs) o after) :
    Gives (valueBy wanted r) (b :: bs) o after := by
  unfold valueBy
  exact (reads_afterBlanks_cons hblank bs).gives_bind h.placed

/-! ## Variants -/

theorem reads_variantName {κ : Type} {known : List String} {ofName? : List Char → Option κ}
    {name w : List Char} {k : κ} (hname : Spelled name w) (hk : ofName? name = some k)
    (rest : List UInt8) :
    Reads (variantName known ofName?) (byte '"' :: (Utf8.encode w ++ byte '"' :: rest)) k rest := by
  unfold variantName
  refine Reads.placed ?_
  refine (reads_skip _ _).bind ?_
  refine (reads_textBody hname rest).bind ?_
  rw [hk]
  exact .pure _ _

/-- **A variant with a value** is what its value is. -/
theorem answers_variant {κ : Type} {known : List String} {ofName? : List Char → Option κ}
    {bare valued : κ → Reader α} {name : String} {k : κ} {value : List Char} {o : Except Fault α}
    (hk : ofName? name.toList = some k)
    (hvalue : Answers (valued k) value o) :
    Answers (variant known ofName? bare valued) (object [member name value]) o := by
  intro rest _
  rw [encode_object, encode_member]
  unfold variant
  refine (reads_afterBlanks_cons (by decide) _).gives_bind ?_
  dsimp only
  rw [if_pos rfl]
  refine (reads_skip _ _).gives_bind ?_
  refine (reads_afterBlanks_cons (by decide) _).gives_bind ?_
  dsimp only
  rw [if_pos rfl]
  refine (reads_variantName (spelled_escape _) hk _).gives_bind ?_
  refine (reads_colon _).gives_bind ?_
  refine (hvalue (byte '\x7d' :: rest) (.cons (by decide) rest)).bind_reads fun a => ?_
  refine (reads_afterBlanks_cons (by decide) _).bind ?_
  dsimp only
  rw [if_pos rfl]
  exact (reads_skip _ _).bind (.pure _ _)

/-- **A variant without a value** is its name, in any spelling. -/
theorem reads_plainVariant {κ : Type} {known : List String} {ofName? : List Char → Option κ}
    {name q : List Char} {k : κ} (hname : Quoted name q) (hk : ofName? name = some k)
    (rest : List UInt8) : Reads (plainVariant known ofName?) (Utf8.encode q ++ rest) k rest := by
  obtain ⟨hname⟩ := hname
  rw [encode_marks]
  unfold plainVariant variant
  refine (reads_afterBlanks_cons (by decide) _).bind ?_
  dsimp only
  rw [if_neg (by decide), if_pos rfl]
  exact (reads_variantName hname hk rest).bind (.pure _ _)

theorem answers_plainVariant {κ : Type} {known : List String} {ofName? : List Char → Option κ}
    {name : String} {k : κ} (hk : ofName? name.toList = some k) :
    Answers (plainVariant known ofName?) (text name.toList) (.ok k) :=
  fun rest _ => reads_plainVariant (quoted_text _) hk rest

/-! ## Values without parts -/

theorem behindBlanks_valueBy (wanted : Wanted) (r : UInt8 → Option (Reader α)) :
    BehindBlanks (valueBy wanted r) := behindBlanks_afterBlanks_bind _

/-- **A text is itself**, in any spelling. -/
theorem reads_textValue {s q : List Char} (h : Quoted s q) (rest : List UInt8) :
    Reads textValue (Utf8.encode q ++ rest) s rest := by
  obtain ⟨hs⟩ := h
  rw [encode_marks]
  change Gives textValue _ (.ok s) rest
  refine gives_valueBy (by decide) ?_
  rw [if_pos rfl, Option.getD_some]
  exact (reads_skip _ _).bind (reads_textBody hs rest)

/-- **A printed truth value is itself.** -/
theorem reads_booleanValue (b : Bool) (rest : List UInt8) :
    Reads booleanValue (Utf8.encode (boolean b) ++ rest) b rest := by
  change Gives booleanValue _ (.ok b) rest
  cases b with
  | true =>
    refine gives_valueBy (b := byte 't') (by decide) ?_
    rw [if_pos rfl, Option.getD_some]
    exact (reads_skip _ _).bind ((reads_word ['r', 'u', 'e'] rest).bind (.pure _ _))
  | false =>
    refine gives_valueBy (b := byte 'f') (by decide) ?_
    rw [if_neg (by decide), if_pos rfl, Option.getD_some]
    exact (reads_skip _ _).bind ((reads_word ['a', 'l', 's', 'e'] rest).bind (.pure _ _))

/-! ## Lists -/

/-- An item opens a list or an object, or is a number or a text: it begins
with no blank and no closing. -/
def Begins (printed : List Char) : Prop :=
  ∃ c cs, printed = c :: cs ∧ c.toNat < 0x80 ∧ isBlank (byte c) = false ∧ byte c ≠ byte ']'

theorem Begins.encode {printed : List Char} (h : Begins printed) (rest : List UInt8) :
    ∃ b bs, Utf8.encode printed ++ rest = b :: bs ∧ isBlank b = false ∧ b ≠ byte ']' := by
  obtain ⟨c, cs, rfl, hascii, hblank, hclosing⟩ := h
  exact ⟨byte c, Utf8.encode cs ++ rest, by rw [encode_cons hascii, List.cons_append], hblank,
    hclosing⟩

theorem reads_hasItem_end (first : Bool) (rest : List UInt8) :
    Reads (hasItem first) (byte ']' :: rest) false (byte ']' :: rest) := by
  unfold hasItem
  refine (reads_afterBlanks_cons (by decide) _).bind ?_
  dsimp only
  rw [if_pos rfl]
  exact .pure _ _

theorem reads_hasItem_first {printed : List Char} (h : Begins printed) (rest : List UInt8) :
    Reads (hasItem true) (Utf8.encode printed ++ rest) true (Utf8.encode printed ++ rest) := by
  obtain ⟨b, bs, hbytes, hblank, hclosing⟩ := h.encode rest
  rw [hbytes]
  unfold hasItem
  refine (reads_afterBlanks_cons hblank _).bind ?_
  dsimp only
  rw [if_neg hclosing, if_pos rfl]
  exact .pure _ _

theorem reads_hasItem_next {printed : List Char} (h : Begins printed) (rest : List UInt8) :
    Reads (hasItem false) (byte ',' :: (Utf8.encode printed ++ rest)) true
      (Utf8.encode printed ++ rest) := by
  obtain ⟨b, bs, hbytes, hblank, hclosing⟩ := h.encode rest
  rw [hbytes]
  unfold hasItem
  refine (reads_afterBlanks_cons (by decide) _).bind ?_
  dsimp only
  rw [if_neg (by decide), if_neg Bool.false_ne_true, if_pos rfl]
  refine (reads_skip _ _).bind ?_
  refine (reads_afterBlanks_cons hblank _).bind ?_
  dsimp only
  rw [if_neg hclosing]
  exact .pure _ _

section

variable {item : Reader β} {print : α → List Char} {answer : α → Except Fault β}

/-- **The items of a list** are answered one after the other, up to the first
that is refused. -/
theorem gives_items {as : List α} (hbegins : ∀ a ∈ as, Begins (print a))
    (hitem : ∀ a ∈ as, Answers item (print a) (answer a)) (rest : List UInt8) {rounds : Nat}
    (hrounds : as.length ≤ rounds) :
    Gives (items item rounds false)
      (following (as.map print) ++ byte ']' :: rest) (as.mapM answer) (byte ']' :: rest) := by
  induction as generalizing rounds with
  | nil =>
    rw [List.mapM_nil]
    cases rounds with
    | zero => exact Reads.pure [] _
    | succ rounds =>
      unfold items
      exact (reads_hasItem_end false rest).bind (Reads.pure [] _)
  | cons a as ih =>
    obtain ⟨rounds, rfl⟩ : ∃ n, rounds = n + 1 :=
      ⟨rounds - 1, by rw [List.length_cons] at hrounds; omega⟩
    obtain ⟨hbegin, hbegins⟩ := List.forall_mem_cons.1 hbegins
    obtain ⟨hfirst, hitem⟩ := List.forall_mem_cons.1 hitem
    rw [List.map_cons, following_cons, List.cons_append, List.append_assoc, List.mapM_cons]
    unfold items
    refine (reads_hasItem_next hbegin _).gives_bind ?_
    rw [if_pos rfl]
    refine (hfirst _ (ends_following (.cons (by decide) rest) _)).bind fun b _ => ?_
    refine (ih hbegins hitem (Nat.le_of_succ_le_succ hrounds)).bind fun bs _ => ?_
    exact Reads.pure (b :: bs) _

/-- **A printed list** is answered item by item. -/
theorem answers_list {as : List α} (hbegins : ∀ a ∈ as, Begins (print a))
    (hitem : ∀ a ∈ as, Answers item (print a) (answer a)) :
    Answers (list item) (array (as.map print)) (as.mapM answer) := by
  intro rest _
  rw [array, encode_cons (by decide), List.cons_append]
  unfold list
  refine gives_valueBy (by decide) ?_
  rw [if_pos rfl, Option.getD_some]
  refine (reads_skip _ _).gives_bind ?_
  refine Gives.closedBy ?_ fun _ _ => reads_listEnd rest
  refine Gives.bounded ?_
  -- the first item has no comma in front, so it is not one of `following`
  cases as with
  | nil =>
    have hbytes : Utf8.encode (List.intercalate [','] (([] : List α).map print) ++ [']']) ++ rest =
        byte ']' :: rest := rfl
    rw [List.mapM_nil, hbytes]
    unfold items
    exact (reads_hasItem_end true rest).bind (Reads.pure [] _)
  | cons a as =>
    have hbytes : Utf8.encode (List.intercalate [','] ((a :: as).map print) ++ [']']) ++ rest =
        Utf8.encode (print a) ++ (following (as.map print) ++ byte ']' :: rest) := by
      rw [List.map_cons, Utf8.encode_append, encode_intercalate, List.append_assoc,
        List.append_assoc]
      rfl
    obtain ⟨hbegin, hbegins⟩ := List.forall_mem_cons.1 hbegins
    obtain ⟨hfirst, hitem⟩ := List.forall_mem_cons.1 hitem
    rw [List.mapM_cons, hbytes]
    unfold items
    refine (reads_hasItem_first hbegin _).gives_bind ?_
    rw [if_pos rfl]
    refine (hfirst _ (ends_following (.cons (by decide) rest) _)).bind fun b _ => ?_
    refine (gives_items hbegins hitem rest ?_).bind fun bs _ => ?_
    · have := length_le_following (as.map print)
      rw [List.length_map] at this
      rw [List.length_append, List.length_append]
      omega
    · exact Reads.pure (b :: bs) _

end

/-! ## Records -/

section

variable {σ : Type} {readMember : List Char → σ → Reader σ} {after : List UInt8}

/-- The name of a member, with the comma in front unless it is the first. -/
theorem reads_nextName (first : Bool) {b name w : List Char} (hb : Blank b) (h : Spelled name w)
    (rest : List UInt8) :
    Reads (nextName first)
      ((if first then [] else [byte ',']) ++
        (Utf8.encode b ++ byte '"' :: (Utf8.encode w ++ byte '"' :: rest)))
      (some name) rest := by
  unfold nextName nextName.name
  have hname : Reads (do Reader.skip; some <$> textBody)
      (byte '"' :: (Utf8.encode w ++ byte '"' :: rest)) (some name) rest :=
    (reads_skip _ _).bind ((reads_textBody h rest).map some)
  cases first with
  | true =>
    refine (behindBlanks_afterBlanks_bind _).reads hb ?_
    refine (reads_afterBlanks_cons (by decide) _).bind ?_
    dsimp only
    rw [if_neg (by decide), if_pos rfl, if_pos rfl]
    exact hname
  | false =>
    refine (reads_afterBlanks_cons (by decide) _).bind ?_
    dsimp only
    rw [if_neg (by decide), if_neg Bool.false_ne_true, if_pos rfl]
    refine (reads_skip _ _).bind ?_
    refine (behindBlanks_afterBlanks_bind _).reads hb ?_
    refine (reads_afterBlanks_cons (by decide) _).bind ?_
    dsimp only
    rw [if_pos rfl]
    exact hname

theorem reads_nextName_end (first : Bool) (rest : List UInt8) :
    Reads (nextName first) (byte '\x7d' :: rest) none (byte '\x7d' :: rest) := by
  unfold nextName
  refine (reads_afterBlanks_cons (by decide) _).bind ?_
  dsimp only
  rw [if_pos rfl]
  exact .pure _ _

/-- The closing ends the members. -/
theorem reads_members_end {first : Bool} (rounds : Nat) (s : σ) (rest : List UInt8) :
    Reads (members readMember (rounds + 1) first s) (byte '\x7d' :: rest) s
      (byte '\x7d' :: rest) := by
  unfold members
  exact (reads_nextName_end first rest).bind (.pure _ _)

theorem behindBlanks_members (rounds : Nat) (first : Bool) (s : σ) :
    BehindBlanks (members readMember (rounds + 1) first s) := by
  unfold members nextName
  exact (behindBlanks_afterBlanks_bind _).bind _

/-- **A member is answered**, and then the members behind it. -/
theorem gives_members_next {rounds : Nat} (first : Bool) {s : σ} {b name w : List Char}
    {between more : List UInt8} {o : Except Fault σ} {answer : σ → Except Fault σ} (hb : Blank b)
    (hname : Spelled name w) (hmember : Gives (readMember name s) between o more)
    (hmore : ∀ s', o = .ok s' → Gives (members readMember rounds false s') more (answer s') after) :
    Gives (members readMember (rounds + 1) first s)
      ((if first then [] else [byte ',']) ++
        (Utf8.encode b ++ byte '"' :: (Utf8.encode w ++ byte '"' :: between)))
      (o >>= answer) after := by
  unfold members
  refine (reads_nextName first hb hname _).gives_bind ?_
  exact hmember.bind hmore

/-- A member that is refused ends them. -/
theorem refuses_members_next {rounds : Nat} (first : Bool) {s : σ} {b name w : List Char}
    {between : List UInt8} {fault : Fault} (hb : Blank b) (hname : Spelled name w)
    (hmember : Refuses (readMember name s) between fault) :
    Refuses (members readMember (rounds + 1) first s)
      ((if first then [] else [byte ',']) ++
        (Utf8.encode b ++ byte '"' :: (Utf8.encode w ++ byte '"' :: between))) fault := by
  unfold members
  exact (reads_nextName first hb hname _).refuses_bind (hmember.bind _)

/-- **A printed member is answered** in the same way. -/
theorem gives_members {rounds : Nat} (first : Bool) {s : σ} {name : String} {printed : List Char}
    {more : List UInt8} {o : Except Fault σ} {answer : σ → Except Fault σ}
    (hmember : Gives (readMember name.toList s) (byte ':' :: (Utf8.encode printed ++ more)) o more)
    (hmore : ∀ s', o = .ok s' → Gives (members readMember rounds false s') more (answer s') after) :
    Gives (members readMember (rounds + 1) first s)
      ((if first then [] else [byte ',']) ++ (Utf8.encode (member name printed) ++ more))
      (o >>= answer) after := by
  rw [encode_member]
  exact gives_members_next first blank_nil (spelled_escape _) hmember hmore

/-- A member that is read makes way for those behind it. -/
theorem Reads.members {rounds : Nat} (first : Bool) {s t : σ} {name : String} {printed : List Char}
    {more : List UInt8} {o : Except Fault σ}
    (hmember : Reads (readMember name.toList s) (byte ':' :: (Utf8.encode printed ++ more)) t more)
    (hmore : Gives (Json.members readMember rounds false t) more o after) :
    Gives (Json.members readMember (rounds + 1) first s)
      ((if first then [] else [byte ',']) ++ (Utf8.encode (member name printed) ++ more)) o
      after := by
  have hok : Gives (readMember name.toList s) (byte ':' :: (Utf8.encode printed ++ more)) (.ok t)
      more := hmember
  have hall : Gives (Json.members readMember (rounds + 1) first s)
      ((if first then [] else [byte ',']) ++ (Utf8.encode (member name printed) ++ more))
      ((.ok t : Except Fault σ) >>= fun _ => o) after :=
    gives_members first hok fun s' hs => by
      obtain rfl := Except.ok.inj hs
      exact hmore
  exact hall

/-- A member that comes once is its value, behind the colon. -/
theorem gives_memberOnce {value : Reader α} {b : List Char} {before : List UInt8}
    {o : Except Fault α} (name : String) (hb : Blank b) (h : Gives value before o after) :
    Gives (memberOnce name none value) (Utf8.encode b ++ byte ':' :: before) o after := by
  unfold memberOnce
  rw [Option.isSome_none, if_neg Bool.false_ne_true]
  exact (behindBlanks_colon.reads hb (reads_colon before)).gives_bind h

theorem reads_memberOnce {value : Reader α} {b c : List Char} {before : List UInt8} {a : α}
    (name : String) (hb : Blank b) (hc : Blank c) (hvalue : BehindBlanks value)
    (h : Reads value before a after) :
    Reads (memberOnce name none value) (Utf8.encode b ++ byte ':' :: (Utf8.encode c ++ before)) a
      after :=
  gives_memberOnce (o := .ok a) name hb (hvalue.reads hc h)

/-- **A field is set** to the value of its member, which comes once. -/
theorem gives_field {value : Reader α} {printed : List Char} {o : Except Fault α} (name : String)
    (set : α → σ) (h : Answers value printed o) {rest : List UInt8} (hrest : Ends rest) :
    Gives (do let a ← memberOnce name none value; pure (set a))
      (byte ':' :: (Utf8.encode printed ++ rest)) (set <$> o) rest := by
  have hvalue := gives_memberOnce name blank_nil (h rest hrest)
  cases o with
  | ok a => exact Reads.bind hvalue (.pure _ _)
  | error fault => exact Refuses.bind hvalue _

/-- **A record is answered by its members** and what is made of them. Only
when these are had it has to be closed. -/
theorem gives_record {name : String} {empty : σ} {complete : σ → Reader α} {inOrder : Reader α}
    {before between : List UInt8} {o : Except Fault σ} {answer : σ → Except Fault α}
    (hmembers : Gives (Reader.bounded fun rounds => members readMember rounds true empty) before o
      between)
    (hcomplete : ∀ s, o = .ok s → Gives (complete s) between (answer s) between)
    (hclose : ∀ s, o = .ok s → Reads objectEnd between () after) :
    Gives (record name empty readMember complete inOrder) (byte '\x7b' :: before) (o >>= answer)
      after := by
  unfold record
  refine gives_valueBy (by decide) ?_
  rw [if_neg (by decide), if_pos rfl, Option.getD_some]
  refine (reads_skip _ _).gives_bind ?_
  refine Gives.closedBy (hmembers.bind hcomplete) fun a ha => ?_
  cases o with
  | ok s => exact hclose s rfl
  | error fault => cases ha

/-- **A printed record** is answered by its members and what is made of
them. -/
theorem answers_record {name : String} {empty : σ} {complete : σ → Reader α} {inOrder : Reader α}
    {first : List Char} {others : List (List Char)} {o : Except Fault σ}
    {answer : σ → Except Fault α}
    (hfirst : Utf8.encode first ≠ [])
    (hmembers : ∀ rounds rest, others.length + 2 ≤ rounds →
      Gives (members readMember rounds true empty)
        (Utf8.encode first ++ (following others ++ byte '\x7d' :: rest)) o (byte '\x7d' :: rest))
    (hcomplete : ∀ s rest, o = .ok s → Gives (complete s) rest (answer s) rest) :
    Answers (record name empty readMember complete inOrder) (object (first :: others))
      (o >>= answer) := by
  intro rest _
  rw [encode_object]
  refine gives_record (Gives.bounded (hmembers _ rest ?_)) (fun s hs => hcomplete s _ hs)
    fun _ _ => reads_objectEnd rest
  have hlength := length_le_following others
  have hpos := List.length_pos_of_ne_nil hfirst
  rw [List.length_append, List.length_append, List.length_cons]
  omega

end

/-! ## Whole documents -/

/-- **A document that is one value** and blanks behind it is read to what is
given for the value, however it comes. -/
theorem read_of_gives {r : Reader α} {bytes : List UInt8} {b : List Char} {o : Except Fault α}
    (h : Gives r bytes o (Utf8.encode b)) (hb : Blank b) (source : Source) :
    (read r source bytes).mapError ReadError.fault = o := by
  have hwhole : Gives (whole r) bytes o [] := by
    unfold whole
    refine h.bind_reads fun a => ?_
    rw [← List.append_nil (Utf8.encode b)]
    refine (behindBlanks_afterBlanks_bind _).reads hb ?_
    exact (reads_afterBlanks (by simp)).bind (.pure _ _)
  unfold read
  cases o with
  | ok a =>
    obtain ⟨t, ht, -⟩ := hwhole (State.start source bytes) rfl
    rw [ht]
    rfl
  | error fault =>
    obtain ⟨f, t, ht, hfault⟩ := hwhole (State.start source bytes) rfl
    rw [ht]
    exact congrArg Except.error hfault

/-- **A document that is one printed value** is read to the value's answer. -/
theorem read_of_answers {r : Reader α} {printed : List Char} {o : Except Fault α}
    (h : Answers r printed o) (source : Source) :
    (read r source (Utf8.encode printed)).mapError ReadError.fault = o := by
  have hvalue := h [] ends_nil
  rw [List.append_nil] at hvalue
  exact read_of_gives hvalue blank_nil source

end Json

end Abacus
