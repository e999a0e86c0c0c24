import Abacus.Proofs.Abreast
import Abacus.Settings.Json

/-!
# Sources — settings from a text and from a file

Settings are read from a text that is held, or from a file whose bytes
arrive one after the other. Both are runs of the same readers in different
states, and all of these agree: values that are passed over
(`agrees_passValue`), objects and lists with what they hold
(`agrees_record`), variants (`agrees_plainVariant`), and so settings
(`Settings.agrees_reader`). A file that holds a text is therefore read as
the text is (`ofNode_of_text`): to the same settings, or to the same
fault, told in the same words and at most one byte further on.
-/

namespace Abacus

namespace Json

variable {doc : List Char} {α κ σ : Type}

/-! ## Values passed over -/

/-- An escape is a letter, or the digits of a code unit. -/
theorem agrees_passEscape : Agrees doc passEscape := by
  unfold passEscape
  refine agrees_byteOfText.bind fun b => ?_
  split
  · exact agrees_codeUnit.bind fun _ => .pure ()
  · split
    · exact .pure ()
    · exact agrees_fail (by decide)

/-- The bytes of a text that is passed over are not decoded, so nothing is said
of what they are. -/
theorem agrees_passBytes (rounds : Nat) : Agrees doc (passBytes rounds) := by
  induction rounds with
  | zero => exact agrees_fail (by decide)
  | succ rounds ih =>
    unfold passBytes
    refine agrees_peek_bind fun o => Agrees.on ?_ o
    cases o with
    | none => exact agrees_fail (by decide)
    | some b =>
      dsimp only
      split
      · exact agrees_skip
      · split
        · exact agrees_skip.bind fun _ => agrees_passEscape.bind fun _ => ih
        · split
          · exact agrees_fail (by decide)
          · exact agrees_skip.bind fun _ => ih

/-- And there are enough rounds for all of them. -/
theorem agrees_passText : Agrees doc passText := .bounded agrees_passBytes

/-- An exponent needs a digit, whatever its sign. -/
theorem agrees_passExponent : Agrees doc passExponent := by
  unfold passExponent
  refine agrees_skip.bind fun _ => agrees_exponentSign.bind fun _ => agrees_next.bind fun o => ?_
  cases o with
  | none => exact agrees_fail (by decide)
  | some d =>
    dsimp only
    split
    · exact (agrees_takeWhile isDigit).map _
    · exact agrees_fail (by decide)

/-- Where no digit follows a point, both fail at the byte that was looked at. -/
theorem agrees_passFraction : Agrees doc passFraction := by
  unfold passFraction
  refine agrees_skip.bind fun _ => agrees_takeWhile_bind fun ds o => ?_
  split
  · exact agreesOn_failAtNext (by decide)
  · refine Agrees.on (agrees_peek_bind fun o => Agrees.on ?_ o) o
    split
    · exact agrees_passExponent
    · exact .pure ()

/-- A number that is passed over is looked at no further than its next byte. -/
theorem agrees_passNumber : Agrees doc passNumber := by
  unfold passNumber
  refine agrees_next.bind fun o => ?_
  cases o with
  | none => exact agrees_fail (by decide)
  | some d =>
    dsimp only
    split
    · exact agrees_fail (by decide)
    · refine (agrees_moreDigits d).bind fun _ => agrees_peek_bind fun o => Agrees.on ?_ o
      split
      · exact agrees_passFraction
      · split
        · exact agrees_passExponent
        · exact .pure ()

/-- A word is passed over, and nothing is opened. -/
theorem agrees_passHead : Agrees doc passHead := by
  have hword : ∀ cs, Agrees doc (do Reader.skip; word cs; pure (none : Option Frame)) := fun cs =>
    agrees_skip.bind fun _ => (agrees_word cs).bind fun _ => .pure none
  unfold passHead
  refine agrees_byteAfterBlanks (by decide) fun b => ?_
  split
  · exact (hword _).on _
  split
  · exact (hword _).on _
  split
  · exact (hword _).on _
  split
  · exact (agrees_skip.bind fun _ => agrees_passNumber.bind fun _ => .pure none).on _
  split
  · exact (agrees_passNumber.bind fun _ => .pure none).on _
  split
  · exact (agrees_skip.bind fun _ => agrees_passText.bind fun _ => .pure none).on _
  split
  · exact (agrees_skip.bind fun _ => .pure _).on _
  split
  · exact (agrees_skip.bind fun _ => .pure _).on _
  · exact agreesOn_failAtNext (by decide)

/-- What is said of a frame cut short is not that its bytes are no text, -/
theorem Frame.cutShort_ne (frame : Frame) : frame.cutShort ≠ .invalidUtf8 := by
  cases frame <;> decide

/-- and neither is what is said where a comma is missing. -/
theorem Frame.expectedComma_ne (frame : Frame) : frame.expectedComma ≠ .invalidUtf8 := by
  cases frame <;> decide

/-- **Ends of frames** are passed one after the other, by induction on the frames
that are open. -/
theorem agrees_passEnds (afterValue : Bool) (frames : List Frame) :
    Agrees doc (passEnds afterValue frames) := by
  induction frames generalizing afterValue with
  | nil =>
    unfold passEnds
    exact .pure []
  | cons frame outer ih =>
    unfold passEnds
    refine agrees_byteAfterBlanks frame.cutShort_ne fun b => ?_
    split
    · exact (agrees_skip.bind fun _ => ih true).on _
    split
    · exact (Agrees.pure _).on _
    split
    · exact (agrees_skip.bind fun _ => .pure _).on _
    · exact agreesOn_failAtNext frame.expectedComma_ne

/-- Only members of objects have names. -/
theorem agrees_passName (frame : Frame) : Agrees doc (passName frame) := by
  cases frame with
  | list => exact .pure ()
  | object =>
    unfold passName
    refine agrees_byteAfterBlanks (by decide) fun b => ?_
    split
    · exact (agrees_skip.bind fun _ => agrees_passText.bind fun _ => agrees_colon).on _
    · exact agreesOn_failAtNext (by decide)

/-- One round passes a value that opens nothing, or the head of one that does. -/
theorem agrees_passFrames (rounds : Nat) (frames : List Frame) :
    Agrees doc (passFrames rounds frames) := by
  induction rounds generalizing frames with
  | zero => exact agrees_fail (by decide)
  | succ rounds ih =>
    have hnext : ∀ frame outer, Agrees doc (do passName frame; passFrames rounds (frame :: outer)) :=
      fun frame outer => (agrees_passName frame).bind fun _ => ih _
    unfold passFrames
    refine agrees_passHead.bind fun opened => ?_
    cases opened with
    | none =>
      refine (agrees_passEnds true frames).bind fun left => ?_
      cases left with
      | nil => exact .pure ()
      | cons frame outer => exact hnext frame outer
    | some frame =>
      refine (agrees_passEnds false (frame :: frames)).bind fun left => ?_
      cases left with
      | nil => exact .pure ()
      | cons frame outer => exact hnext frame outer

/-- **A value is passed over alike.** -/
theorem agrees_passValue : Agrees doc passValue :=
  .bounded fun rounds => agrees_passFrames rounds []

/-! ## Lists and objects -/

/-- Behind the items of a list a comma is told by the byte that follows it. -/
theorem agrees_listEnd : Agrees doc listEnd := by
  unfold listEnd
  refine agrees_byteAfterBlanks (by decide) fun b => ?_
  split
  · exact agrees_skip.on _
  split
  · refine (agrees_skip.bind fun _ => agrees_afterBlanks_bind fun o => ?_).on _
    split
    · exact agreesOn_failAtNext (by decide)
    · exact agreesOn_failAtNext (by decide)
  · exact agreesOn_failAtNext (by decide)

/-- The end of an object does not look behind a comma. -/
theorem agrees_objectEnd : Agrees doc objectEnd := by
  unfold objectEnd
  refine agrees_byteAfterBlanks (by decide) fun b => ?_
  split
  · exact agrees_skip.on _
  split
  · exact agreesOn_failAtNext (by decide)
  · exact agreesOn_failAtNext (by decide)

/-- **What stands inside brackets is closed alike**, after a failure as
well. -/
theorem Agrees.closedBy {close : Reader Unit} {inside : Reader α} (hclose : Agrees doc close)
    (hinside : Agrees doc inside) : Agrees doc (closedBy close inside) := by
  intro n rest peeked hrest
  have hin := hinside n rest peeked hrest
  simp only [Json.closedBy]
  generalize inside (.held n rest) = x at hin
  generalize inside (.arriving n rest peeked) = y at hin
  cases hin with
  | @ok a m behind peeked' hbehind =>
    have hend := hclose m behind peeked' hbehind
    dsimp only
    generalize close (.held m behind) = u at hend
    generalize close (.arriving m behind peeked') = v at hend
    cases hend with
    | ok _ p h => exact .ok a p h
    | error h hfault hnear => exact .error h hfault hnear
  | @error fault p q m behind peeked' hbehind hfault hnear =>
    have hend := hclose m behind peeked' hbehind
    dsimp only
    generalize close (.held m behind) = u at hend
    generalize close (.arriving m behind peeked') = v at hend
    cases hend with
    | ok _ p h => exact .error h hfault hnear
    | error h _ _ => exact .error h hfault hnear

/-- Whether a list goes on is told by the byte behind its comma. -/
theorem agrees_hasItem (first : Bool) : Agrees doc (hasItem first) := by
  unfold hasItem
  refine agrees_byteAfterBlanks (by decide) fun b => ?_
  split
  · exact (Agrees.pure false).on _
  split
  · exact (Agrees.pure true).on _
  split
  · refine (agrees_skip.bind fun _ => agrees_byteAfterBlanks (by decide) fun c => ?_).on _
    split
    · exact agreesOn_failAtNext (by decide)
    · exact (Agrees.pure true).on _
  · exact agreesOn_failAtNext (by decide)

/-- What is done with a text that stands behind its mark. -/
theorem AgreesOn.text_bind {f : List Char → Reader α} (hf : ∀ s, Agrees doc (f s)) :
    AgreesOn doc (some (byte '"')) (do Reader.skip; let s ← textBody; f s) := by
  have h := agreesOn_text.bind hf
  rwa [bind_assoc] at h

/-- A name stands behind the mark that was looked at. -/
theorem agreesOn_name : AgreesOn doc (some (byte '"')) nextName.name := by
  unfold nextName.name
  have h : AgreesOn doc (some (byte '"')) (do Reader.skip; let s ← textBody; pure (some s)) :=
    .text_bind fun s => .pure (some s)
  rwa [bind_pure_comp] at h

/-- Whether an object goes on is told by the mark of a name. -/
theorem agrees_nextName (first : Bool) : Agrees doc (nextName first) := by
  unfold nextName
  refine agrees_byteAfterBlanks (by decide) fun b => ?_
  split
  · exact (Agrees.pure none).on _
  split
  · split
    · next hb => exact hb ▸ agreesOn_name
    · exact agreesOn_failAtNext (by decide)
  split
  · refine (agrees_skip.bind fun _ => agrees_byteAfterBlanks (by decide) fun c => ?_).on _
    split
    · next hc => exact hc ▸ agreesOn_name
    split
    · exact agreesOn_failAtNext (by decide)
    · exact agreesOn_failAtNext (by decide)
  · exact agreesOn_failAtNext (by decide)

/-! ## Values by their first byte -/

/-- **A value of the wrong kind** is read as far as it has to be to say what it
is. The fault has no place yet in either reader. -/
theorem agrees_unwanted (wanted : Wanted) : Agrees doc (unwanted wanted : Reader α) := by
  have htype : ∀ found, Agrees doc (Reader.failUnplaced (.wrongType found wanted) : Reader α) :=
    fun found => agrees_failUnplaced (by simp)
  unfold unwanted
  refine agrees_peek_bind fun o => ?_
  cases o with
  | none => exact agreesOn_failAtNext (by decide)
  | some b =>
    have hword : ∀ cs found, AgreesOn doc (some b)
        (do Reader.skip; word cs; Reader.failUnplaced (.wrongType found wanted) : Reader α) :=
      fun cs found => (agrees_skip.bind fun _ => (agrees_word cs).bind fun _ => htype found).on _
    dsimp only
    split
    · exact hword _ _
    split
    · exact hword _ _
    split
    · exact hword _ _
    split
    · exact (agrees_skip.bind fun _ => (agrees_numeric false).bind fun n => htype n.found).on _
    split
    · exact ((agrees_numeric true).bind fun n => htype n.found).on _
    split
    · next hb => exact hb ▸ .text_bind fun s => htype (.text s)
    split
    · exact (htype _).on _
    split
    · exact (htype _).on _
    · exact agreesOn_failAtNext (by decide)

/-- **A value by its first byte** is read alike if it is behind that
byte. -/
theorem agrees_valueBy {wanted : Wanted} {r : UInt8 → Option (Reader α)}
    (h : ∀ b, ∀ q ∈ r b, AgreesOn doc (some b) q) : Agrees doc (valueBy wanted r) := by
  unfold valueBy
  refine agrees_byteAfterBlanks (by decide) fun b => AgreesOn.placed ?_
  cases hr : r b with
  | none => exact (agrees_unwanted wanted).on _
  | some q => exact h b q hr

/-- Two words are values here. -/
theorem agrees_booleanValue : Agrees doc booleanValue := by
  have hword : ∀ cs (a : Bool), Agrees doc (do Reader.skip; word cs; pure a) := fun cs a =>
    agrees_skip.bind fun _ => (agrees_word cs).bind fun _ => .pure a
  refine agrees_valueBy fun b q hq => ?_
  split at hq
  · obtain rfl := Option.some.inj hq
    exact (hword _ _).on _
  split at hq
  · obtain rfl := Option.some.inj hq
    exact (hword _ _).on _
  · cases hq

/-- A text is decoded behind its mark, where both readers have a text in front. -/
theorem agrees_textValue : Agrees doc textValue := by
  refine agrees_valueBy fun b q hq => ?_
  split at hq
  · next hb =>
    obtain rfl := Option.some.inj hq
    exact hb ▸ agreesOn_text
  · cases hq

/-- One word is a value here. -/
theorem agrees_nullValue : Agrees doc nullValue := by
  refine agrees_valueBy fun b q hq => ?_
  split at hq
  · obtain rfl := Option.some.inj hq
    exact (agrees_skip.bind fun _ => agrees_word _).on _
  · cases hq

/-! ## Records and variants -/

/-- Members are read one after the other, with what was gathered of those
before. -/
theorem agrees_members {member : List Char → σ → Reader σ}
    (hmember : ∀ name s, Agrees doc (member name s)) (rounds : Nat) (first : Bool) (s : σ) :
    Agrees doc (members member rounds first s) := by
  induction rounds generalizing first s with
  | zero => exact .pure s
  | succ rounds ih =>
    unfold members
    refine (agrees_nextName first).bind fun name => ?_
    cases name with
    | none => exact .pure s
    | some name => exact (hmember name s).bind fun s => ih false s

/-- **A record is read alike** if its members are, and its fields in
order. -/
theorem agrees_record {name : String} {empty : σ} {member : List Char → σ → Reader σ}
    {complete : σ → Reader α} {inOrder : Reader α}
    (hmember : ∀ name s, Agrees doc (member name s)) (hcomplete : ∀ s, Agrees doc (complete s))
    (hinOrder : Agrees doc inOrder) : Agrees doc (record name empty member complete inOrder) := by
  refine agrees_valueBy fun b q hq => ?_
  split at hq
  · obtain rfl := Option.some.inj hq
    exact (agrees_skip.bind fun _ => agrees_listEnd.closedBy hinOrder).on _
  split at hq
  · obtain rfl := Option.some.inj hq
    have hinside := Agrees.bounded fun rounds => agrees_members hmember rounds true empty
    exact (agrees_skip.bind fun _ =>
      agrees_objectEnd.closedBy (hinside.bind hcomplete)).on _
  · cases hq

/-- A member that was there already is refused before its colon, so the fault is
unplaced in both. -/
theorem agrees_memberOnce (name : String) (present : Option α) {value : Reader α}
    (hvalue : Agrees doc value) : Agrees doc (memberOnce name present value) := by
  unfold memberOnce
  split
  · exact agrees_failUnplaced (by simp)
  · exact agrees_colon.bind fun _ => hvalue

/-- A member that nobody asked for is passed over. -/
theorem agrees_memberPassed : Agrees doc memberPassed :=
  agrees_colon.bind fun _ => agrees_passValue

/-- A field without a name is a value or what stands for it. -/
theorem agrees_fieldInOrder (first : Bool) {value otherwise : Reader α}
    (hvalue : Agrees doc value) (hotherwise : Agrees doc otherwise) :
    Agrees doc (fieldInOrder first value otherwise) := by
  refine (agrees_hasItem first).bind fun more => ?_
  split
  · exact hvalue
  · exact hotherwise

/-- A variant is known by its name, which is a text. -/
theorem agreesOn_variantName (known : List String) (ofName? : List Char → Option κ) :
    AgreesOn doc (some (byte '"')) (variantName known ofName?) := by
  refine AgreesOn.placed (.text_bind fun name => ?_)
  split
  · exact .pure _
  · exact agrees_failUnplaced (by simp)

/-- **A variant without a value is read alike.** -/
theorem agrees_plainVariant (known : List String) (ofName? : List Char → Option κ) :
    Agrees doc (plainVariant known ofName?) := by
  unfold plainVariant variant
  refine agrees_byteAfterBlanks (by decide) fun b => ?_
  split
  · refine (agrees_skip.bind fun _ => agrees_byteAfterBlanks (by decide) fun c => ?_).on _
    split
    · next hc =>
      subst hc
      refine (agreesOn_variantName known ofName?).bind fun k => agrees_colon.bind fun _ =>
        (agrees_nullValue.bind fun _ => .pure k).bind fun k =>
          agrees_afterBlanks_bind fun o => Agrees.on ?_ o
      cases o with
      | none => exact agrees_fail (by decide)
      | some d =>
        dsimp only
        split
        · exact agrees_skip.bind fun _ => .pure k
        · exact agrees_fail (by decide)
    split
    · exact agreesOn_failAtNext (by decide)
    · exact agreesOn_failAtNext (by decide)
  split
  · next hb =>
    subst hb
    exact (agreesOn_variantName known ofName?).bind fun k => .pure k
  · exact agreesOn_failAtNext (by decide)

/-! ## Whole documents -/

/-- **Nothing may follow a document** but blanks. -/
theorem agrees_whole {r : Reader α} (h : Agrees doc r) : Agrees doc (whole r) := by
  refine h.bind fun a => agrees_afterBlanks_bind fun o => ?_
  cases o with
  | none => exact (Agrees.pure a).on _
  | some b => exact agreesOn_failAtNext (by decide)

/-- A reader whose failures all have a place. -/
def SetsPlace (r : Reader α) : Prop := ∀ s f t, r s = .error f t → ∃ n, f.place = some n

/-- Readers in a row set places if each of them does. -/
theorem SetsPlace.bind {r : Reader α} {f : α → Reader σ} (h : SetsPlace r)
    (hf : ∀ a, SetsPlace (f a)) : SetsPlace (r >>= f) := by
  intro s e t hs
  simp only [Bind.bind, EStateM.bind] at hs
  cases hr : r s with
  | ok a u =>
    rw [hr] at hs
    exact hf a u e t hs
  | error g u =>
    rw [hr] at hs
    cases hs
    exact h s e t hr

/-- What does not fail needs no place. -/
theorem setsPlace_pure (a : α) : SetsPlace (pure a : Reader α) := by
  intro s f t h
  cases h

/-- A reader sets the place of a fault that has none. -/
theorem setsPlace_placed (r : Reader α) : SetsPlace r.placed := by
  intro s f t h
  unfold Reader.placed at h
  split at h
  · cases h
  · next g u _ =>
    obtain ⟨rfl, rfl⟩ := EStateM.Result.error.inj h
    cases hplace : g.place with
    | none => exact ⟨u.place, by simp⟩
    | some n => exact ⟨n, by simp⟩

/-- Looking for a byte does not fail, so it is enough that what is done with
it sets a place. -/
theorem setsPlace_afterBlanks {f : Option UInt8 → Reader α} (h : ∀ o, SetsPlace (f o)) :
    SetsPlace (afterBlanks >>= f) :=
  fun _ _ _ hs => h _ _ _ _ hs

/-- A failure at the next byte is placed there. -/
theorem setsPlace_failAtNext (fault : Fault) : SetsPlace (Reader.failAtNext fault : Reader α) := by
  intro s f t h
  cases h
  exact ⟨_, rfl⟩

/-- **A value by its first byte sets a place**, whatever is done behind that byte. -/
theorem setsPlace_valueBy (wanted : Wanted) (r : UInt8 → Option (Reader α)) :
    SetsPlace (valueBy wanted r) := by
  refine setsPlace_afterBlanks fun o => ?_
  cases o with
  | none => exact setsPlace_failAtNext _
  | some b => exact setsPlace_placed _

/-- So what is wrong with a document has a place. -/
theorem setsPlace_whole {r : Reader α} (h : SetsPlace r) : SetsPlace (whole r) := by
  refine h.bind fun a => setsPlace_afterBlanks fun o => ?_
  cases o with
  | none => exact setsPlace_pure a
  | some _ => exact setsPlace_failAtNext _

/-- **A document is read alike, held and arriving**: to one value, or to one
fault, which is not that of bytes that are no text, at a place or one byte
further on. -/
theorem read_alike {r : Reader α} (h : Agrees doc r) (hplace : SetsPlace r) :
    (∃ a, read r .held (Utf8.encode doc) = .ok a ∧ read r .arriving (Utf8.encode doc) = .ok a) ∨
    ∃ fault m n, fault ≠ .invalidUtf8 ∧ (n = m ∨ n = m + 1) ∧
      read r .held (Utf8.encode doc) = .error ⟨fault, some (.after (Utf8.encode doc) m)⟩ ∧
      read r .arriving (Utf8.encode doc) = .error ⟨fault, some (.after (Utf8.encode doc) n)⟩ := by
  have hruns : Alike doc (whole r (.start .held (Utf8.encode doc)))
      (whole r (.start .arriving (Utf8.encode doc))) :=
    agrees_whole h 0 (Utf8.encode doc) false List.suffix_rfl
  have hset := setsPlace_whole hplace (.start .held (Utf8.encode doc))
  unfold read
  generalize whole r (.start .held (Utf8.encode doc)) = x at hruns hset
  generalize whole r (.start .arriving (Utf8.encode doc)) = y at hruns
  cases hruns with
  | ok a _ _ => exact .inl ⟨a, rfl, rfl⟩
  | error _ hfault hnear =>
    cases hnear with
    | unset =>
      obtain ⟨n, hn⟩ := hset _ _ rfl
      cases hn
    | same n => exact .inr ⟨_, n, n, hfault, .inl rfl, rfl, rfl⟩
    | ahead n => exact .inr ⟨_, n, n + 1, hfault, .inr rfl, rfl, rfl⟩

end Json

open Json

variable {doc : List Char}

/-- A format is a variant that has no value. -/
theorem Format.agrees_reader : Agrees doc Format.reader := agrees_plainVariant _ _

namespace Settings

/-! ## Settings -/

/-- Each of the three settings is read by its own reader, and other members are
passed over. -/
theorem agrees_member (name : List Char) (f : Fields) : Agrees doc (member name f) := by
  unfold member
  split
  · exact (agrees_memberOnce _ _ Format.agrees_reader).bind fun _ => .pure _
  · exact (agrees_memberOnce _ _ agrees_textValue).bind fun _ => .pure _
  · exact (agrees_memberOnce _ _ agrees_booleanValue).bind fun _ => .pure _
  · exact agrees_memberPassed.bind fun _ => .pure f

/-- Without names, settings come in their order. -/
theorem agrees_ofItems : Agrees doc ofItems := by
  have hitem : ∀ {α : Type} (first : Bool) {value : Reader α}, Agrees doc value →
      Agrees doc (fieldInOrder first (some <$> value) (pure none)) :=
    fun first _ hvalue => agrees_fieldInOrder first (hvalue.map some) (.pure none)
  exact (hitem true Format.agrees_reader).bind fun _ => (hitem false agrees_textValue).bind fun _ =>
    (hitem false agrees_booleanValue).bind fun _ => .pure _

/-- **Settings are read alike** from a document held and arriving. -/
theorem agrees_reader : Agrees doc reader :=
  agrees_record agrees_member (fun _ => .pure _) agrees_ofItems

/-- **Two readings of one document come to the same**: the same settings, or
one fault, which is not that of bytes that are no text. The second is told
of at the same place, or one byte further on. -/
inductive ReadAlike (bytes : List UInt8) :
    Except SettingsError Settings → Except SettingsError Settings → Prop
  | settings (s : Settings) : ReadAlike bytes (.ok s) (.ok s)
  | refused {fault : Fault} {m n : Nat} : fault ≠ .invalidUtf8 → n = m ∨ n = m + 1 →
      ReadAlike bytes (.error (.unreadable ⟨fault, some (.after bytes m)⟩))
        (.error (.unreadable ⟨fault, some (.after bytes n)⟩))

/-- **Settings from a text are those from a file that holds it.** Both are
read to the same settings, or both are refused for the same fault. So the
messages have the same kind and the same words up to the position. And a
file that is there is never passed by for the defaults. -/
theorem readAlike_file (text : List Char) :
    ReadAlike (Utf8.encode text) (ofText text) (ofNode (.file (Utf8.encode text))) ∧
    (∀ e f, ofText text = .error e → ofNode (.file (Utf8.encode text)) = .error f →
      ∃ (x y : ReadError) (p q : Position), e = .unreadable x ∧ f = .unreadable y ∧
        x.fault.category = y.fault.category ∧
        e.message = "JSON parsing error: ".toList ++ (x.fault.message ++ " at line ".toList ++
          natural p.line ++ " column ".toList ++ natural p.column) ∧
        f.message = "JSON parsing error: ".toList ++ (x.fault.message ++ " at line ".toList ++
          natural q.line ++ " column ".toList ++ natural q.column)) ∧
    ofNodeOrDefault (.file (Utf8.encode text)) = ofNode (.file (Utf8.encode text)) := by
  have halike : ReadAlike (Utf8.encode text) (ofText text)
      (ofNode (.file (Utf8.encode text))) := by
    have hreader : Agrees text reader := agrees_reader
    change ReadAlike _ (ofDocument .held _) (ofDocument .arriving _)
    unfold ofDocument
    obtain ⟨s, hheld, harriving⟩ | ⟨fault, m, n, hfault, hnear, hheld, harriving⟩ :=
      read_alike hreader (setsPlace_valueBy _ _)
    · rw [hheld, harriving]
      exact .settings s
    · rw [hheld, harriving]
      exact .refused hfault hnear
  refine ⟨halike, fun e f he hf => ?_, rfl⟩
  rw [he, hf] at halike
  cases halike with
  | refused hfault hnear => exact ⟨_, _, _, _, rfl, rfl, rfl, rfl, rfl⟩

/-- A control character in a text that is passed over: it is looked at in the
one, and has arrived in the other. -/
theorem readAlike_file_control :
    ofText "\x7b\"a\":\"\t\"\x7d".toList =
      .error (.unreadable ⟨.controlCharacter, some ⟨1, 6⟩⟩) ∧
    ofNode (.file (Utf8.encode "\x7b\"a\":\"\t\"\x7d".toList)) =
      .error (.unreadable ⟨.controlCharacter, some ⟨1, 7⟩⟩) ∧
    ∃ p q : Position,
      SettingsError.message (.unreadable ⟨.controlCharacter, some ⟨1, 6⟩⟩) =
        "JSON parsing error: ".toList ++ (Fault.controlCharacter.message ++ " at line ".toList ++
          natural p.line ++ " column ".toList ++ natural p.column) ∧
      SettingsError.message (.unreadable ⟨.controlCharacter, some ⟨1, 7⟩⟩) =
        "JSON parsing error: ".toList ++ (Fault.controlCharacter.message ++ " at line ".toList ++
          natural q.line ++ " column ".toList ++ natural q.column) := by
  have hheld : ofText "\x7b\"a\":\"\t\"\x7d".toList =
      .error (.unreadable ⟨.controlCharacter, some ⟨1, 6⟩⟩) := by decide +kernel
  have harriving : ofNode (.file (Utf8.encode "\x7b\"a\":\"\t\"\x7d".toList)) =
      .error (.unreadable ⟨.controlCharacter, some ⟨1, 7⟩⟩) := by decide +kernel
  obtain ⟨x, y, p, q, hx, -, -, hp, hq⟩ := (readAlike_file _).2.1 _ _ hheld harriving
  obtain rfl := SettingsError.unreadable.inj hx
  exact ⟨hheld, harriving, p, q, hp, hq⟩

end Settings

end Abacus
