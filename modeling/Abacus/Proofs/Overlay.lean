import Abacus.Proofs.JsonValues
import Abacus.Settings.Json
import Mathlib.Data.List.Forall2

/-!
# Overlay — settings that are given, and those that are not

A settings document is an object of members in any order: the three that
are known, each in any spelling, and any others with whatever values
(`Document`). Reading takes one member after the other and keeps what the
known ones give (`Gathers`, kept by each member in `Gathers.set`), so a
document in which each is given at most once is read, to what is given over
the defaults (`overlays_of_document`). A known name that comes a second
time ends the reading there (`ofText_of_repeats`). What is printed of
settings is such a document, and comes back as it was.
-/

namespace Abacus

namespace Settings

open Json

/-! ## Documents -/

/-- The names of the members that are not passed over. -/
def known : List (List Char) := ["format".toList, "log_filter".toList, "show_spans".toList]

/-- **A member of settings**: one of the three with what it gives, or one of
another name. -/
inductive Member
  | format (f : Format)
  | logFilter (s : List Char)
  | showSpans (b : Bool)
  | other (name : List Char) (unknown : name ∉ known)

namespace Member

/-- The name of a member. -/
def name : Member → List Char
  | .format _ => "format".toList
  | .logFilter _ => "log_filter".toList
  | .showSpans _ => "show_spans".toList
  | .other name _ => name

theorem format_known (f : Format) : (format f).name ∈ known := .head _

theorem logFilter_known (s : List Char) : (logFilter s).name ∈ known := .tail _ (.head _)

theorem showSpans_known (b : Bool) : (showSpans b).name ∈ known := .tail _ (.tail _ (.head _))

/-- How the value of a member may be written. -/
def IsValue : Member → List Char → Prop
  | .format f, v => Quoted f.word.toList v
  | .logFilter s, v => Quoted s v
  | .showSpans b, v => v = boolean b
  | .other _ _, v => Json.IsValue v

/-- **A member as it may be written**, with blanks around it. -/
inductive IsWritten (m : Member) : List Char → Prop
  | parts {a n v b : List Char} : Blank a → Named m.name n → m.IsValue v → Blank b →
      IsWritten m (a ++ (n ++ (v ++ b)))

end Member

/-- **A settings document** with its members in order. -/
inductive Document : List Member → List Char → Prop
  | empty {a b c : List Char} : Blank a → Blank b → Blank c →
      Document [] (a ++ ('\x7b' :: (b ++ ['\x7d']) ++ c))
  | filled {m : Member} {ms : List Member} {w a c : List Char} {ws : List (List Char)} : Blank a →
      List.Forall₂ Member.IsWritten (m :: ms) (w :: ws) → Blank c →
      Document (m :: ms) (a ++ (object (w :: ws) ++ c))

/-- No two members have one known name. -/
def Once (ms : List Member) : Prop := ms.Pairwise fun m n => m.name = n.name → m.name ∉ known

/-- **A known name comes a second time**, behind members that are in order.
What comes behind the name does not matter. -/
inductive Repeats (name : List Char) : List Char → Prop
  | again {m : Member} {ms : List Member} {w a b n rest : List Char} {ws : List (List Char)} :
      Blank a → List.Forall₂ Member.IsWritten (m :: ms) (w :: ws) → Once (m :: ms) →
      name ∈ known → name ∈ (m :: ms).map Member.name → Blank b → Quoted name n →
      Repeats name (a ++ '\x7b' :: (List.intercalate [','] (w :: ws) ++ ',' :: (b ++ (n ++ rest))))

/-- What a field comes to: what a member gives for it, or its default where
none does. -/
structure Chosen {α : Type} (ms : List Member) (member : α → Member) (default a : α) : Prop where
  given : ∀ v, member v ∈ ms → a = v
  missing : (∀ v, member v ∉ ms) → a = default

/-- **Settings where what is given lies over the defaults.** -/
structure Overlays (ms : List Member) (s : Settings) : Prop where
  format : Chosen ms .format default.format s.format
  logFilter : Chosen ms .logFilter default.logFilter s.logFilter
  showSpans : Chosen ms .showSpans default.showSpans s.showSpans

/-- Two lists with the same known members. -/
def SameKnown (ms ns : List Member) : Prop := ∀ m : Member, m.name ∈ known → (m ∈ ms ↔ m ∈ ns)

theorem Chosen.unique {α : Type} {ms ns : List Member} {member : α → Member} {default a b : α}
    (h : Chosen ms member default a) (h' : Chosen ns member default b)
    (hsame : ∀ v, member v ∈ ms ↔ member v ∈ ns) : a = b := by
  by_cases hgiven : ∃ v, member v ∈ ms
  · obtain ⟨v, hv⟩ := hgiven
    rw [h.given v hv, h'.given v ((hsame v).1 hv)]
  · rw [h.missing fun v hv => hgiven ⟨v, hv⟩, h'.missing fun v hv => hgiven ⟨v, (hsame v).2 hv⟩]

/-- **Neither the order nor the other members count.** -/
theorem Overlays.unique {ms ns : List Member} {s t : Settings} (h : Overlays ms s)
    (h' : Overlays ns t) (hsame : SameKnown ms ns) : s = t := by
  have hformat := h.format.unique h'.format fun v => hsame _ (Member.format_known v)
  have hfilter := h.logFilter.unique h'.logFilter fun v => hsame _ (Member.logFilter_known v)
  have hspans := h.showSpans.unique h'.showSpans fun v => hsame _ (Member.showSpans_known v)
  cases s
  cases t
  simp only [Settings.mk.injEq]
  exact ⟨hformat, hfilter, hspans⟩

/-! ## What is gathered -/

/-- What is kept of a field: what a member gives for it. -/
def Gathered {α : Type} (ms : List Member) (member : α → Member) (o : Option α) : Prop :=
  ∀ v, o = some v ↔ member v ∈ ms

namespace Gathered

variable {α : Type} {ms : List Member} {member : α → Member} {o : Option α}

theorem nil : Gathered [] member none := fun v => by simp

theorem set (h : Gathered ms member none) (hinj : ∀ v w, member v = member w → v = w) (a : α) :
    Gathered (ms ++ [member a]) member (some a) := by
  intro v
  have hnone : member v ∉ ms := fun hv => by simpa using (h v).2 hv
  simp only [Option.some.injEq, List.mem_append, hnone, false_or, List.mem_singleton]
  exact ⟨fun h => by rw [h], fun h => (hinj v a h).symm⟩

theorem skip (h : Gathered ms member o) {m : Member} (hm : ∀ v, member v ≠ m) :
    Gathered (ms ++ [m]) member o := by
  intro v
  simp only [List.mem_append, List.mem_singleton, hm v, or_false]
  exact h v

theorem chosen (h : Gathered ms member o) (default : α) :
    Chosen ms member default (o.getD default) := by
  constructor
  · intro v hv
    rw [(h v).2 hv, Option.getD_some]
  · intro hnone
    have ho : o = none := Option.eq_none_iff_forall_ne_some.2 fun v hv => hnone v ((h v).1 hv)
    rw [ho, Option.getD_none]

/-- A member that was not there left nothing. -/
theorem eq_none (h : Gathered ms member o) {name : List Char} (hname : ∀ v, (member v).name = name)
    (hfree : ∀ m ∈ ms, m.name ≠ name) : o = none :=
  Option.eq_none_iff_forall_ne_some.2 fun v hv => hfree _ ((h v).1 hv) (hname v)

/-- A name that was there left its value. -/
theorem isSome (h : Gathered ms member o) {v : α} (hv : member v ∈ ms) : o.isSome := by
  rw [(h v).2 hv]
  rfl

end Gathered

/-- **What is kept of some members**, field by field. -/
structure Gathers (ms : List Member) (f : Fields) : Prop where
  format : Gathered ms .format f.format
  logFilter : Gathered ms .logFilter f.logFilter
  showSpans : Gathered ms .showSpans f.showSpans

/-- Before the first member. -/
def Fields.start : Fields := ⟨none, none, none⟩

theorem gathers_nil : Gathers [] Fields.start := ⟨.nil, .nil, .nil⟩

/-- A member kept with what there is. -/
def Member.set : Member → Fields → Fields
  | .format v, f => { f with format := some v }
  | .logFilter v, f => { f with logFilter := some v }
  | .showSpans v, f => { f with showSpans := some v }
  | .other _ _, f => f

/-- A member's name is not among those that count once more. -/
def Member.IsNew (m : Member) (ms : List Member) : Prop :=
  m.name ∈ known → ∀ d ∈ ms, d.name ≠ m.name

theorem Gathers.set {ms : List Member} {f : Fields} (h : Gathers ms f) {m : Member}
    (hm : m.IsNew ms) : Gathers (ms ++ [m]) (m.set f) := by
  obtain ⟨hformat, hfilter, hspans⟩ := h
  cases m with
  | format v =>
    have hnone := hformat.eq_none (fun _ => rfl) (hm (Member.format_known v))
    rw [hnone] at hformat
    exact ⟨hformat.set (fun _ _ => Member.format.inj) v, hfilter.skip (by simp),
      hspans.skip (by simp)⟩
  | logFilter v =>
    have hnone := hfilter.eq_none (fun _ => rfl) (hm (Member.logFilter_known v))
    rw [hnone] at hfilter
    exact ⟨hformat.skip (by simp), hfilter.set (fun _ _ => Member.logFilter.inj) v,
      hspans.skip (by simp)⟩
  | showSpans v =>
    have hnone := hspans.eq_none (fun _ => rfl) (hm (Member.showSpans_known v))
    rw [hnone] at hspans
    exact ⟨hformat.skip (by simp), hfilter.skip (by simp),
      hspans.set (fun _ _ => Member.showSpans.inj) v⟩
  | other => exact ⟨hformat.skip (by simp), hfilter.skip (by simp), hspans.skip (by simp)⟩

/-- What is kept lies over the defaults. -/
theorem Gathers.overlays {ms : List Member} {f : Fields} (h : Gathers ms f) :
    Overlays ms (overlay f) :=
  ⟨h.format.chosen _, h.logFilter.chosen _, h.showSpans.chosen _⟩

/-! ## Members, read -/

section

variable {m : Member} {ms done : List Member} {f : Fields} {w : List Char} {ws : List (List Char)}
  {rest more after : List UInt8}

/-- A name that is not known is passed over with its value. -/
theorem member_of_unknown {name : List Char} (h : name ∉ known) (f : Fields) :
    member name f = (do memberPassed; pure f) := by
  have hne : ∀ s : String, s.toList ∈ known → String.ofList name ≠ s := fun s hs heq =>
    h (by rwa [← heq, String.toList_ofList] at hs)
  unfold member
  split
  · next hname => exact absurd hname (hne _ (Member.format_known .text))
  · next hname => exact absurd hname (hne _ (Member.logFilter_known []))
  · next hname => exact absurd hname (hne _ (Member.showSpans_known true))
  · rfl

/-- **A member is read** and kept where its field is still free. -/
theorem reads_member (hf : Gathers done f) (hm : m.IsNew done) {b c v : List Char} (hb : Blank b)
    (hc : Blank c) (hv : m.IsValue v) (hrest : Ends rest) :
    Reads (member m.name f)
      (Utf8.encode b ++ byte ':' :: (Utf8.encode c ++ (Utf8.encode v ++ rest))) (m.set f) rest := by
  obtain ⟨hformat, hfilter, hspans⟩ := hf
  cases m with
  | format k =>
    have hnone := hformat.eq_none (fun _ => rfl) (hm (Member.format_known k))
    have hmember : member (Member.format k).name f =
        (do
          let v ← memberOnce "format" f.format Format.reader
          pure { f with format := some v }) := rfl
    have hvalue : Reads Format.reader (Utf8.encode v ++ rest) k rest :=
      reads_plainVariant hv (by cases k <;> decide) rest
    have hbehind : BehindBlanks Format.reader := behindBlanks_afterBlanks_bind _
    rw [hmember, hnone]
    exact (reads_memberOnce _ hb hc hbehind hvalue).bind (.pure _ _)
  | logFilter s =>
    have hnone := hfilter.eq_none (fun _ => rfl) (hm (Member.logFilter_known s))
    have hmember : member (Member.logFilter s).name f =
        (do
          let v ← memberOnce "log_filter" f.logFilter textValue
          pure { f with logFilter := some v }) := rfl
    rw [hmember, hnone]
    exact (reads_memberOnce _ hb hc (behindBlanks_valueBy _ _) (reads_textValue hv rest)).bind
      (.pure _ _)
  | showSpans k =>
    have hnone := hspans.eq_none (fun _ => rfl) (hm (Member.showSpans_known k))
    have hmember : member (Member.showSpans k).name f =
        (do
          let v ← memberOnce "show_spans" f.showSpans booleanValue
          pure { f with showSpans := some v }) := rfl
    obtain rfl : v = boolean k := hv
    rw [hmember, hnone]
    exact (reads_memberOnce _ hb hc (behindBlanks_valueBy _ _) (reads_booleanValue k rest)).bind
      (.pure _ _)
  | other name hunknown =>
    have hmember : member (Member.other name hunknown).name f = (do memberPassed; pure f) :=
      member_of_unknown hunknown f
    rw [hmember]
    unfold memberPassed
    refine Reads.bind (a := ()) ?_ (.pure _ _)
    refine (behindBlanks_colon.reads hb (reads_colon _)).bind ?_
    exact reads_passValue hc hv hrest

/-- A member that is there already is refused by its name alone. -/
theorem refuses_memberOnce {α β : Type} {present : Option α} (h : present.isSome) (name : String)
    (value : Reader α) (next : α → Reader β) (before : List UInt8) :
    Refuses (memberOnce name present value >>= next) before (.duplicateField name) := by
  unfold memberOnce
  rw [if_pos h]
  exact (Refuses.failUnplaced _ _).bind next

/-- **A known name that was there is refused.** -/
theorem refuses_member (hf : Gathers done f) (hm : m ∈ done) (hname : m.name ∈ known)
    (before : List UInt8) :
    Refuses (member m.name f) before (.duplicateField (String.ofList m.name)) := by
  obtain ⟨hformat, hfilter, hspans⟩ := hf
  cases m with
  | format k => exact refuses_memberOnce (hformat.isSome hm) "format" _ _ before
  | logFilter s => exact refuses_memberOnce (hfilter.isSome hm) "log_filter" _ _ before
  | showSpans k => exact refuses_memberOnce (hspans.isSome hm) "show_spans" _ _ before
  | other name hunknown => exact absurd hname hunknown

/-! ## Members in a row -/

/-- What is kept after some members. -/
def collect (f : Fields) (ms : List Member) : Fields := ms.foldl (fun f m => m.set f) f

/-- Among members that come once, each is new behind those before it. -/
theorem Once.isNew (h : Once (done ++ m :: ms)) : m.IsNew done := by
  intro hknown d hd hname
  have hpair := (List.pairwise_append.1 h).2.2 d hd m List.mem_cons_self hname
  exact hpair (hname ▸ hknown)

theorem gathers_collect (hf : Gathers done f) (honce : Once (done ++ ms)) :
    Gathers (done ++ ms) (collect f ms) := by
  induction ms generalizing done f with
  | nil => rwa [List.append_nil]
  | cons m ms ih =>
    have hnext := ih (hf.set honce.isNew) (by rwa [List.append_assoc])
    rwa [List.append_assoc] at hnext

/-- **A member is read with what follows it.** -/
theorem gives_member {o : Except Fault Fields} (rounds : Nat) (first : Bool) (hf : Gathers done f)
    (hm : m.IsNew done) (hw : m.IsWritten w) (hmore : Ends more)
    (hnext : Gives (members member (rounds + 1) false (m.set f)) more o after) :
    Gives (members member (rounds + 2) first f)
      ((if first then [] else [byte ',']) ++ (Utf8.encode w ++ more)) o after := by
  obtain ⟨ha, hn, hv, hd⟩ := hw
  obtain ⟨hq, hb, hc⟩ := hn
  obtain ⟨hs⟩ := hq
  rw [Utf8.encode_append, List.append_assoc, Utf8.encode_append, List.append_assoc, encode_named,
    Utf8.encode_append, List.append_assoc]
  have hmember := reads_member hf hm hb hc hv (hmore.blank hd)
  have hall : Gives _ _ ((.ok (m.set f) : Except Fault Fields) >>= fun _ => o) after :=
    gives_members_next (o := .ok (m.set f)) first ha hs hmember fun g hg => by
      obtain rfl := Except.ok.inj hg
      exact (behindBlanks_members rounds false _).gives hd hnext
  exact hall

/-- **Members are read one after the other**, each behind a comma, and then
what follows them. -/
theorem gives_members_following {o : Except Fault Fields} (rounds : Nat)
    (hws : List.Forall₂ Member.IsWritten ms ws) (hf : Gathers done f) (honce : Once (done ++ ms))
    (hmore : Ends more)
    (hnext : Gives (members member (rounds + 1) false (collect f ms)) more o after) :
    Gives (members member (rounds + 1 + ms.length) false f) (following ws ++ more) o after := by
  induction hws generalizing done f with
  | nil => exact hnext
  | @cons m w ms ws hw _ ih =>
    have hrest := ih (hf.set honce.isNew) (by rwa [List.append_assoc]) hnext
    have hall := gives_member (rounds + ms.length) false hf honce.isNew hw
      (ends_following hmore ws) (by rwa [Nat.add_right_comm] at hrest)
    rw [following_cons, List.cons_append, List.append_assoc, List.length_cons]
    have hrounds : rounds + 1 + (ms.length + 1) = rounds + ms.length + 2 := by omega
    rw [hrounds]
    exact hall

theorem Member.IsWritten.length_pos (h : m.IsWritten w) : 0 < (Utf8.encode w).length := by
  obtain ⟨-, hn, -, -⟩ := h
  obtain ⟨hq, -, -⟩ := hn
  obtain ⟨-⟩ := hq
  rw [Utf8.encode_append, Utf8.encode_append, encode_named, List.length_append, List.length_cons]
  omega

/-- **The members of a document are read from its first one on**, and then
what follows them. -/
theorem gives_members_of_written {o : Except Fault Fields}
    (hws : List.Forall₂ Member.IsWritten (m :: ms) (w :: ws)) (honce : Once (m :: ms))
    (hmore : Ends more)
    (hnext : ∀ rounds,
      Gives (members member (rounds + 1) false (collect Fields.start (m :: ms))) more o after) :
    Gives (Reader.bounded fun rounds => members member rounds true Fields.start)
      (Utf8.encode w ++ (following ws ++ more)) o after := by
  obtain ⟨hw, hws⟩ := List.forall₂_cons.1 hws
  have honce' : Once (([] ++ [m]) ++ ms) := honce
  have hnew : m.IsNew [] := fun _ d hd => by cases hd
  have hlength := length_le_following ws
  have hpos := hw.length_pos
  refine Gives.bounded ?_
  obtain ⟨rounds, hrounds⟩ : ∃ n,
      (Utf8.encode w ++ (following ws ++ more)).length + 1 = n + ms.length + 2 := by
    refine ⟨(Utf8.encode w ++ (following ws ++ more)).length + 1 - (ms.length + 2), ?_⟩
    rw [hws.length_eq, List.length_append, List.length_append]
    omega
  have hrest := gives_members_following rounds hws (gathers_nil.set hnew) honce' hmore
    (hnext rounds)
  rw [hrounds]
  exact gives_member _ true gathers_nil hnew hw (ends_following hmore ws)
    (by rwa [Nat.add_right_comm] at hrest)

/-! ## Documents, read -/

theorem encode_braces (b : List Char) (rest : List UInt8) :
    Utf8.encode ('\x7b' :: (b ++ ['\x7d'])) ++ rest =
      byte '\x7b' :: (Utf8.encode b ++ byte '\x7d' :: rest) :=
  encode_frame .object b rest

/-- **The members of an object make the settings**, or fail them. -/
theorem gives_reader {before : List UInt8} {o : Except Fault Fields} (rest : List UInt8)
    (hmembers : Gives (Reader.bounded fun rounds => members member rounds true Fields.start) before
      o (byte '\x7d' :: rest)) :
    Gives reader (byte '\x7b' :: before) (o >>= fun f => .ok (overlay f)) rest :=
  gives_record hmembers (fun f _ => Reads.pure (overlay f) _) fun _ _ => reads_objectEnd rest

/-- What is given behind blanks is what comes of the document. -/
theorem read_of_gives_reader {text a c : List Char} {before : List UInt8}
    {o : Except Fault Settings} (htext : Utf8.encode text = Utf8.encode a ++ before) (ha : Blank a)
    (hc : Blank c) (h : Gives reader before o (Utf8.encode c)) :
    (read reader .held (Utf8.encode text)).mapError ReadError.fault = o := by
  have hbehind : BehindBlanks reader := behindBlanks_valueBy _ _
  rw [htext]
  exact read_of_gives (hbehind.gives ha h) hc .held

/-- **Settings that are read are those of the text**, -/
theorem ofText_of_reads {text a c : List Char} {before : List UInt8} {s : Settings}
    (htext : Utf8.encode text = Utf8.encode a ++ before) (ha : Blank a) (hc : Blank c)
    (h : Reads reader before s (Utf8.encode c)) : ofText text = .ok s := by
  have hread := read_of_gives_reader (o := .ok s) htext ha hc h
  unfold ofText ofDocument
  cases hresult : read reader .held (Utf8.encode text) with
  | ok t =>
    rw [hresult] at hread
    exact congrArg Except.ok (Except.ok.inj hread)
  | error e =>
    rw [hresult] at hread
    cases hread

/-- and a fault in them is that of the text. -/
theorem ofText_of_refuses {text a : List Char} {before : List UInt8} {fault : Fault}
    (htext : Utf8.encode text = Utf8.encode a ++ before) (ha : Blank a)
    (h : Refuses reader before fault) :
    ∃ e, ofText text = .error (.unreadable e) ∧ e.fault = fault := by
  have hread := read_of_gives_reader (o := .error fault) htext ha blank_nil h
  unfold ofText ofDocument
  cases hresult : read reader .held (Utf8.encode text) with
  | ok t =>
    rw [hresult] at hread
    cases hread
  | error e =>
    rw [hresult] at hread
    exact ⟨e, rfl, Except.error.inj hread⟩

/-- **A settings document is read** to what is gathered of its members. -/
theorem ofText_of_document (h : Document ms w) (honce : Once ms) :
    ofText w = .ok (overlay (collect Fields.start ms)) := by
  cases h with
  | @empty a b c ha hb hc =>
    refine ofText_of_reads (Utf8.encode_append a _) ha hc ?_
    rw [Utf8.encode_append, encode_braces]
    refine gives_reader (o := .ok Fields.start) _ (Gives.bounded ?_)
    exact (behindBlanks_members _ true _).reads hb (reads_members_end _ _ _)
  | @filled m ms w a c ws ha hws hc =>
    refine ofText_of_reads (Utf8.encode_append a _) ha hc ?_
    rw [Utf8.encode_append, encode_object]
    refine gives_reader (o := .ok (collect Fields.start (m :: ms))) _ ?_
    exact gives_members_of_written hws honce (.cons (by decide) _) fun rounds =>
      reads_members_end rounds _ _

/-- **What is read lies over the defaults.** -/
theorem overlays_of_document (h : Document ms w) (honce : Once ms) :
    ∃ s, ofText w = .ok s ∧ Overlays ms s :=
  ⟨_, ofText_of_document h honce, (gathers_collect gathers_nil honce).overlays⟩

/-- **Reading ends where a known name comes again.** -/
theorem ofText_of_repeats {name text : List Char} (h : Repeats name text) :
    ∃ e, ofText text = .error (.unreadable e) ∧ e.fault = .duplicateField (String.ofList name) := by
  cases h with
  | @again m ms w a b q rest ws ha hws honce hknown hname hb hq =>
    obtain ⟨hs⟩ := hq
    obtain ⟨d, hd, rfl⟩ := List.mem_map.1 hname
    have hgathers := gathers_collect gathers_nil honce
    refine ofText_of_refuses (Utf8.encode_append a _) ha ?_
    rw [encode_cons (by decide), Utf8.encode_append, encode_intercalate, List.append_assoc,
      encode_cons (by decide), Utf8.encode_append, Utf8.encode_append, encode_marks]
    refine gives_reader (o := .error (.duplicateField (String.ofList d.name))) [] ?_
    refine gives_members_of_written hws honce (.cons (by decide) _) fun rounds => ?_
    exact refuses_members_next false hb hs (refuses_member hgathers hd hknown _)

end

/-! ## What is printed -/

/-- The members of printed settings: all three. -/
def toMembers (s : Settings) : List Member :=
  [.format s.format, .logFilter s.logFilter, .showSpans s.showSpans]

/-- A printed member is written without blanks. -/
theorem Member.isWritten_member {m : Member} {name : String} {v : List Char}
    (hname : m.name = name.toList) (hv : m.IsValue v) : m.IsWritten (Json.member name v) := by
  have hnamed : Named m.name (text name.toList ++ ([] ++ ':' :: [])) :=
    .colon (hname ▸ quoted_text _) blank_nil blank_nil
  have hwritten := IsWritten.parts blank_nil hnamed hv blank_nil
  simpa [Json.member] using hwritten

/-- **What is printed of settings is a settings document.** -/
theorem document_toJson (s : Settings) : Document s.toMembers s.toJson := by
  have hformat : (Member.format s.format).IsWritten (Json.member "format" s.format.toJson) :=
    Member.isWritten_member rfl (quoted_text _)
  have hfilter : (Member.logFilter s.logFilter).IsWritten
      (Json.member "log_filter" (text s.logFilter)) :=
    Member.isWritten_member rfl (quoted_text _)
  have hspans : (Member.showSpans s.showSpans).IsWritten
      (Json.member "show_spans" (boolean s.showSpans)) := Member.isWritten_member rfl rfl
  have hdocument := Document.filled blank_nil (.cons hformat (.cons hfilter (.cons hspans .nil)))
    blank_nil
  rwa [List.nil_append, List.append_nil] at hdocument

theorem once_of_nodup {ms : List Member} (h : (ms.map Member.name).Nodup) : Once ms :=
  (List.pairwise_map.1 h).imp fun hne heq => absurd heq hne

theorem once_toMembers (s : Settings) : Once s.toMembers := by
  have hnames : known.Nodup := by decide
  exact once_of_nodup hnames

/-- **Printed settings come back.** -/
theorem ofText_toJson (s : Settings) : ofText s.toJson = .ok s :=
  ofText_of_document (document_toJson s) (once_toMembers s)

/-! ## The whole -/

/-- **Settings documents overlay the defaults**: whatever known members they
have, in whatever order and spelling, and whatever others between them. A
known name that comes twice does not fit, and printed settings come back. -/
theorem documents_overlay :
    (∀ ms w, Document ms w → Once ms → ∃ s, ofText w = .ok s ∧ Overlays ms s) ∧
      (∀ ms ns v w, Document ms v → Document ns w → Once ms → Once ns → SameKnown ms ns →
        ofText v = ofText w) ∧
      (∀ name w, Repeats name w → ∃ e, ofText w = .error (.unreadable e) ∧
        e.fault = .duplicateField (String.ofList name) ∧ e.fault.category = .mismatched) ∧
      ∀ s : Settings, ofText s.toJson = .ok s := by
  refine ⟨fun ms w => overlays_of_document, ?_, ?_, ofText_toJson⟩
  · intro ms ns v w hv hw hms hns hsame
    obtain ⟨s, hs, hover⟩ := overlays_of_document hv hms
    obtain ⟨t, ht, hover'⟩ := overlays_of_document hw hns
    rw [hs, ht, hover.unique hover' hsame]
  · intro name w h
    obtain ⟨e, he, hfault⟩ := ofText_of_repeats h
    exact ⟨e, he, hfault, by rw [hfault]; rfl⟩

/-- An unknown member with a list in it, a truth value, and the filter with
escapes in its name and in what it gives. -/
theorem documents_overlay_mixed :
    ofText (" \x7b\"zoom\" : [-1.5E+999,[ ]],\"show_spans\":true ,".toList ++
        "\"\\u006Cog_filter\":\"\\uD83D\\ude00\"\x7d".toList) =
      .ok ⟨.text, ['😀'], true⟩ ∧
    ∃ e, ofText "\x7b\"show_spans\":true, \"show_spans\"".toList = .error (.unreadable e) ∧
      e.fault = .duplicateField "show_spans" ∧ e.fault.category = .mismatched := by
  obtain ⟨hread, -, hrepeats, -⟩ := documents_overlay
  have hspace : Blank [' '] := by simp [Blank]
  have hnumber : Json.IsValue ['-', '1', '.', '5', 'E', '+', '9', '9', '9'] :=
    .scalar (.number (@IsNumber.parts ['-'] ['1'] ['.', '5'] ['E', '+', '9', '9', '9'] (by simp)
      ⟨⟨by simp, List.all_eq_true.1 rfl⟩, by simp⟩ (.point ⟨by simp, List.all_eq_true.1 rfl⟩)
      (@IsExponent.power 'E' ['+'] ['9', '9', '9'] (by simp) (by simp)
        ⟨by simp, List.all_eq_true.1 rfl⟩)))
  have hlist : Json.IsValue "[-1.5E+999,[ ]]".toList :=
    .filled .list blank_nil (.more .list hnumber blank_nil blank_nil
      (.last .list (.empty .list hspace) blank_nil))
  have hunknown : "zoom".toList ∉ known := by decide
  have hlabel : Named "zoom".toList "\"zoom\" : ".toList := .colon (quoted_text _) hspace hspace
  have hzoom : (Member.other "zoom".toList hunknown).IsWritten
      "\"zoom\" : [-1.5E+999,[ ]]".toList :=
    @Member.IsWritten.parts (.other _ hunknown) _ _ _ _ blank_nil hlabel hlist blank_nil
  have hspans : (Member.showSpans true).IsWritten (Json.member "show_spans" "true ".toList) :=
    @Member.IsWritten.parts (.showSpans true) _ _ _ _ blank_nil
      (.colon (quoted_text _) blank_nil blank_nil) rfl hspace
  have hletter : Spells 'l' "\\u006C".toList :=
    @Spells.unit 'l' _ (@CodeUnit.digits 0 0 6 12 '0' '0' '6' 'C' ⟨by decide, .inl rfl⟩
      ⟨by decide, .inl rfl⟩ ⟨by decide, .inl rfl⟩ ⟨by decide, .inr (by decide)⟩)
  have hname : Quoted "log_filter".toList "\"\\u006Cog_filter\"".toList :=
    .marks (.cons hletter (spelled_escape "og_filter".toList))
  have hface : Spells '😀' "\\uD83D\\ude00".toList :=
    @Spells.pair '😀' 0x3D 0x200 "D83D".toList "de00".toList (by decide) (by decide) (by decide)
      (@CodeUnit.digits 13 8 3 13 'D' '8' '3' 'D' ⟨by decide, .inr (by decide)⟩
        ⟨by decide, .inl rfl⟩ ⟨by decide, .inl rfl⟩ ⟨by decide, .inr (by decide)⟩)
      (@CodeUnit.digits 13 14 0 0 'd' 'e' '0' '0' ⟨by decide, .inl rfl⟩ ⟨by decide, .inl rfl⟩
        ⟨by decide, .inl rfl⟩ ⟨by decide, .inl rfl⟩)
  have hfilter : (Member.logFilter ['😀']).IsWritten
      "\"\\u006Cog_filter\":\"\\uD83D\\ude00\"".toList :=
    @Member.IsWritten.parts (.logFilter ['😀']) _ _ _ _ blank_nil
      (.colon hname blank_nil blank_nil) (Quoted.marks (.cons hface .nil)) blank_nil
  have hnames : ["zoom".toList, "show_spans".toList, "log_filter".toList].Nodup := by decide
  constructor
  · obtain ⟨s, hs, hover⟩ := hread _ _
      (.filled hspace (.cons hzoom (.cons hspans (.cons hfilter .nil))) blank_nil)
      (once_of_nodup hnames)
    have hformat : s.format = .text := hover.format.missing fun v hv => by simp at hv
    have hlog : s.logFilter = ['😀'] := hover.logFilter.given _ (by simp)
    have hshow : s.showSpans = true := hover.showSpans.given _ (by simp)
    obtain ⟨f, l, b⟩ := s
    subst hformat hlog hshow
    exact hs
  · have hfirst : (Member.showSpans true).IsWritten (Json.member "show_spans" (boolean true)) :=
      Member.isWritten_member rfl rfl
    exact hrepeats _ _ (.again blank_nil (.cons hfirst .nil) (List.pairwise_singleton _ _)
      (Member.showSpans_known true) (.head _) hspace (quoted_text "show_spans".toList))

end Settings

end Abacus
