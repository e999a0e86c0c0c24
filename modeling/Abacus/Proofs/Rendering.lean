import Abacus.Command.Run
import Abacus.Proofs.Written

/-!
# Rendering — what is printed fits on a line

Whatever the tokens are and whatever the format, what they are rendered as
is made of visible ASCII characters (`visible_render`): digits, names,
glyphs and the marks around them. So it has no newline in it, and the line
of an expression has one (`isLine_printedLine`).
-/

namespace Abacus

/-- The visible characters of ASCII, and the space. -/
def isVisible (c : Char) : Bool := 0x20 ≤ c.toNat && c.toNat ≤ 0x7e

/-- A text of visible characters. -/
def Visible (text : List Char) : Prop := ∀ c ∈ text, isVisible c

@[simp] theorem visible_nil : Visible [] := by simp [Visible]

@[simp] theorem visible_cons {c : Char} {text : List Char} :
    Visible (c :: text) ↔ isVisible c ∧ Visible text := List.forall_mem_cons

/-- Texts in a row are visible if each of them is. -/
@[simp] theorem visible_append {s t : List Char} : Visible (s ++ t) ↔ Visible s ∧ Visible t :=
  List.forall_mem_append

/-- Visible text is on one line. -/
theorem Visible.newline_not_mem {text : List Char} (h : Visible text) : '\n' ∉ text := fun hmem =>
  absurd (h '\n' hmem) (by decide)

/-- So are texts with something visible between them. -/
theorem Visible.intercalate {between : List Char} {texts : List (List Char)}
    (hbetween : Visible between) (h : ∀ t ∈ texts, Visible t) :
    Visible (between.intercalate texts) := by
  induction texts with
  | nil => simp
  | cons t ts ih =>
    have hts := ih fun u hu => h u (List.mem_cons_of_mem _ hu)
    cases ts with
    | nil => simpa using h t List.mem_cons_self
    | cons u us =>
      rw [List.intercalate_cons_cons, visible_append, visible_append]
      exact ⟨⟨h t List.mem_cons_self, hbetween⟩, hts⟩

/-! ## Numbers -/

/-- Digits are visible, and with them all that numbers are written in. -/
theorem isVisible_of_isDigit {c : Char} (h : c.isDigit) : isVisible c := by
  have hbounds : 48 ≤ c.toNat ∧ c.toNat ≤ 57 := by
    simpa [Char.isDigit, UInt32.le_iff_toNat_le] using h
  rw [isVisible, Bool.and_eq_true, decide_eq_true_eq, decide_eq_true_eq]
  omega

theorem visible_of_isDigit {ds : List Char} (h : ∀ c ∈ ds, c.isDigit) : Visible ds := fun c hc =>
  isVisible_of_isDigit (h c hc)

/-- Positions are written in digits. -/
theorem visible_toDigits (n : Nat) : Visible (Nat.toDigits 10 n) :=
  visible_of_isDigit (isDigit_toDigits n)

/-- So are the zeros that fill up a number. -/
theorem visible_zeros (n : Nat) : Visible (List.replicate n '0') := fun c hc => by
  rw [List.eq_of_mem_replicate hc]
  rfl

namespace Layout

/-- Digits around a point stay visible, however many zeros go in front or
behind. -/
theorem visible_spread (pointZero : Bool) {ds : List Char} (h : Visible ds) (place : Int) :
    Visible (spread pointZero ds place) := by
  have htake : Visible (ds.take place.toNat) := fun c hc => h c (List.mem_of_mem_take hc)
  have hdrop : Visible (ds.drop place.toNat) := fun c hc => h c (List.mem_of_mem_drop hc)
  have hzero : isVisible '0' := rfl
  have hpoint : isVisible '.' := rfl
  unfold spread
  split
  · simp [visible_zeros, h, hzero, hpoint]
  · dsimp only
    rw [visible_append, visible_append]
    refine ⟨⟨htake, visible_zeros _⟩, ?_⟩
    split
    · split <;> simp [hzero, hpoint]
    · exact visible_cons.2 ⟨hpoint, hdrop⟩

/-- So do digits with an exponent behind them, which has a sign of its own. -/
theorem visible_withExponent (plusSign : Bool) {ds : List Char} (h : Visible ds) (power : Int) :
    Visible (withExponent plusSign ds power) := by
  have htake : Visible (ds.take 1) := fun c hc => h c (List.mem_of_mem_take hc)
  have hdrop : Visible (ds.drop 1) := fun c hc => h c (List.mem_of_mem_drop hc)
  have hsign : Visible (if power < 0 then ['-'] else if plusSign then ['+'] else []) := by
    split
    · exact visible_cons.2 ⟨rfl, visible_nil⟩
    · split
      · exact visible_cons.2 ⟨rfl, visible_nil⟩
      · exact visible_nil
  have hfraction : Visible (if (ds.drop 1).isEmpty then [] else '.' :: ds.drop 1) := by
    split
    · exact visible_nil
    · exact visible_cons.2 ⟨rfl, hdrop⟩
  rw [withExponent, visible_append, visible_append, visible_cons, visible_append]
  exact ⟨⟨htake, hfraction⟩, rfl, hsign, visible_toDigits _⟩

/-- **A double is written in visible characters**, in every layout. -/
theorem visible_write (l : Layout) (x : Binary64) : Visible (l.write x) := by
  have hdecimal : ∀ d : Decimal, Visible (l.writeDecimal d) := by
    intro d
    have hdigits := visible_toDigits d.digits
    unfold writeDecimal
    split
    · exact visible_spread _ hdigits _
    · dsimp only
      split
      · exact visible_spread _ hdigits _
      · exact visible_withExponent _ hdigits _
  unfold write
  split
  · simp [isVisible]
  · rw [visible_append]
    constructor
    · split
      · exact visible_cons.2 ⟨rfl, visible_nil⟩
      · exact visible_nil
    · split
      · simp [isVisible]
      · exact hdecimal _

end Layout

/-! ## Tokens as text -/

/-- A token in text is a number or a glyph. -/
theorem Token.visible_text (t : Token) : Visible t.text := by
  cases t with
  | number v => exact Layout.visible_write _ v
  | operator o => cases o <;> exact visible_cons.2 ⟨rfl, visible_nil⟩
  | parenthesis p => cases p <;> exact visible_cons.2 ⟨rfl, visible_nil⟩

/-- With its span it is followed by positions. -/
theorem TokenSpan.visible_text (t : TokenSpan) : Visible t.text := by
  -- the token, an at-sign, and two numbers with two points between
  rw [TokenSpan.text, visible_append, visible_cons, visible_append, visible_cons, visible_cons]
  exact ⟨t.token.visible_text, rfl, visible_toDigits _, rfl, rfl, visible_toDigits _⟩

/-- Spaces between texts are visible too. -/
theorem visible_joinSpaced {texts : List (List Char)} (h : ∀ t ∈ texts, Visible t) :
    Visible (joinSpaced texts) :=
  Visible.intercalate (visible_cons.2 ⟨rfl, visible_nil⟩) h

/-! ## Tokens in JSON -/

namespace Json

/-- A number in JSON is a double, or the word for one that has no digits. -/
theorem visible_number (x : Binary64) : Visible (number x) := by
  unfold number
  split
  · exact Layout.visible_write _ x
  · simp [isVisible]

/-- What stands for a visible character in a text is visible. -/
theorem visible_escape {c : Char} (h : isVisible c) : Visible (escape c) := by
  have hlow : ¬ c.toNat < 0x20 := by
    simp only [isVisible, Bool.and_eq_true, decide_eq_true_eq] at h
    omega
  unfold escape
  simp only [hlow, if_false]
  split_ifs
  -- an escape is a backslash and a letter or a mark
  all_goals first
    | exact visible_cons.2 ⟨rfl, visible_cons.2 ⟨rfl, visible_nil⟩⟩
    | exact visible_cons.2 ⟨h, visible_nil⟩

/-- A visible text stays one between quotation marks: its escapes are visible. -/
theorem visible_text {s : List Char} (h : Visible s) : Visible (text s) := by
  rw [text, visible_cons, visible_append]
  refine ⟨rfl, fun c hc => ?_, visible_cons.2 ⟨rfl, visible_nil⟩⟩
  obtain ⟨d, hd, hc⟩ := List.mem_flatMap.1 hc
  exact visible_escape (h d hd) c hc

/-- A member is a name that is known, and its value. -/
theorem visible_member {name : String} (hname : name.toList.all isVisible) {value : List Char}
    (h : Visible value) : Visible (member name value) := by
  rw [member, visible_append, visible_cons]
  exact ⟨visible_text (List.all_eq_true.1 hname), rfl, h⟩

/-- What stands between brackets of any kind. -/
theorem visible_enclosed {opening closing : Char} (hopening : isVisible opening)
    (hclosing : isVisible closing) {items : List (List Char)} (h : ∀ i ∈ items, Visible i) :
    Visible (opening :: (List.intercalate [','] items ++ [closing])) := by
  rw [visible_cons, visible_append]
  exact ⟨hopening, Visible.intercalate (visible_cons.2 ⟨rfl, visible_nil⟩) h,
    visible_cons.2 ⟨hclosing, visible_nil⟩⟩

/-- Lists add brackets and commas. -/
theorem visible_array {items : List (List Char)} (h : ∀ i ∈ items, Visible i) :
    Visible (array items) := visible_enclosed rfl rfl h

/-- Objects add braces and commas. -/
theorem visible_object {members : List (List Char)} (h : ∀ m ∈ members, Visible m) :
    Visible (object members) := visible_enclosed rfl rfl h

end Json

open Json

/-- A token in JSON is an object with one member. -/
theorem Token.visible_toJson (t : Token) : Visible t.toJson := by
  cases t with
  | number v =>
    exact visible_object (List.forall_mem_singleton.2 (visible_member rfl (visible_number v)))
  | operator o =>
    have hname : Visible o.name.toList := by cases o <;> simp [Operator.name, isVisible]
    refine visible_object (List.forall_mem_singleton.2 ?_)
    exact visible_member rfl (Json.visible_text hname)
  | parenthesis p =>
    have hname : Visible p.name.toList := by cases p <;> simp [Parenthesis.name, isVisible]
    refine visible_object (List.forall_mem_singleton.2 ?_)
    exact visible_member rfl (Json.visible_text hname)

/-- A span in JSON is an object of positions. -/
theorem Span.visible_toJson (s : Span) : Visible s.toJson := by
  refine visible_object fun m hm => ?_
  simp only [List.mem_cons, List.not_mem_nil, or_false] at hm
  rcases hm with rfl | rfl | rfl | rfl <;> exact visible_member rfl (visible_toDigits _)

/-- A token with its span is an object of the two. -/
theorem TokenSpan.visible_toJson (t : TokenSpan) : Visible t.toJson := by
  refine visible_object fun m hm => ?_
  simp only [List.mem_cons, List.not_mem_nil, or_false] at hm
  rcases hm with rfl | rfl
  · exact visible_member rfl t.token.visible_toJson
  · exact visible_member rfl t.span.visible_toJson

/-! ## Lines -/

/-- **Tokens are rendered in visible characters**, whatever they are. -/
theorem visible_render (format : Format) (showSpans : Bool) (tokens : List TokenSpan) :
    Visible (render format showSpans tokens) := by
  unfold render
  split
  · refine visible_joinSpaced fun text htext => ?_
    obtain ⟨t, -, rfl⟩ := List.mem_map.1 htext
    exact t.visible_text
  · refine visible_joinSpaced fun text htext => ?_
    obtain ⟨t, -, rfl⟩ := List.mem_map.1 htext
    exact t.visible_text
  · refine visible_array fun item hitem => ?_
    obtain ⟨t, -, rfl⟩ := List.mem_map.1 hitem
    exact t.visible_toJson
  · refine visible_array fun item hitem => ?_
    obtain ⟨t, -, rfl⟩ := List.mem_map.1 hitem
    exact t.visible_toJson

/-- **The line of an expression**: its tokens, rendered, and a newline. -/
def printedLine (format : Format) (showSpans : Bool) (expression : List Char) : List Char :=
  render format showSpans (tokenize expression) ++ ['\n']

/-- What a line tells of an expression. -/
inductive Tells (expression : List Char) : Format → Bool → List Char → Prop
  /-- Its tokens as an expression. -/
  | text : Tells expression .text false (formatTokens (parse expression))
  /-- Its tokens with the bytes they stand at. -/
  | textSpans : Tells expression .text true (joinSpaced ((tokenize expression).map fun t =>
      t.token.text ++ "@".toList ++ Nat.toDigits 10 t.span.start ++ "..".toList ++
        Nat.toDigits 10 t.span.stop))
  /-- Its tokens in JSON. -/
  | json : Tells expression .json false (Json.array ((parse expression).map Token.toJson))
  /-- Its tokens with their spans in JSON. -/
  | jsonSpans : Tells expression .json true
      (Json.array ((tokenize expression).map TokenSpan.toJson))

/-- **A line that tells of an expression** and of nothing else. -/
structure IsLine (format : Format) (showSpans : Bool) (expression line : List Char) : Prop where
  /-- It ends with its only newline. -/
  ends : line.getLast? = some '\n' ∧ line.count '\n' = 1
  /-- Before that stands what there is to tell. -/
  tells : Tells expression format showSpans line.dropLast

/-- **A line tells the tokens of its expression**, in each of the four ways to
print them. -/
theorem tells_render (format : Format) (showSpans : Bool) (expression : List Char) :
    Tells expression format showSpans (render format showSpans (tokenize expression)) := by
  cases format with
  | text =>
    cases showSpans with
    | false => exact .text
    | true =>
      have htext : TokenSpan.text = fun t => t.token.text ++ "@".toList ++
          Nat.toDigits 10 t.span.start ++ "..".toList ++ Nat.toDigits 10 t.span.stop := by
        funext t
        simp [TokenSpan.text]
      rw [render, htext]
      exact .textSpans
  | json =>
    cases showSpans with
    | false => exact .json
    | true => exact .jsonSpans

/-- **What is printed for an expression is a line of it.** Its only newline is
the last character. -/
theorem isLine_printedLine (format : Format) (showSpans : Bool) (expression : List Char) :
    IsLine format showSpans expression (printedLine format showSpans expression) where
  ends := by
    have hnone := (visible_render format showSpans (tokenize expression)).newline_not_mem
    rw [printedLine, List.getLast?_concat, List.count_append, List.count_eq_zero.2 hnone]
    exact ⟨rfl, rfl⟩
  tells := by
    rw [printedLine, List.dropLast_concat]
    exact tells_render format showSpans expression

end Abacus
