import Abacus.Log.Directive
import Abacus.Log.Record

/-!
# Log filters — which records are let through

A filter is a list of directives. Of those that only look at where a record
comes from, the most specific one that applies decides. A directive that
names a span or a field of one opens that span, and lets through what
happens inside it, as long as the field has the value that is asked for.
-/

namespace Abacus

/-- The directives of a filter in order. -/
abbrev LogFilter := List Directive

/-- A place in the program that makes records or spans. Fields have names
and values. -/
structure LogSite where
  target : List Char
  level : Level
  span : Option (List Char)
  fields : List (List Char × List Char)
deriving DecidableEq

namespace LogSite

/-- The place of a record. -/
def ofRecord (r : LogRecord) : LogSite :=
  ⟨r.origin.target.toList, r.level, none, [("message".toList, r.message)]⟩

/-- The span around what comes from some origin. -/
def around? (o : Origin) : Option LogSite :=
  match o with
  | .command => none
  | .scan before =>
    some ⟨o.target.toList, .debug, some "tokenize".toList, [("self".toList, before.text)]⟩

/-- Whether a place has a field of a name. -/
def hasField (site : LogSite) (name : List Char) : Bool := site.fields.any fun f => f.1 == name

end LogSite

namespace Directive

/-- Whether a directive's target begins the target of a place. -/
def onTarget (d : Directive) (site : LogSite) : Bool :=
  match d.target with
  | none => true
  | some t => t.isPrefixOf site.target

/-- Whether a plain directive applies. A field counts for records only. -/
def applies (d : Directive) (site : LogSite) : Bool :=
  d.onTarget site && (site.span.isSome || d.field.all fun f => site.hasField f.name)

/-- Whether a directive of spans opens a span, whatever value it asks for. -/
def opensSpan (d : Directive) (site : LogSite) : Bool :=
  d.onTarget site && (d.span.isNone || site.span == d.span) &&
    d.field.all fun f => site.hasField f.name

/-- Whether a span has the value that a directive asks for, if any. -/
def acceptsValues (d : Directive) (site : LogSite) : Bool :=
  match d.field with
  | some ⟨name, some v⟩ => site.fields.any fun f => f.1 == name && v.accepts f.2
  | _ => true

end Directive

namespace LogFilter

/-! ## Reading filters -/

/-- The parts of a filter's text, those that are empty left out. -/
def parts (s : List Char) : List (List Char) :=
  (pieces s).filter fun p => !p.isEmpty
where
  pieces : List Char → List (List Char)
    | [] => [[]]
    | c :: cs =>
      match pieces cs with
      | [] => [[c]]
      | p :: ps => if c = ',' then [] :: p :: ps else (c :: p) :: ps

/-- A filter all of whose parts must be directives. -/
def read (s : List Char) : Except Misread LogFilter := (parts s).mapM Directive.read

/-- The directives among some texts. -/
def directives : List (List Char) → Except Misread LogFilter
  | [] => .ok []
  | p :: ps =>
    match Directive.read p with
    | .ok d => (directives ps).map (d :: ·)
    | .error .malformed => directives ps
    | .error .splitCharacter => .error .splitCharacter

/-- A filter of those parts that are directives. -/
def ofText (s : List Char) : Except Misread LogFilter := directives (parts s)

/-- **The filter in force**: the environment's, if there is one and all of
it is understood, else the fallback. No filter is in force where a
character would be split. -/
def choose (environment : Option (List Char)) (fallback : List Char) : Except Misread LogFilter :=
  match environment.map read with
  | some (.ok f) => .ok f
  | some (.error .splitCharacter) => .error .splitCharacter
  | _ => ofText fallback

/-! ## Applying filters -/

/-- The limit of the plain directive that decides about a place. Of two
equally specific ones the later decides. -/
def plainLimit (f : LogFilter) (site : LogSite) : Nat :=
  let applying := f.filter fun d => d.isPlain && d.applies site
  let best := applying.foldl (fun (best : Option Directive) d =>
    match best with
    | none => some d
    | some b => if b.moreSpecific d then some b else some d) none
  (best.map Directive.limit).getD 0

/-- The highest limit of any directive. -/
def highest (f : LogFilter) : Nat := (f.map Directive.limit).foldl max 0

/-- The directives that look at spans. Of those that look at the same the
last counts. -/
def ofSpans (f : LogFilter) : LogFilter :=
  (f.filter Directive.isOfSpans).foldl
    (fun kept d => kept.filter (fun e => !d.sameScope e) ++ [d]) []

/-- The limit inside a span that directives of spans open: the highest of
those that accept its values. -/
def limitInside (f : LogFilter) (site : LogSite) : Option Nat :=
  let opening := f.ofSpans.filter fun d => d.opensSpan site
  if opening.isEmpty then none
  else some (highest (opening.filter fun d => d.acceptsValues site))

/-- Whether some directive asks for the value of a field, which makes all
spans worth a look. -/
def looksAtValues (f : LogFilter) : Bool := f.any Directive.asksForValue

/-- Whether a level can be let through at all. -/
def mayPass (f : LogFilter) (l : Level) : Bool := f.looksAtValues || l.rank ≤ f.highest

/-- Whether a span is let through. -/
def passesSpan (f : LogFilter) (site : LogSite) : Bool :=
  f.mayPass site.level && ((f.limitInside site).isSome || site.level.rank ≤ f.plainLimit site)

/-- Whether a record is let through, with the span around it. -/
def passesRecord (f : LogFilter) (around : Option LogSite) (site : LogSite) : Bool :=
  let inside := match around with
    | none => 0
    | some span => if f.passesSpan span then (f.limitInside span).getD 0 else 0
  f.mayPass site.level && (site.level.rank ≤ inside || site.level.rank ≤ f.plainLimit site)

/-- **The line of a record**, if it is let through. -/
def line? (f : LogFilter) (r : LogRecord) : Option (List Char) :=
  let around := LogSite.around? r.origin
  if f.passesRecord around (.ofRecord r) then
    some (r.line ((around.map f.passesSpan).getD false))
  else none

end LogFilter

end Abacus
