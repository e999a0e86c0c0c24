import Abacus.Json.Shape
import Abacus.Settings

/-!
# Settings in JSON

Settings are an object of three members, each of which may be missing and
then has its default. Other members are passed over. Settings come from a
text or from a file; a file that is not there is an error unless the
defaults are asked for in its place.
-/

namespace Abacus

namespace Format

/-- A format in JSON. -/
def toJson (f : Format) : List Char := Json.text f.word.toList

/-- A format from JSON. -/
def reader : Json.Reader Format := Json.plainVariant (all.map word) ofWord?

end Format

namespace Settings

/-- Settings in JSON. -/
def toJson (s : Settings) : List Char :=
  Json.object
    [ Json.member "format" s.format.toJson, Json.member "log_filter" (Json.text s.logFilter),
      Json.member "show_spans" (Json.boolean s.showSpans) ]

/-- The settings that were read. -/
structure Fields where
  format : Option Format
  logFilter : Option (List Char)
  showSpans : Option Bool

/-- Settings where those that were read come over the defaults. -/
def overlay (f : Fields) : Settings where
  format := f.format.getD default.format
  logFilter := f.logFilter.getD default.logFilter
  showSpans := f.showSpans.getD default.showSpans

/-- A member of settings. -/
def member (name : List Char) (f : Fields) : Json.Reader Fields :=
  match String.ofList name with
  | "format" => do
    let v ← Json.memberOnce "format" f.format Format.reader
    pure { f with format := some v }
  | "log_filter" => do
    let v ← Json.memberOnce "log_filter" f.logFilter Json.textValue
    pure { f with logFilter := some v }
  | "show_spans" => do
    let v ← Json.memberOnce "show_spans" f.showSpans Json.booleanValue
    pure { f with showSpans := some v }
  | _ => do
    Json.memberPassed
    pure f

/-- Settings from the items of a list, which may end early. -/
def ofItems : Json.Reader Settings := do
  let format ← Json.fieldInOrder true (some <$> Format.reader) (pure none)
  let logFilter ← Json.fieldInOrder false (some <$> Json.textValue) (pure none)
  let showSpans ← Json.fieldInOrder false (some <$> Json.booleanValue) (pure none)
  pure (overlay ⟨format, logFilter, showSpans⟩)

/-- Settings from JSON. -/
def reader : Json.Reader Settings :=
  Json.record "CliConfig" ⟨none, none, none⟩ member (fun f => pure (overlay f)) ofItems

end Settings

/-- What stands under a path: nothing, a file with its bytes, or a
directory. -/
inductive Node
  | absent
  | file (bytes : List UInt8)
  | directory
deriving DecidableEq

/-- Why settings could not be had. -/
inductive SettingsError
  | notFound
  | isDirectory
  | unreadable (error : Json.ReadError)
deriving DecidableEq

namespace SettingsError

/-- The words for settings that could not be had. -/
def message : SettingsError → List Char
  | .notFound => "IO error: No such file or directory (os error 2)".toList
  | .isDirectory => "JSON parsing error: Is a directory (os error 21)".toList
  | .unreadable e => "JSON parsing error: ".toList ++ e.message

end SettingsError

namespace Settings

/-- Settings of a document. -/
def ofDocument (source : Json.Source) (bytes : List UInt8) : Except SettingsError Settings :=
  match Json.read reader source bytes with
  | .ok s => .ok s
  | .error e => .error (.unreadable e)

/-- **Settings from a text.** -/
def ofText (text : List Char) : Except SettingsError Settings :=
  ofDocument .held (Utf8.encode text)

/-- **Settings from a path.** -/
def ofNode : Node → Except SettingsError Settings
  | .absent => .error .notFound
  | .directory => .error .isDirectory
  | .file bytes => ofDocument .arriving bytes

/-- Settings from a path, or the defaults where nothing is there. -/
def ofNodeOrDefault : Node → Except SettingsError Settings
  | .absent => .ok default
  | n => ofNode n

end Settings

end Abacus
