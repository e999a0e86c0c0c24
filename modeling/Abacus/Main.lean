import Abacus.Command.Run

/-!
# The program

Arguments, environment, standard input and the file system go into a run,
and its report goes out: the log and the failure to standard error, the
output to standard output.
-/

namespace Abacus

/-- All bytes of a stream. -/
partial def readStream (stream : IO.FS.Stream) (sofar : ByteArray) : IO ByteArray := do
  let chunk ← stream.read 65536
  if chunk.isEmpty then pure sofar else readStream stream (sofar ++ chunk)

/-- What stands under a path. -/
def readNode (path : List Char) : IO Node := do
  try
    let bytes ← IO.FS.readBinFile (String.ofList path)
    pure (.file bytes.toList)
  catch e =>
    match e with
    | .inappropriateType .. => pure .directory
    | _ => pure .absent

/-- The path that a run will look at. -/
def pathOf (arguments : List (List Char)) : Option (List Char) :=
  match CommandLine.request arguments with
  | .ok (.run o) => some o.config
  | _ => none

/-- Whether a run will read its input. -/
def readsInput (arguments : List (List Char)) : Bool :=
  match CommandLine.request arguments with
  | .ok (.run o) => o.expressions.isEmpty
  | _ => false

end Abacus

open Abacus in
/-- The program. -/
def main (args : List String) : IO UInt32 := do
  let arguments := args.map String.toList
  let node ← match pathOf arguments with
    | some path => readNode path
    | none => pure .absent
  let input ← if readsInput arguments then readStream (← IO.getStdin) .empty else pure .empty
  let logFilter ← IO.getEnv "RUST_LOG"
  let report := command arguments ⟨input.toList, fun _ => node, logFilter.map String.toList⟩
  let stderr ← IO.getStderr
  for l in report.log do
    stderr.putStr (String.ofList l ++ "\n")
  IO.print (String.ofList report.output)
  for f in report.failure do
    unless f.message.isEmpty do stderr.putStr (String.ofList f.message ++ "\n")
  return UInt32.ofNat report.exitCode
