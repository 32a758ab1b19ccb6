import Moo.Cli.Checker
import Moo.Cli.Runner
import Moo.Schema.Check
import Std.Time.DateTime.Timestamp

/-!
# The command line

`cow PROGRAM` runs a program file; `cow --check RECEIPT` checks receipts. What the arguments name is
read from the file system beforehand, and what the command wrote is put there at the end.
-/

namespace Moo.Main

def look (path : String) : IO (Option Node) := do
  try
    return some (.file (← IO.FS.readBinFile path).data)
  catch
    | .inappropriateType .. => return some .directory
    | _ => return none

/-- The texts in an argument that may be paths: all of it, and what follows an equals sign. -/
def candidates (argument : String) : List String :=
  let (_, value) := Cli.splitEquals argument
  argument :: value.toList

def load (d : Disk) (raw : String) : IO Disk := do
  let path := Path.ofString raw
  let mut disk := d
  for count in List.range path.parts.length do
    let upTo : Path := { path with parts := path.parts.take (count + 1) }
    match disk.locate upTo with
    | .ok place =>
      if (disk.at? place).isNone then
        if let some node ← look upTo.toString then disk := disk.put place node
    | .error _ => pure ()
  return disk

/-- Write the files that are new or changed. -/
def store (before after : Disk) : IO Unit :=
  after.nodes.forM fun (place, node) => do
    match node with
    | .file bytes =>
      if before.at? place ≠ some node then
        IO.FS.writeBinFile ("/" ++ String.intercalate "/" place) ⟨bytes⟩
    | _ => pure ()

def usage : String :=
  "usage: cow [options] program\n" ++
  "       cow --check [--warnings-as-errors] receipts ...\n"

def finish (before : Disk) (o : Cli.Outcome) : IO UInt32 := do
  IO.print o.stdout
  IO.eprint o.stderr
  store before o.disk
  match o.ending with
  | .exit code => return code.toUInt32
  | .help =>
    IO.print usage
    return 0
  | .usage e =>
    IO.eprint (usage ++ "cow: error: " ++ e.message ++ "\n")
    return 2
  | .crash e =>
    IO.eprint ("cow: " ++ e.message ++ "\n")
    return 1

def stamp : IO Run.Stamp := do
  let now ← Std.Time.Timestamp.now
  let bytes ← IO.getRandomBytes 16
  return .of now.toSecondsSinceUnixEpoch.val.toNat bytes.data.toList

/-- The platform that the commands run on. No run makes as many steps as there is patience for. -/
def platform : Cli.Platform where
  validator := .reference 984
  hasRoom size := decide (size ≤ (Nat.pow 2 32 : Nat))
  readDepth := 990
  showDepth := 984
  patience := Nat.pow 2 62

def readPieces : IO (List (List UInt8)) := do
  let stdin ← IO.getStdin
  let mut pieces := #[]
  repeat
    let piece ← stdin.read 8192
    if piece.isEmpty then break
    pieces := pieces.push piece.data.toList
  return pieces.toList

end Moo.Main

open Moo Moo.Main

/-- Run a program file, or check receipts. Standard input is read only if the program is to be
served from it. -/
def main (arguments : List String) : IO UInt32 := do
  let home := (Path.ofString (toString (← IO.currentDir))).parts
  let disk ← (arguments.flatMap candidates).foldlM load (Disk.bare home)
  match arguments with
  | "--check" :: rest =>
    finish disk (Cli.Checker.main platform Cli.Checker.Unreadable.message rest disk)
  | _ =>
    let stdin ← match Cli.Settings.ofArguments arguments with
      | .settings s => if s.isScripted then pure [] else readPieces
      | _ => pure []
    finish disk (Cli.Runner.main platform arguments disk stdin (← stamp))
