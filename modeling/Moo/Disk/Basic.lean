import Moo.Disk.Path
import Moo.Text.Line

/-!
# Disks

A disk holds files and directories. A path starts at the root or at home, and is followed part by
part: every part but the last must be a directory that is there. Names and paths have a greatest
length.
-/

namespace Moo

/-- A file with its bytes, a directory, or the null device, which reads as empty and keeps nothing
that is written to it. -/
inductive Node where
  | file (bytes : Array UInt8)
  | directory
  | null
  deriving DecidableEq

/-- What is at which place. A place is given by the parts of its path from the root. -/
structure Disk where
  /-- The directory that relative paths start at. -/
  home : List String
  nodes : List (List String × Node)

inductive DiskError where
  | missing
  | isDirectory
  | notDirectory
  /-- The bytes of the file are not UTF-8. -/
  | notUtf8
  /-- No file can have this name. -/
  | badName
  /-- The path or a name in it is longer than allowed. -/
  | tooLong
  deriving DecidableEq, Repr

def DiskError.message : DiskError → String
  | .missing => "no such file or directory"
  | .isDirectory => "is a directory"
  | .notDirectory => "not a directory"
  | .notUtf8 => "not UTF-8"
  | .badName => "not a file name"
  | .tooLong => "file name too long"

namespace Disk

/-- A disk with nothing on it but the null device. -/
def bare (home : List String) : Disk :=
  ⟨home, [(["dev"], .directory), (["dev", "null"], .null)]⟩

def maxNameSize : Nat := 255

def maxPathSize : Nat := 4095

/-- What is at a place. Home is always there, and what it is in. -/
def at? (d : Disk) (place : List String) : Option Node :=
  if place.isPrefixOf d.home then some .directory
  else (d.nodes.find? fun n => n.1 == place).map (·.2)

def parents (place : List String) : List (List String) :=
  (List.range place.length).map place.take

/-- Put something at a place, in place of what was there, with the directories that it is in. -/
def put (place : List String) (node : Node) (d : Disk) : Disk :=
  let missing := (parents place).filter fun p => (d.at? p).isNone
  let kept := d.nodes.filter fun n => n.1 != place
  { d with nodes := kept ++ missing.map (·, .directory) ++ [(place, node)] }

/-- The place that parts lead to from a directory, where all parts but the last must be directories.
Nothing is above the root. -/
def follow (d : Disk) (place : List String) : List String → Except DiskError (List String)
  | [] => .ok place
  | part :: rest =>
    if part = ".." then follow d place.dropLast rest
    else if maxNameSize < part.utf8ByteSize then .error .tooLong
    else if rest.isEmpty then .ok (place ++ [part])
    else
      match d.at? (place ++ [part]) with
      | some .directory => follow d (place ++ [part]) rest
      | some _ => .error .notDirectory
      | none => .error .missing

def locate (d : Disk) (p : Path) : Except DiskError (List String) :=
  if p.parts.any fun part => part.toList.contains '\x00' then .error .badName
  else if maxPathSize < p.toString.utf8ByteSize then .error .tooLong
  else d.follow (if p.root = "" then d.home else []) p.parts

/-- A path leads to a file. Of a path that is too long it cannot be said. -/
def isFile (d : Disk) (p : Path) : Except DiskError Bool :=
  match d.locate p with
  | .ok place =>
    match d.at? place with
    | some (.file _) => .ok true
    | _ => .ok false
  | .error .tooLong => .error .tooLong
  | .error _ => .ok false

/-- The text of bytes, every line ending as a newline. -/
def decode? (bytes : Array UInt8) : Option String :=
  (String.fromUTF8? ⟨bytes⟩).map fun s => String.ofList (Text.unifyNewlines s.toList)

def readText (d : Disk) (p : Path) : Except DiskError String := do
  match d.at? (← d.locate p) with
  | some (.file bytes) =>
    match decode? bytes with
    | some text => return text
    | none => throw .notUtf8
  | some .directory => throw .isDirectory
  | some .null => return ""
  | none => throw .missing

/-- Write a text to a file, which is created if its directory is there. -/
def writeText (d : Disk) (p : Path) (text : String) : Except DiskError Disk := do
  let place ← d.locate p
  match d.at? place with
  | some .directory => throw .isDirectory
  | some .null => return d
  | _ => return d.put place (.file text.toUTF8.data)

end Disk

end Moo
