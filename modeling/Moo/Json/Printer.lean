import Moo.Json.Basic
import Moo.Number.Shortest

/-!
# Printing JSON

Documents are ASCII: everything beyond is escaped by UTF-16 units. The indented form sorts the
members of each object by name and puts each item on a line of its own; the compact form has no
blanks and keeps the order of the members.
-/

namespace Moo.Json

open Text (hex)

def escapeUnit (n : Nat) : List Char := '\\' :: 'u' :: hex 4 n

def escapeChar (c : Char) : List Char :=
  if c = '\x22' then ['\\', '\x22']
  else if c = '\\' then ['\\', '\\']
  else if c = '\n' then ['\\', 'n']
  else if c = '\r' then ['\\', 'r']
  else if c = '\t' then ['\\', 't']
  else if c = '\x08' then ['\\', 'b']
  else if c = '\x0c' then ['\\', 'f']
  else if 32 ≤ c.toNat ∧ c.toNat < 127 then [c]
  else if c.toNat < 0x10000 then escapeUnit c.toNat
  else
    let n := c.toNat - 0x10000
    escapeUnit (0xd800 + n / 0x400) ++ escapeUnit (0xdc00 + n % 0x400)

def escapePoint (p : CodePoint) : List Char :=
  match p.char? with
  | some c => escapeChar c
  | none => escapeUnit p.val

def encodeString (s : JsonText) : String :=
  String.ofList ('\x22' :: s.points.flatMap escapePoint ++ ['\x22'])

def encodeDouble : Binary64 → String
  | .nan => "NaN"
  | .infinite negative => if negative then "-Infinity" else "Infinity"
  | x => x.toText

def sortMembers (members : List (JsonText × α)) : List (JsonText × α) :=
  members.mergeSort fun a b => a.1.le b.1

def newline (depth : Nat) : String := "\n" ++ String.ofList (List.replicate (2 * depth) ' ')

/-- Encoded items between brackets, each on its own line one step deeper. -/
def block (opening closing : String) (depth : Nat) (items : List String) : String :=
  if items.isEmpty then opening ++ closing
  else
    opening ++ newline (depth + 1) ++ String.intercalate ("," ++ newline (depth + 1)) items ++
      newline depth ++ closing

mutual

/-- The indented document of a value that stands at a depth. -/
def prettyAt (depth : Nat) : Json → String
  | .null => "null"
  | .bool b => if b then "true" else "false"
  | .int n => toString n
  | .float x => encodeDouble x
  | .str s => encodeString s
  | .arr items => block "[" "]" depth (prettyItems (depth + 1) items)
  | .obj members =>
    block "\x7b" "\x7d" depth ((sortMembers (prettyMembers (depth + 1) members)).map fun m =>
      encodeString m.1 ++ ": " ++ m.2)

def prettyItems (depth : Nat) : List Json → List String
  | [] => []
  | v :: rest => prettyAt depth v :: prettyItems depth rest

def prettyMembers (depth : Nat) : List (JsonText × Json) → List (JsonText × String)
  | [] => []
  | (k, v) :: rest => (k, prettyAt depth v) :: prettyMembers depth rest

end

/-- The indented document of a value, members sorted by name. -/
def pretty (v : Json) : String := prettyAt 0 v

mutual

def compact : Json → String
  | .null => "null"
  | .bool b => if b then "true" else "false"
  | .int n => toString n
  | .float x => encodeDouble x
  | .str s => encodeString s
  | .arr items => "[" ++ String.intercalate "," (compactItems items) ++ "]"
  | .obj members => "\x7b" ++ String.intercalate "," (compactMembers members) ++ "\x7d"

def compactItems : List Json → List String
  | [] => []
  | v :: rest => compact v :: compactItems rest

def compactMembers : List (JsonText × Json) → List String
  | [] => []
  | (k, v) :: rest => (encodeString k ++ ":" ++ compact v) :: compactMembers rest

end

end Moo.Json
