/-!
# Paths

A path is written with slashes. Empty parts and single dots mean nothing and are dropped; double
dots are kept, since what they mean hangs on what is on the disk.
-/

namespace Moo

structure Path where
  /-- The slashes in front: none, one, or exactly two. -/
  root : String
  parts : List String
  deriving DecidableEq, Repr

namespace Path

/-- The slashes that a path starts with. Three and more count as one. -/
def rootOf : List Char → String
  | '/' :: '/' :: '/' :: _ => "/"
  | '/' :: '/' :: _ => "//"
  | '/' :: _ => "/"
  | _ => ""

/-- Split at slashes; the part gathered so far comes with its latest character first. -/
def split (gathered : List Char) : List Char → List String
  | [] => [String.ofList gathered.reverse]
  | c :: rest =>
    if c = '/' then String.ofList gathered.reverse :: split [] rest else split (c :: gathered) rest

def ofString (s : String) : Path where
  root := rootOf s.toList
  parts := (split [] s.toList).filter fun part => part != "" && part != "."

/-- A path as it is shown; the path without parts is a dot. -/
def toString (p : Path) : String :=
  let shown := p.root ++ String.intercalate "/" p.parts
  if shown = "" then "." else shown

end Path

end Moo
