import Moo.Schema.Pattern

/-!
# Searching for patterns

A pattern is found in a text that its pieces make up in order, and also where one newline follows
them, which the anchor at the end lets through. No piece takes half of a surrogate pair.
-/

namespace Moo

namespace Piece

/-- What can be left after so many characters of the class. -/
def restAfter (k : CharClass) : (count : Nat) → List Char → List (List Char)
  | 0, cs => [cs]
  | _ + 1, [] => []
  | count + 1, c :: cs => if k.contains c then restAfter k count cs else []

/-- What can be left after any number of characters of the class, the shortest first. -/
def restsAfterMany (k : CharClass) : List Char → List (List Char)
  | [] => [[]]
  | c :: cs => if k.contains c then restsAfterMany k cs ++ [c :: cs] else [c :: cs]

def rests : Piece → List Char → List (List Char)
  | .text t, cs => if t.isPrefixOf cs then [cs.drop t.length] else []
  | .times k count, cs => restAfter k count cs
  | .oneOrMore k, cs =>
    match cs with
    | [] => []
    | c :: cs => if k.contains c then restsAfterMany k cs else []

end Piece

namespace Pattern

/-- The pieces in order make up the characters, up to one newline at the end. -/
def matchesChars : Pattern → List Char → Bool
  | [], cs => cs == [] || cs == ['\n']
  | p :: ps, cs => (p.rests cs).any (matchesChars ps)

def isFoundIn (p : Pattern) (t : JsonText) : Bool :=
  match t.string? with
  | some s => matchesChars p s.toList
  | none => false

end Pattern

end Moo
