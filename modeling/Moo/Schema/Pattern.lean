import Moo.Json.Text

/-!
# Patterns

A pattern is anchored at both ends and goes piece by piece: a fixed text, so many characters of a
class, or at least one.
-/

namespace Moo

/-- A class of characters, as closed ranges. -/
abbrev CharClass := List (Char × Char)

def CharClass.contains (k : CharClass) (c : Char) : Bool := k.any fun (lo, hi) => lo ≤ c && c ≤ hi

def CharClass.shown (k : CharClass) : List Char :=
  '[' :: k.flatMap (fun (lo, hi) => [lo, '-', hi]) ++ [']']

inductive Piece where
  | text (cs : List Char)
  | times (k : CharClass) (count : Nat)
  | oneOrMore (k : CharClass)
  deriving DecidableEq, Repr

def Piece.shown : Piece → List Char
  | .text t => t
  | .times k count => k.shown ++ '\x7b' :: (toString count).toList ++ ['\x7d']
  | .oneOrMore k => k.shown ++ ['+']

abbrev Pattern := List Piece

def Pattern.shown (p : Pattern) : String :=
  String.ofList ('^' :: p.flatMap Piece.shown ++ ['$'])

end Moo
