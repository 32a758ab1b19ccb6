import Moo.Command.Catalogue
import Moo.Text.Class

/-!
# Source text

Source text is a sequence of words, maximal runs of word characters. A word that names a command
stands for it, and every other word is a comment. A text is of Unicode characters; the halves of
surrogate pairs, which no file in UTF-8 holds, are none.
-/

namespace Moo

/-- A word of the text and the half-open range of positions that it fills. -/
structure Token where
  text : String
  start : Nat
  stop : Nat
  deriving DecidableEq, Repr

namespace Token

/-- The word gathered so far, latest character first, as a token that ends at `stop`. -/
def ofGathered (gathered : List Char) (stop : Nat) : List Token :=
  if gathered.isEmpty then []
  else [⟨String.ofList gathered.reverse, stop - gathered.length, stop⟩]

/-- The words of the text from `pos` on, the first of which begins with the characters gathered. -/
def scan (pos : Nat) (gathered : List Char) : List Char → List Token
  | [] => ofGathered gathered pos
  | c :: rest =>
    if Text.isWord c then scan (pos + 1) (c :: gathered) rest
    else ofGathered gathered pos ++ scan (pos + 1) [] rest

def ofText (text : String) : List Token := scan 0 [] text.toList

inductive Role where
  | keyword
  | comment
  deriving DecidableEq, Repr

def Role.name : Role → String
  | .keyword => "keyword"
  | .comment => "comment"

def role (t : Catalogue) (token : Token) : Role :=
  if t.contains token.text then .keyword else .comment

end Token

namespace Catalogue

def program (t : Catalogue) (text : String) : List Command :=
  (Token.ofText text).filterMap fun token => t.named? token.text

def highlight (t : Catalogue) (text : String) : List (Token × Token.Role) :=
  (Token.ofText text).map fun token => (token, token.role t)

end Catalogue

end Moo
