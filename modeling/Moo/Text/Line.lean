import Moo.Text.Class

/-!
# Lines

A line ends after its first newline; the last one may lack it. In files a carriage return, alone or
before a newline, counts as a newline.
-/

namespace Moo.Text

/-- The lines of a text, each with its newline. -/
def lines : List Char → List (List Char)
  | [] => []
  | c :: rest =>
    if c = '\n' then ['\n'] :: lines rest
    else
      match lines rest with
      | [] => [[c]]
      | line :: more => (c :: line) :: more

def dropWhileEnd (p : Char → Bool) (cs : List Char) : List Char :=
  (cs.reverse.dropWhile p).reverse

/-- A line without the newlines and carriage returns at its end. -/
def chomp (cs : List Char) : List Char :=
  dropWhileEnd (fun c => c == '\n' || c == '\r') cs

def stripBy (p : Char → Bool) (cs : List Char) : List Char :=
  dropWhileEnd p (cs.dropWhile p)

/-- Every line ending written as one newline. -/
def unifyNewlines : List Char → List Char
  | [] => []
  | '\r' :: '\n' :: rest => '\n' :: unifyNewlines rest
  | c :: rest => (if c = '\r' then '\n' else c) :: unifyNewlines rest

end Moo.Text
