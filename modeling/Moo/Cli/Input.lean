import Moo.Disk.Basic

/-!
# Standard input

Standard input is bytes, which arrive in pieces and are read as UTF-8 with every line ending as a
newline. Each piece is decoded as a whole when it has arrived: the bytes of a character may be cut
off at the end of one piece and go on in the next. A piece that shows that the bytes are no text
makes the read fail that needs it, so what can be read of such input are the lines that were
complete before.
-/

namespace Moo.Cli

/-- The text that can be read. If the input is not intact, reading on behind the text fails. -/
structure Input where
  text : String
  intact : Bool
  deriving DecidableEq, Repr

namespace Input

def decode? (bytes : List UInt8) : Option (List Char) :=
  (String.fromUTF8? ⟨bytes.toArray⟩).map String.toList

/-- The bytes begin a character and do not end it, as far as the first two of them tell. Those that
would begin half of a surrogate pair show only with the third that they do not. -/
def isCutOff : List UInt8 → Bool
  | [] => false
  | lead :: rest =>
    let size := if lead < 0xe0 then 2 else if lead < 0xf0 then 3 else 4
    let least := if lead = 0xe0 then 0xa0 else if lead = 0xf0 then 0x90 else 0x80
    let most := if lead = 0xf4 then 0x8f else 0xbf
    decide (0xc2 ≤ lead ∧ lead ≤ 0xf4 ∧ rest.length + 1 < size) &&
      (rest.head?.all fun b => decide (least ≤ b ∧ b ≤ most)) &&
      rest.all fun b => decide (0x80 ≤ b ∧ b ≤ 0xbf)

/-- The characters of the bytes, without the last one if it is cut off. -/
def decodeStart? (bytes : List UInt8) : Option (List Char) :=
  [0, 1, 2, 3].findSome? fun count =>
    let (whole, rest) := bytes.splitAt (bytes.length - count)
    if rest.isEmpty || isCutOff rest then decode? whole else none

/-- The bytes that arrived before it showed that they are no text. -/
def undoubted (arrived : List UInt8) : List (List UInt8) → List UInt8
  | [] => arrived
  | piece :: rest =>
    if (decodeStart? (arrived ++ piece)).isSome then undoubted (arrived ++ piece) rest else arrived

/-- The lines that are complete. A carriage return at the end waits for the newline that may
follow. -/
def completeLines (cs : List Char) : List Char :=
  let settled := if cs.getLast? = some '\r' then cs.dropLast else cs
  Text.dropWhileEnd (· != '\n') (Text.unifyNewlines settled)

def ofPieces (pieces : List (List UInt8)) : Input :=
  match Disk.decode? pieces.flatten.toArray with
  | some text => ⟨text, true⟩
  | none => ⟨String.ofList (completeLines ((decodeStart? (undoubted [] pieces)).getD [])), false⟩

end Input

end Moo.Cli
