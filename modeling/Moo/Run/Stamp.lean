import Moo.Text.Quoted

/-!
# Stamps

A run is stamped with the time in UTC, to the second, and with a random identifier.
-/

namespace Moo.Run

structure Stamp where
  timestamp : String
  uuid : String
  deriving DecidableEq, Repr

namespace Stamp

/-- The year, month and day of a day counted from the first of March of the year 0. Counting years
from March puts the leap day last, so the months before it have fixed lengths. -/
def civil (day : Nat) : Nat × Nat × Nat :=
  let era := day / 146097
  let dayOfEra := day % 146097
  let yearOfEra := (dayOfEra - dayOfEra / 1460 + dayOfEra / 36524 - dayOfEra / 146096) / 365
  let dayOfYear := dayOfEra - (365 * yearOfEra + yearOfEra / 4 - yearOfEra / 100)
  let march := (5 * dayOfYear + 2) / 153
  let month := if march < 10 then march + 3 else march - 9
  let year := era * 400 + yearOfEra + if month ≤ 2 then 1 else 0
  (year, month, dayOfYear - (153 * march + 2) / 5 + 1)

def padded (width n : Nat) : String :=
  let digits := toString n
  String.ofList (List.replicate (width - digits.length) '0') ++ digits

/-- The days from the first of March of the year 0 to the first of January 1970. -/
def epochDay : Nat := 719468

def timestampOf (seconds : Nat) : String :=
  let (year, month, day) := civil (seconds / 86400 + epochDay)
  let time := seconds % 86400
  padded 4 year ++ "-" ++ padded 2 month ++ "-" ++ padded 2 day ++ "T" ++
    padded 2 (time / 3600) ++ ":" ++ padded 2 (time / 60 % 60) ++ ":" ++ padded 2 (time % 60) ++ "Z"

/-- The identifier made of sixteen random bytes: six of their bits are replaced by the marks of a
random identifier, and the digits stand in five groups. -/
def uuidOf (bytes : List UInt8) : String :=
  let marked := bytes.mapIdx fun i b =>
    if i = 6 then (b &&& 0x0f) ||| 0x40 else if i = 8 then (b &&& 0x3f) ||| 0x80 else b
  let digits := marked.flatMap fun b => Text.hex 2 b.toNat
  String.intercalate "-" <| [(0, 8), (8, 4), (12, 4), (16, 4), (20, 12)].map
    fun ((start, size) : Nat × Nat) => String.ofList ((digits.drop start).take size)

def of (seconds : Nat) (bytes : List UInt8) : Stamp := ⟨timestampOf seconds, uuidOf bytes⟩

end Stamp

end Moo.Run
