import Moo.Text.Quoted

/-!
# Text in JSON

An escape in a document can stand for one half of a surrogate pair. A text in JSON is therefore a
sequence of code points: every character has one, and so has every half. Texts are ordered by their
code points. A text with halves is no Unicode text, and no stream that takes UTF-8 can take it.
-/

namespace Moo

abbrev CodePoint := Fin 0x110000

namespace CodePoint

def ofChar (c : Char) : CodePoint := ⟨c.toNat, by
  have h := c.valid
  simp only [UInt32.isValidChar, Nat.isValidChar] at h
  change c.val.toNat < 1114112
  omega⟩

/-- The character of a code point, unless it is half a pair. -/
def char? (p : CodePoint) : Option Char :=
  if p.val.isValidChar then some (Char.ofNat p.val) else none

end CodePoint

structure JsonText where
  points : List CodePoint
  deriving DecidableEq, Repr, Inhabited

namespace JsonText

def ofString (s : String) : JsonText := ⟨s.toList.map CodePoint.ofChar⟩

instance : Coe String JsonText := ⟨ofString⟩

instance : Append JsonText := ⟨fun s t => ⟨s.points ++ t.points⟩⟩

def intercalate (between : JsonText) (texts : List JsonText) : JsonText :=
  ⟨between.points.intercalate (texts.map points)⟩

/-- The string of a text that has no halves. -/
def string? (t : JsonText) : Option String := (t.points.mapM CodePoint.char?).map String.ofList

/-- The first list comes no later than the second. -/
def lePoints : List CodePoint → List CodePoint → Bool
  | [], _ => true
  | _ :: _, [] => false
  | a :: s, b :: t => if a = b then lePoints s t else decide (a < b)

def le (s t : JsonText) : Bool := lePoints s.points t.points

/-- The text as a string in which each half is escaped. -/
def escaped (t : JsonText) : String :=
  String.ofList <| t.points.flatMap fun p =>
    match p.char? with
    | some c => [c]
    | none => '\\' :: 'u' :: Text.hex 4 p.val

/-- One code point between quotes `q`; half a pair is always escaped. -/
def escape (q : Char) (p : CodePoint) : List Char :=
  match p.char? with
  | some c => Text.escape q c
  | none => '\\' :: 'u' :: Text.hex 4 p.val

def quote (t : JsonText) : String :=
  let q := Text.quoteFor (t.points.filterMap CodePoint.char?)
  String.ofList (q :: t.points.flatMap (escape q) ++ [q])

end JsonText

theorem CodePoint.char?_ofChar (c : Char) : (ofChar c).char? = some c := by
  have h : c.toNat.isValidChar := c.valid
  simp [ofChar, char?, h]

theorem JsonText.string?_ofString (s : String) : (ofString s).string? = some s := by
  have h : ∀ cs : List Char, (cs.map CodePoint.ofChar).mapM CodePoint.char? = some cs := by
    intro cs
    induction cs with
    | nil => rfl
    | cons c cs ih => simp [CodePoint.char?_ofChar, ih]
  simp [string?, ofString, h]

end Moo
