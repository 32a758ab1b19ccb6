import Moo.Json.Shown
import Moo.Schema.Basic
import Moo.Schema.Path

/-!
# Validators

A validator lists what violates a schema in a value: where it is, and a message that shows it. It
fails where a message cannot show its value. The validator that programs run with is not written
here; it is a parameter of whatever uses one.
-/

namespace Moo

structure Violation where
  path : JsonPath
  message : JsonText
  deriving DecidableEq, Repr

inductive Rejection where
  | violation (v : Violation)
  | unshowable (e : ShowError)
  deriving DecidableEq, Repr

structure Validator where
  /-- All violations of a schema in a value, in the order in which they are found. -/
  violations : Schema → Json → Except ShowError (List Violation)
  /-- Nothing, if the value satisfies the schema. -/
  validate : Schema → Json → Except Rejection Unit

namespace Violation

def shown (v : Violation) : JsonText := v.path.shown ++ ": " ++ v.message

/-- Violations in order of their paths, those with one path as they were found. There is no such
order if two paths cannot be compared. -/
def sorted? (found : List Violation) : Option (List Violation) :=
  if found.all fun a => found.all fun b => (a.path.le? b.path).isSome then
    some (found.mergeSort fun a b => a.path.le b.path)
  else none

end Violation

end Moo
