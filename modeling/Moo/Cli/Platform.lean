import Moo.Schema.Validator

/-!
# Platforms

What the commands find where they run, and what hangs on it: the validator that receipts are checked
with, the room for cells, and the stack, which bounds how deep documents may nest. Output is UTF-8.
-/

namespace Moo.Cli

structure Platform where
  validator : Validator
  /-- There is room for so many cells. -/
  hasRoom : Int → Bool
  /-- How deep the values in a document may nest to be read. -/
  readDepth : Nat
  /-- How deep values may nest to be shown. -/
  showDepth : Nat
  /-- The steps after which a run without a limit is given up. -/
  patience : Nat

end Moo.Cli
