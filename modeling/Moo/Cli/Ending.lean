import Moo.Cli.Arguments
import Moo.Disk.Basic
import Moo.Run.ReceiptSchema
import Moo.Run.Session

/-!
# How a command ends
-/

namespace Moo.Cli

/-- What a command does not turn into an exit code. -/
inductive Crash where
  | disk (e : DiskError)
  | run (e : Run.Failure)
  /-- The run was given too few steps to come to an end. -/
  | unfinished
  /-- A number was given without a value. -/
  | noNumber
  /-- There is no room for so many cells. -/
  | noMemory (size : Int)
  /-- The bytes on standard input are no text. -/
  | inputNotText
  /-- There is no list of what is wrong with a receipt. -/
  | unlisted (e : Run.Receipt.Unlisted)
  /-- A receipt that is no object. -/
  | notAnObject
  /-- A log that is no list. -/
  | notAList
  /-- A status or a warning that cannot be shown. -/
  | unshowable (e : ShowError)
  /-- A text that standard output does not take. -/
  | notEncodable
  deriving DecidableEq, Repr

def Crash.message : Crash → String
  | .disk e => e.message
  | .run e => e.message
  | .unfinished => "the run did not end"
  | .noNumber => "a number is missing"
  | .noMemory size => "no room for " ++ toString size ++ " cells"
  | .inputNotText => "standard input is not UTF-8"
  | .unlisted e => e.message
  | .notAnObject => "the receipt is not an object"
  | .notAList => "the log is not a list"
  | .unshowable e => e.message
  | .notEncodable => "a text is not Unicode"

inductive Ending where
  | exit (code : Nat)
  | usage (e : UsageError)
  | help
  | crash (e : Crash)
  deriving DecidableEq, Repr

/-- What a command has written when it ends, and the disk it leaves. -/
structure Outcome where
  ending : Ending
  stdout : String
  stderr : String
  disk : Disk

namespace Outcome

def silent (ending : Ending) (disk : Disk) : Outcome := ⟨ending, "", "", disk⟩

/-- Write to standard output before everything else. -/
def after (shown : String) (o : Outcome) : Outcome := { o with stdout := shown ++ o.stdout }

def afterErrors (shown : String) (o : Outcome) : Outcome := { o with stderr := shown ++ o.stderr }

theorem after_empty (o : Outcome) : o.after "" = o := by
  unfold after
  rw [String.empty_append]

theorem after_after (a b : String) (o : Outcome) : (o.after b).after a = o.after (a ++ b) := by
  unfold after
  rw [String.append_assoc]

theorem silent_after (ending : Ending) (disk : Disk) (shown : String) :
    (silent ending disk).after shown = ⟨ending, shown, "", disk⟩ := by
  unfold after silent
  rw [String.append_empty]

end Outcome

end Moo.Cli
