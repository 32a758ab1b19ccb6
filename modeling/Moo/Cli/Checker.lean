import Moo.Cli.Ending
import Moo.Cli.Platform
import Moo.Json.Parser
import Moo.Run.ReceiptSchema

/-!
# The checker

The checker reads receipts from files and says of each whether it is readable and satisfies the
schema, and which warnings its log carries. Warnings count as errors on request. A document that is
no object, a log that is no list, and a text that cannot be shown or printed end the checker.
-/

namespace Moo.Cli.Checker

inductive Unreadable where
  | disk (e : DiskError)
  | notJson
  deriving DecidableEq, Repr

def Unreadable.message : Unreadable → String
  | .disk e => e.message
  | .notJson => "not a JSON document"

structure Settings where
  receipts : List String
  strict : Bool
  deriving DecidableEq, Repr

def grammar : Grammar where
  switches := [.help, .flag "--warnings-as-errors"]
  slot := "receipts"
  many := true

def take (s : Settings) (complaint : Option UsageError) : List Given → Except Ending Settings
  | [] =>
    match complaint with
    | some e => .error (.usage e)
    | none => .ok s
  | .help :: _ => .error .help
  | .slot arguments :: rest => take { s with receipts := arguments } complaint rest
  | .flag _ :: rest => take { s with strict := true } complaint rest
  | .value _ _ :: rest => take s complaint rest

def read (P : Platform) (disk : Disk) (path : Path) : Except Unreadable Json :=
  match disk.readText path with
  | .error e => .error (.disk e)
  | .ok text =>
    match Json.parse? P.readDepth text with
    | some v => .ok v
    | none => .error .notJson

def isWarning (entry : Json) : Bool :=
  match entry.field? "level" with
  | some (.str level) => level == "warning"
  | _ => false

def message (entry : Json) : Json := (entry.field? "message").getD (.text "")

/-- The warnings of a log. An absent or empty log has none, and neither have a text or an object. -/
def warnings (logs : Option Json) : Except Crash (List Json) :=
  match logs with
  | none => .ok []
  | some v =>
    if !v.isTruthy then .ok []
    else
      match v with
      | .arr entries => .ok ((entries.filter isWarning).map message)
      | .str _ => .ok []
      | .obj _ => .ok []
      | _ => .error .notAList

inductive Judgement where
  | unreadable (reason : Unreadable)
  | invalid (problems : List JsonText) (warnings : List Json)
  | good (status : Json) (warnings : List Json)

def judgeDocument (P : Platform) (v : Json) : Except Crash Judgement := do
  let problems ← (Run.Receipt.problems P.validator v).mapError .unlisted
  match v with
  | .obj members =>
    let warnings ← warnings (Json.member? "logs" members)
    if problems.isEmpty then
      return .good ((Json.member? "status" members).getD .null) warnings
    else return .invalid problems warnings
  | _ => throw .notAnObject

def judge (P : Platform) (disk : Disk) (path : Path) : Except Crash Judgement :=
  match read P disk path with
  | .error reason => .ok (.unreadable reason)
  | .ok v => judgeDocument P v

def Judgement.fails (strict : Bool) : Judgement → Bool
  | .unreadable _ => true
  | .invalid _ _ => true
  | .good _ warnings => strict && !warnings.isEmpty

/-! ## Printing -/

/-- What has been printed, and what put an end to it. -/
structure Printed where
  text : String
  crash? : Option Crash
  deriving DecidableEq, Repr

namespace Printed

def ofString (s : String) : Printed := ⟨s, none⟩

/-- Print on, unless that has come to an end. -/
def andThen (a b : Printed) : Printed :=
  match a.crash? with
  | none => ⟨a.text ++ b.text, b.crash?⟩
  | some _ => a

def all : List Printed → Printed
  | [] => ofString ""
  | a :: rest => a.andThen (all rest)

/-- A text goes out as a whole or not at all. -/
def ofText (t : JsonText) : Printed :=
  match t.string? with
  | some s => ofString s
  | none => ⟨"", some .notEncodable⟩

def ofShown (t : Except ShowError JsonText) : Printed :=
  match t with
  | .ok t => ofText t
  | .error e => ⟨"", some (.unshowable e)⟩

end Printed

/-- A line for a problem. The dash goes out before the problem does. -/
def problemLine (t : JsonText) : Printed :=
  (Printed.ofString " - ").andThen ((Printed.ofText t).andThen (.ofString "\n"))

def warningLine (P : Platform) (w : Json) : Printed :=
  (Printed.ofString " - warning: ").andThen
    ((Printed.ofShown (w.display P.showDepth)).andThen (.ofString "\n"))

/-- The line for a good receipt, which is put together before it goes out. -/
def goodLine (P : Platform) (path : String) (status : Json) : Printed :=
  .ofShown do return path ++ ": ok (status=" ++ (← status.display P.showDepth) ++ ")\n"

/-- The judgement as it is printed; `explain` says why a receipt cannot be read. -/
def Judgement.print (P : Platform) (explain : Unreadable → String) (path : String) :
    Judgement → Printed
  | .unreadable reason =>
    .ofString (path ++ ": failed to read receipt JSON: " ++ explain reason ++ "\n")
  | .invalid problems warnings =>
    .all (.ofString (path ++ ": INVALID\n") :: problems.map problemLine ++
      warnings.map (warningLine P))
  | .good status warnings => .all (goodLine P path status :: warnings.map (warningLine P))

/-! ## The command -/

def checkAll (P : Platform) (explain : Unreadable → String) (strict : Bool) (disk : Disk)
    (failed : Bool) : List String → Outcome
  | [] => .silent (.exit (if failed then 1 else 0)) disk
  | raw :: rest =>
    let path := Path.ofString raw
    match judge P disk path with
    | .error e => .silent (.crash e) disk
    | .ok j =>
      let printed := j.print P explain path.toString
      match printed.crash? with
      | some e => (Outcome.silent (.crash e) disk).after printed.text
      | none =>
        (checkAll P explain strict disk (failed || j.fails strict) rest).after printed.text

def main (P : Platform) (explain : Unreadable → String) (arguments : List String) (disk : Disk) :
    Outcome :=
  let (given, complaint) := grammar.parse arguments
  match take ⟨[], false⟩ complaint given with
  | .error ending => .silent ending disk
  | .ok s => checkAll P explain s.strict disk false s.receipts

end Moo.Cli.Checker
