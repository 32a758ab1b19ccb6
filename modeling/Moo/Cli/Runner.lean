import Moo.Cli.Ending
import Moo.Cli.Input
import Moo.Cli.Platform
import Moo.Cli.Settings
import Moo.Device.Provider
import Moo.Json.Printer
import Moo.Run.Basic
import Moo.Run.ReceiptSchema

/-!
# The runner

The runner runs a program file and reports the run. With input on the command line the program
talks to a buffer, and its output is shown at the end; without, it talks to the console. A run that
refused a cell ends with exit code 1, and so does one that ran out of input or of steps, for which a
receipt is written that says so. Input that is no text ends the command where it is read.
-/

namespace Moo.Cli.Runner

open Run

/-- The failures for which a receipt is written. Behind input that is not intact there is no end of
input. -/
def isReported (intact : Bool) : Failure → Bool
  | .fault (.exhausted .console) => intact
  | .fault (.exhausted _) => true
  | .fault (.raised _) => true
  | .stepLimit _ => true
  | _ => false

def crashOf : Failure → Crash
  | .fault (.exhausted _) => .inputNotText
  | failure => .run failure

/-- What the program talks to, which is given these numbers. -/
def provider (s : Settings) (numbers : List Int) (input : Input) : Provider :=
  if s.isScripted then .ofBuffer (.ofInput (s.input.getD "") numbers)
  else .ofConsole (.ofText input.text)

/-- What a provider has shown so far, on standard output and standard error. -/
def shown (p : Provider) : String × String :=
  match p.base with
  | .buffer _ => ("", "")
  | .console c => (c.outs, c.prompts)

def logLine (e : LogEntry) : String := "[cow] " ++ e.level ++ ": " ++ e.message.escaped ++ "\n"

def logLines (s : Settings) (logs : List LogEntry) : String :=
  if s.printLogs then String.join (logs.map logLine) else ""

/-- Print the receipt and write it to a file, where asked, and exit. -/
def emit (s : Settings) (disk : Disk) (receipt : Receipt) (code : Nat) : Outcome :=
  let document := receipt.toJson.pretty ++ "\n"
  let printed := if s.printReceipt then document else ""
  match s.receiptOut.filter (· != "") with
  | none => ⟨.exit code, printed, "", disk⟩
  | some path =>
    match disk.writeText (.ofString path) document with
    | .ok disk => ⟨.exit code, printed, "", disk⟩
    | .error e => ⟨.crash (.disk e), printed, "", disk⟩

def withWarnings (V : Validator) (receipt : Receipt) : Except Receipt.Unlisted Receipt := do
  let problems ← Receipt.problems V receipt.toJson
  return problems.foldl (fun r p => r.log ⟨"warning", "schema", p, []⟩) receipt

/-- The text of the output, for a run on a buffer. -/
def stdout (receipt : Receipt) : String :=
  match receipt.verdict with
  | .finished summary => summary.stdout.getD ""
  | .failed _ => ""

def conclude (V : Validator) (s : Settings) (disk : Disk) (receipt : Receipt) : Outcome :=
  match if s.validate then withWarnings V receipt else .ok receipt with
  | .error e => .silent (.crash (.unlisted e)) disk
  | .ok receipt =>
    let code := if receipt.status = "ok" then 0 else 1
    (emit s disk receipt code).after
        (if s.isScripted && !s.printReceipt then stdout receipt else "")
      |>.afterErrors (logLines s receipt.logs)

def giveUp (s : Settings) (disk : Disk) (intact : Bool) (heading : Heading) (failure : Failure) :
    Outcome :=
  if isReported intact failure then
    let receipt := Receipt.ofFailure heading failure.message
    (emit s disk receipt 1).afterErrors (logLines s receipt.logs)
  else .silent (.crash (crashOf failure)) disk

def perform (P : Platform) (s : Settings) (disk : Disk) (intact : Bool) (p : Provider) (job : Job) :
    Outcome :=
  let (p, outcome) :=
    match job.run P.patience Provider.device p.isBuffer p with
    | .finished r => (r.device, conclude P.validator s disk r.receipt)
    | .failed failure p => (p, giveUp s disk intact job.heading failure)
    | .unfinished p => (p, .silent (.crash .unfinished) disk)
  let (outs, prompts) := shown p
  (outcome.after outs).afterErrors prompts

def runText (P : Platform) (s : Settings) (disk : Disk) (input : Input) (stamp : Stamp)
    (path : Path) (text : String) : Outcome :=
  match s.numbers?, s.excess? P.hasRoom, s.options? with
  | none, _, _ => .silent (.crash .noNumber) disk
  | some _, some size, _ => .silent (.crash (.noMemory size)) disk
  | some _, none, none => .silent (.crash .noNumber) disk
  | some numbers, none, some options =>
    perform P s disk input.intact (provider s numbers input)
      ⟨text, some path.toString, .standard, options, stamp⟩

def runWith (P : Platform) (s : Settings) (disk : Disk) (input : Input) (stamp : Stamp) : Outcome :=
  let path := Path.ofString s.program
  match disk.isFile path with
  | .error e => .silent (.crash (.disk e)) disk
  | .ok false => .silent (.usage (.noProgram path.toString)) disk
  | .ok true =>
    match disk.readText path with
    | .error e => .silent (.crash (.disk e)) disk
    | .ok text => runText P s disk input stamp path text

/-- Run a command line on input that has been decoded. -/
def mainOn (P : Platform) (arguments : List String) (disk : Disk) (input : Input) (stamp : Stamp) :
    Outcome :=
  match Settings.ofArguments arguments with
  | .settings s => runWith P s disk input stamp
  | .help => .silent .help disk
  | .error e => .silent (.usage e) disk

def main (P : Platform) (arguments : List String) (disk : Disk) (stdin : List (List UInt8))
    (stamp : Stamp) : Outcome :=
  mainOn P arguments disk (.ofPieces stdin) stamp

end Moo.Cli.Runner
