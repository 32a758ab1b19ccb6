import Moo.Digest
import Moo.Json.Basic
import Moo.Machine.Snapshot
import Moo.Run.Session
import Moo.Run.Stamp
import Moo.Source

/-!
# Receipts

A receipt says what was run and how it went. Its heading is fixed before the run: the digest of the
text, its path if it has one, and when and under which identifier the run was made.
-/

namespace Moo.Run

def sourceHash (text : String) : String := "sha256:" ++ Digest.sha256 text.toUTF8.data.toList

/-- What is known before a run. An empty path counts as none. -/
structure Heading where
  hash : String
  path : Option String
  stamp : Stamp
  deriving DecidableEq, Repr

def Heading.ofText (text : String) (path : Option String) (stamp : Stamp) : Heading where
  hash := sourceHash text
  path := path.filter (· != "")
  stamp

structure LogEntry where
  level : String
  event : String
  message : JsonText
  extra : List (String × Json)

def LogEntry.fixedNames : List String := ["level", "event", "message"]

/-- A line with further members, none of which may have a fixed name. -/
def LogEntry.of? (level event : String) (message : JsonText) (extra : List (String × Json)) :
    Option LogEntry :=
  if extra.any fun m => fixedNames.contains m.1 then none else some ⟨level, event, message, extra⟩

def LogEntry.toJson (e : LogEntry) : Json :=
  .record (("level", .text e.level) :: ("event", .text e.event) :: ("message", .str e.message) ::
    e.extra)

/-- A step entry as JSON; the events are left out when there are none. -/
def Entry.toJson (e : Entry) : Json :=
  .record ([("step", .nat e.step), ("pc", .nat e.counter), ("command", .text e.command),
      ("action", .text e.mode.name)] ++
    if e.events.isEmpty then []
    else [("events", .arr (e.events.map fun event =>
      .record [("event", .text event.kind.name), ("value", event.payload)]))])

def outputJson (output : Output) : Json :=
  .record [("kind", .text output.channel.name), ("value", .int output.value)]

structure Summary where
  /-- Words of the text. -/
  tokens : Nat
  /-- Commands of the program. -/
  commands : Nat
  steps : Nat
  snapshot : Snapshot
  output : List Output
  /-- The text that the output shows, for a run on a buffer. -/
  stdout : Option String
  refusals : List BadEval
  deriving DecidableEq, Repr

inductive Verdict where
  | finished (summary : Summary)
  | failed (reason : String)
  deriving DecidableEq, Repr

structure Receipt where
  heading : Heading
  verdict : Verdict
  logs : List LogEntry
  entries : List Entry

/-- The members of a heading, with the logs and the step entries. -/
def Heading.members (h : Heading) (logs : List LogEntry) (entries : List Entry) :
    List (String × Json) :=
  [("engine", .text "cow"),
   ("module", .record (("hash", .text h.hash) ::
     match h.path with
     | some path => [("path", .text path)]
     | none => [])),
   ("run", .record [("timestamp", .text h.stamp.timestamp), ("uuid", .text h.stamp.uuid)]),
   ("logs", .arr (logs.map LogEntry.toJson)),
   ("steps", .arr (entries.map Entry.toJson))]

/-- A receipt before anything is known about the run. -/
def Heading.toJson (h : Heading) : Json := .record (h.members [] [])

namespace Summary

/-- A run is good if nothing was refused. -/
def status (s : Summary) : String := if s.refusals.isEmpty then "ok" else "badEval"

def members (s : Summary) : List (String × Json) :=
  [("status", .text s.status),
   ("program", .record [("tokens", .nat s.tokens), ("commands", .nat s.commands)]),
   ("stepsExecuted", .nat s.steps),
   ("machine", s.snapshot.toJson),
   ("output", .arr (s.output.map outputJson))] ++
  (match s.stdout with
    | some shown => [("stdout", .text shown)]
    | none => []) ++
  [("badEval", .ofOption BadEval.toJson s.refusals.head?)]

def refusalMessage (info : BadEval) : String :=
  if info.kind = BadEval.invalidKind then
    "mOO: no command with id " ++
      match info.value with
      | some value => toString value
      | none => "None"
  else "mOO: refusing to execute itself"

/-- The log of a finished run: each refusal, then the end. -/
def logs (s : Summary) : List LogEntry :=
  s.refusals.map (fun info =>
    ⟨"error", "badEval", refusalMessage info, [("info", info.toJson)]⟩) ++
  [⟨"info", "done", .ofString ("finished after " ++ toString s.steps ++ " step(s)"),
    [("steps", .nat s.steps)]⟩]

end Summary

namespace Receipt

def ofSummary (h : Heading) (s : Summary) (entries : List Entry) : Receipt where
  heading := h
  verdict := .finished s
  logs := s.logs
  entries

def ofFailure (h : Heading) (reason : String) : Receipt where
  heading := h
  verdict := .failed reason
  logs := [⟨"error", "run", .ofString reason, []⟩]
  entries := []

def status (r : Receipt) : String :=
  match r.verdict with
  | .finished s => s.status
  | .failed _ => "error"

def log (r : Receipt) (e : LogEntry) : Receipt := { r with logs := r.logs ++ [e] }

def toJson (r : Receipt) : Json :=
  .record (r.heading.members r.logs r.entries ++
    match r.verdict with
    | .finished s => s.members
    | .failed reason => [("status", .text "error"), ("reason", .text reason)])

end Receipt

end Moo.Run
