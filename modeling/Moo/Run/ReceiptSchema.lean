import Moo.Run.Receipt
import Moo.Schema.Validator

/-!
# The schema of receipts
-/

namespace Moo.Run.Receipt

def digits : CharClass := [('0', '9')]

def hexDigits : CharClass := [('0', '9'), ('a', 'f')]

def hashPattern : Pattern := [.text "sha256:".toList, .times hexDigits 64]

def positionPattern : Pattern := [.oneOrMore digits]

def count : Schema := [.kind [.integer], .minimum 0]

def label : Schema := [.kind [.string]]

/-- An object with just the named members, some of which must be there. -/
def record (required : List String) (members : List (String × Schema)) : Schema :=
  [.kind [.object], .required required, .properties members, .closed]

def source : Schema :=
  record ["hash"] [("hash", [.kind [.string], .pattern hashPattern]), ("path", label)]

def stamp : Schema := record ["timestamp", "uuid"] [("timestamp", label), ("uuid", label)]

def program : Schema :=
  record ["tokens", "commands"] [("tokens", count), ("commands", count)]

/-- The cells that are not zero. -/
def cells : Schema :=
  [.kind [.object], .eachName [.pattern positionPattern],
    .additional [.kind [.integer], .minimum 1, .maximum 255]]

def machine : Schema :=
  record ["cursor", "programCounter", "register", "memorySize", "cells"]
    [("cursor", count),
     ("programCounter", count),
     ("register", [.kind [.integer, .null], .minimum 0, .maximum 255]),
     ("memorySize", [.kind [.integer], .minimum 1]),
     ("cells", cells)]

def write : Schema :=
  record ["kind", "value"]
    [("kind", [.enum ["char", "byte"]]),
     ("value", [.kind [.integer], .minimum 0, .maximum 255])]

/-- The first refusal, if there was one. -/
def refusal : Schema :=
  [.oneOf
    [[.kind [.null]],
     record ["type", "value"]
       [("type", [.const BadEval.invalidKind]), ("value", [.kind [.integer]])],
     record ["type"] [("type", [.const BadEval.loopKind])]]]

def logEntry : Schema :=
  [.kind [.object], .required ["level", "event", "message"],
    .properties
      [("level", [.enum ["info", "warning", "error"]]), ("event", label), ("message", label)]]

def stepEntry : Schema :=
  [.kind [.object], .required ["step", "pc", "command", "action"],
    .properties
      [("step", [.kind [.integer], .minimum 1]),
       ("pc", count),
       ("command", label),
       ("action", [.enum ["exec", "skip"]]),
       ("events", [.kind [.array]])]]

def members : List (String × Schema) :=
  [("engine", [.const "cow"]),
   ("module", source),
   ("run", stamp),
   ("status", [.enum ["ok", "badEval", "error"]]),
   ("reason", label),
   ("program", program),
   ("stepsExecuted", count),
   ("machine", machine),
   ("output", [.kind [.array], .eachItem write]),
   ("stdout", label),
   ("badEval", refusal),
   ("logs", [.kind [.array], .eachItem logEntry]),
   ("steps", [.kind [.array], .eachItem stepEntry])]

def schema : Schema := record ["engine", "module", "run", "status", "logs"] members

/-- The schema as a document of its own. -/
def schemaDocument : Json :=
  .record ([("$schema", .text "https://json-schema.org/draft/2020-12/schema"),
    ("title", .text "COW run receipt")] ++ Demand.document schema)

inductive Unlisted where
  | unshowable (e : ShowError)
  | incomparable
  deriving DecidableEq, Repr

def Unlisted.message : Unlisted → String
  | .unshowable e => e.message
  | .incomparable => "paths cannot be compared"

/-- What is wrong with a receipt, one line for each violation. -/
def problems (V : Validator) (v : Json) : Except Unlisted (List JsonText) :=
  match V.violations schema v with
  | .error e => .error (.unshowable e)
  | .ok found =>
    match Violation.sorted? found with
    | some listed => .ok (listed.map Violation.shown)
    | none => .error .incomparable

def validate (V : Validator) (v : Json) : Except Rejection Unit := V.validate schema v

end Moo.Run.Receipt
