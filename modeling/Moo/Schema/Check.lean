import Moo.Schema.Search
import Moo.Schema.Validator

/-!
# A written-out validator

A validator in which every demand is checked by itself, in the order of the demands, and defects are
put into words at the end. Names of members that are not allowed are listed in order.
-/

namespace Moo

inductive Defect where
  | wrongKind (v : Json) (kinds : List JsonKind)
  | notConst (text : String)
  | notInEnum (v : Json) (texts : List String)
  | mismatch (s : JsonText) (p : Pattern)
  | belowMinimum (v : Json) (n : Int)
  | aboveMaximum (v : Json) (n : Int)
  | missing (name : String)
  | unexpected (names : List JsonText)
  | noBranch (v : Json)
  | severalBranches (v : Json) (branches : List Schema)

def Defect.message (depth : Nat) : Defect → Except ShowError String
  | .wrongKind v kinds => do
    return (← v.shown depth) ++ " is not of type " ++
      String.intercalate ", " (kinds.map fun k => Text.quote k.name)
  | .notConst text => return Text.quote text ++ " was expected"
  | .notInEnum v texts => do
    return (← v.shown depth) ++ " is not one of " ++ (Json.strs texts).written
  | .mismatch s p => return s.quote ++ " does not match " ++ Text.quote p.shown
  | .belowMinimum v n => do
    return (← v.shown depth) ++ " is less than the minimum of " ++ toString n
  | .aboveMaximum v n => do
    return (← v.shown depth) ++ " is greater than the maximum of " ++ toString n
  | .missing name => return Text.quote name ++ " is a required property"
  | .unexpected names =>
    return "Additional properties are not allowed (" ++
      String.intercalate ", " (names.map JsonText.quote) ++
      (if names.length = 1 then " was unexpected)" else " were unexpected)")
  | .noBranch v => do
    return (← v.shown depth) ++ " is not valid under any of the given schemas"
  | .severalBranches v branches => do
    return (← v.shown depth) ++ " is valid under each of " ++
      String.intercalate ", " (branches.map fun s => (Json.record (Demand.document s)).written)

structure Finding where
  path : JsonPath
  defect : Defect

namespace Finding

/-- The finding as seen from a value whose part it was made in. -/
def within (step : PathStep) (x : Finding) : Finding := { x with path := step :: x.path }

/-- A defect of the value itself, if there is one. -/
def here (bad : Bool) (d : Defect) : List Finding := if bad then [⟨[], d⟩] else []

def inPart (v : Json) (step : PathStep) (find : Json → List Finding) : List Finding :=
  match v.part? step with
  | some w => (find w).map (·.within step)
  | none => []

def violation (depth : Nat) (x : Finding) : Except ShowError Violation := do
  return ⟨x.path, .ofString (← x.defect.message depth)⟩

end Finding

def Json.isText (v : Json) (texts : List String) : Bool :=
  match v with
  | .str s => texts.any fun t => s == .ofString t
  | _ => false

/-- Members whose names are not among those declared. -/
def extras (declared : List String) (members : List (JsonText × Json)) : List (JsonText × Json) :=
  members.filter fun m => !declared.any fun name => m.1 == .ofString name

namespace Demand

mutual

/-- What violates demands whose schema speaks of the names `declared`. -/
def checkAll (declared : List String) : List Demand → Json → List Finding
  | [], _ => []
  | d :: rest, v => check declared d v ++ checkAll declared rest v

def check (declared : List String) : Demand → Json → List Finding
  | .kind kinds, v => Finding.here (!kinds.any v.isKind) (.wrongKind v kinds)
  | .const text, v => Finding.here (!v.isText [text]) (.notConst text)
  | .enum texts, v => Finding.here (!v.isText texts) (.notInEnum v texts)
  | .pattern p, v =>
    match v with
    | .str s => Finding.here (!p.isFoundIn s) (.mismatch s p)
    | _ => []
  | .minimum n, v => Finding.here (v.ltInt n) (.belowMinimum v n)
  | .maximum n, v => Finding.here (v.gtInt n) (.aboveMaximum v n)
  | .required names, v =>
    match v with
    | .obj members => names.flatMap fun name =>
      Finding.here (Json.member? name members).isNone (.missing name)
    | _ => []
  | .properties schemas, v => checkProperties schemas v
  | .closed, v =>
    match v with
    | .obj members =>
      let names := (extras declared members).map (·.1)
      Finding.here (!names.isEmpty) (.unexpected (names.mergeSort JsonText.le))
    | _ => []
  | .additional demands, v =>
    match v with
    | .obj members => (extras declared members).flatMap fun m =>
      Finding.inPart v (.name m.1) fun w => checkAll (Schema.declared demands) demands w
    | _ => []
  | .eachItem demands, v =>
    match v with
    | .arr items => items.zipIdx.flatMap fun (w, i) =>
      (checkAll (Schema.declared demands) demands w).map (·.within (.index i))
    | _ => []
  | .eachName demands, v =>
    match v with
    | .obj members => members.flatMap fun m =>
      checkAll (Schema.declared demands) demands (.str m.1)
    | _ => []
  | .oneOf branches, v =>
    match metAmong branches v with
    | [] => [⟨[], .noBranch v⟩]
    | [_] => []
    | first :: more => [⟨[], .severalBranches v (more ++ [first])⟩]

def checkProperties : List (String × List Demand) → Json → List Finding
  | [], _ => []
  | (name, demands) :: rest, v =>
    (Finding.inPart v (.name (.ofString name)) fun w =>
      checkAll (Schema.declared demands) demands w) ++
    checkProperties rest v

def metAmong : List (List Demand) → Json → List (List Demand)
  | [], _ => []
  | demands :: rest, v =>
    if (checkAll (Schema.declared demands) demands v).isEmpty then demands :: metAmong rest v
    else metAmong rest v

end

end Demand

def Schema.check (s : Schema) (v : Json) : List Finding := Demand.checkAll s.declared s v

/-- The validator that shows values which nest at most `depth` deep. -/
def Validator.reference (depth : Nat) : Validator where
  violations s v := (s.check v).mapM (Finding.violation depth)
  validate s v :=
    match s.check v with
    | [] => .ok ()
    | x :: _ =>
      match x.violation depth with
      | .ok violation => .error (.violation violation)
      | .error e => .error (.unshowable e)

end Moo
