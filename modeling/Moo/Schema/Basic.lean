import Moo.Json.Basic
import Moo.Schema.Pattern

/-!
# Schemas

A schema is a list of demands on a value, in the order in which they are checked. Most demands
concern values of one kind and are met by all others.
-/

namespace Moo

inductive JsonKind where
  | object
  | array
  | string
  | integer
  | null
  deriving DecidableEq, Repr

def JsonKind.name : JsonKind → String
  | .object => "object"
  | .array => "array"
  | .string => "string"
  | .integer => "integer"
  | .null => "null"

/-- The value is of the kind. A double without a fraction counts as an integer. -/
def Json.isKind (v : Json) : JsonKind → Bool
  | .object => match v with
    | .obj _ => true
    | _ => false
  | .array => match v with
    | .arr _ => true
    | _ => false
  | .string => match v with
    | .str _ => true
    | _ => false
  | .integer => match v with
    | .int _ => true
    | .float x => x.isWhole
    | _ => false
  | .null => match v with
    | .null => true
    | _ => false

/-- The value is an integer or a double below `n`. Booleans are neither. -/
def Json.ltInt (v : Json) (n : Int) : Bool :=
  match v with
  | .int m => decide (m < n)
  | .float x => x.ltInt n
  | _ => false

def Json.gtInt (v : Json) (n : Int) : Bool :=
  match v with
  | .int m => decide (n < m)
  | .float x => x.gtInt n
  | _ => false

inductive Demand where
  | kind (kinds : List JsonKind)
  /-- The value is this text. -/
  | const (text : String)
  /-- The value is one of these texts. -/
  | enum (texts : List String)
  | pattern (p : Pattern)
  | minimum (n : Int)
  | maximum (n : Int)
  | required (names : List String)
  /-- Demands on the members of these names. -/
  | properties (members : List (String × List Demand))
  /-- No other members than those named. -/
  | closed
  /-- Demands on the members not named. -/
  | additional (demands : List Demand)
  /-- Demands on every item. -/
  | eachItem (demands : List Demand)
  /-- Demands on every name of a member. -/
  | eachName (demands : List Demand)
  /-- Exactly one of several lists of demands is met. -/
  | oneOf (branches : List (List Demand))

abbrev Schema := List Demand

/-- The names that the demands of one schema speak of. -/
def Schema.declared (s : Schema) : List String :=
  s.flatMap fun
    | .properties members => members.map (·.1)
    | _ => []

def Json.strs (texts : List String) : Json := .arr (texts.map .text)

mutual

def Demand.document : List Demand → List (String × Json)
  | [] => []
  | d :: rest => d.keyword :: document rest

/-- A demand as a member of a document. -/
def Demand.keyword : Demand → String × Json
  | .kind [k] => ("type", .text k.name)
  | .kind ks => ("type", .strs (ks.map JsonKind.name))
  | .const text => ("const", .text text)
  | .enum texts => ("enum", .strs texts)
  | .pattern p => ("pattern", .text p.shown)
  | .minimum n => ("minimum", .int n)
  | .maximum n => ("maximum", .int n)
  | .required names => ("required", .strs names)
  | .properties members => ("properties", .record (Demand.documents members))
  | .closed => ("additionalProperties", .bool false)
  | .additional demands => ("additionalProperties", .record (Demand.document demands))
  | .eachItem demands => ("items", .record (Demand.document demands))
  | .eachName demands => ("propertyNames", .record (Demand.document demands))
  | .oneOf branches => ("oneOf", .arr (Demand.branchDocuments branches))

def Demand.documents : List (String × List Demand) → List (String × Json)
  | [] => []
  | (k, s) :: rest => (k, .record (Demand.document s)) :: documents rest

def Demand.branchDocuments : List (List Demand) → List Json
  | [] => []
  | s :: rest => .record (Demand.document s) :: branchDocuments rest

end

end Moo
