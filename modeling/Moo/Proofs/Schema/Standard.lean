import Moo.Proofs.Json.Value
import Moo.Proofs.Schema.Pattern
import Moo.Schema.Validator

/-!
# The standard for schemas

What a demand says of a value, told by what its parts satisfy (`Demand.Allows`): one clause for each
keyword, as the draft that the schema of receipts names has it. Most clauses say nothing of values
of other kinds. A verdict is a standard one if a value passes a schema just if every demand of the
schema allows it (`Schema.Standard`).

One thing besides the draft enters into it. A validator tries out the branches of a choice one after
the other, and to say why one of them fails it shows the value, also if another branch is met. So of
a value that cannot be shown, a choice that the draft allows may fail.

A validator follows the standard if both of its verdicts are standard ones (`Validator.Follows`).
How patterns are searched for is left open: the draft wants one dialect, and validators have others.
Where violations are (`Validator.Locates`) and when they can be told (`Validator.Tells`) are
premises of their own.
-/

namespace Moo

variable {finds : Pattern → JsonText → Prop} {passes : Schema → Json → Prop}

/-- The demand is met by a value, in a schema that speaks of the names `declared`. -/
def Demand.Allows (finds : Pattern → JsonText → Prop) (passes : Schema → Json → Prop)
    (declared : List String) : Demand → Json → Prop
  | .kind kinds, v => ∃ k ∈ kinds, v.isKind k = true
  | .const text, v => v = .text text
  | .enum texts, v => v.IsOneOf texts
  | .pattern p, v => ∀ t, v = .str t → finds p t
  | .minimum n, v => v.ltInt n = false
  | .maximum n, v => v.gtInt n = false
  | .required names, v => v.IsObject → ∀ name ∈ names, (v.field? name).isSome = true
  | .properties members, v => ∀ m ∈ members, v.May m.1 (passes m.2)
  | .closed, v => ∀ name w, v.part? (.name name) = some w →
      ∃ known ∈ declared, name = .ofString known
  | .additional s, v => ∀ name w, v.part? (.name name) = some w →
      (∀ known ∈ declared, name ≠ .ofString known) → passes s w
  | .eachItem s, v => ∀ i w, v.part? (.index i) = some w → passes s w
  | .eachName s, v => ∀ name w, v.part? (.name name) = some w → passes s (.str name)
  | .oneOf branches, v => ∃ before s after, branches = before ++ s :: after ∧ passes s v ∧
      ∀ other ∈ before ++ after, ¬ passes other v

def Demand.isChoice : Demand → Bool
  | .oneOf _ => true
  | _ => false

def Schema.hasChoice (s : Schema) : Bool := s.any Demand.isChoice

/-- What passes a schema is allowed by every demand, and what is allowed by every demand passes, if
it can be shown where there is a choice. -/
structure Schema.Standard (finds : Pattern → JsonText → Prop) (depth : Nat)
    (passes : Schema → Json → Prop) : Prop where
  sound : ∀ {s : Schema} {v : Json}, passes s v → ∀ d ∈ s, d.Allows finds passes s.declared v
  complete : ∀ {s : Schema} {v : Json}, (s.hasChoice = true → v.obstacle? depth = none) →
    (∀ d ∈ s, d.Allows finds passes s.declared v) → passes s v

namespace Validator

/-- The validator lists no violations, and accepts, by the standard. It shows values that nest at
most `depth` deep. -/
structure Follows (V : Validator) (finds : Pattern → JsonText → Prop) (depth : Nat) : Prop where
  violations : Schema.Standard finds depth fun s v => V.violations s v = .ok []
  validate : Schema.Standard finds depth fun s v => V.validate s v = .ok ()

/-- The path of every violation leads to a part of the value. -/
def Locates (V : Validator) : Prop :=
  ∀ s v found, V.violations s v = .ok found → ∀ x ∈ found, (v.at? x.path).isSome = true

/-- The violations in a value that can be shown are told. -/
def Tells (V : Validator) (depth : Nat) : Prop :=
  ∀ s v, v.obstacle? depth = none → ∃ found, V.violations s v = .ok found

end Validator

end Moo
