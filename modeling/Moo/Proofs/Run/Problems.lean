import Moo.Proofs.Run.Described
import Moo.Proofs.Schema.Listed
import Moo.Proofs.Schema.Reference

/-!
# The list of problems of a receipt

What is nothing like a receipt has a list of problems too: violations that lead to parts of one
value have paths that can all be compared with one another, so that nothing stands in the way of
listing them in order. There is no list only if the validator cannot tell the violations, and it can
tell those of every value that can be shown.
-/

namespace Moo.Run.Receipt

variable {V : Validator} {v : Json}

/-- Of a validator whose violations lead to parts of the value, any two violations have paths that
part at two positions or at two names, or one ends where the other goes on, so that comparing them
puts no position beside a name. The problems are the violations as texts, each once, in the order of
their paths, and those with one path as the validator found them. There are none to list just if the
validator fails, and if it tells the violations of values that can be shown, it fails only with
values that cannot. -/
theorem problems_are_well_ordered {depth : Nat} (hV : V.Locates) (htells : V.Tells depth)
    (v : Json) :
    (∀ found, V.violations schema v = .ok found →
      (∀ a ∈ found, ∀ b ∈ found,
        a.path.Comparable b.path ∧ a.path.le? b.path = some (a.path.le b.path)) ∧
      ∃ listed : List Violation,
        problems V v = .ok (listed.map Violation.shown) ∧
        listed.Perm found ∧
        listed.Pairwise (fun a b => a.path.Precedes b.path) ∧
        ∀ p : JsonPath, listed.filter (fun x => decide (x.path = p)) =
          found.filter (fun x => decide (x.path = p))) ∧
    (∀ e, problems V v = .error e ↔ ∃ e', e = .unshowable e' ∧ V.violations schema v = .error e') ∧
    (v.obstacle? depth = none → ∃ lines, problems V v = .ok lines) := by
  have hlisted : ∀ found, V.violations schema v = .ok found →
      problems V v =
        .ok ((found.mergeSort fun a b => a.path.le b.path).map Violation.shown) := fun found h =>
    problems_of_sorted h (Violation.sorted?_eq (Violation.comparable_of_located (hV _ _ _ h)))
  refine ⟨fun found h => ?_, fun e => ?_, fun h => ?_⟩
  · have hcomparable := Violation.comparable_of_located (hV _ _ _ h)
    refine ⟨fun a ha b hb => ⟨hcomparable a ha b hb, (hcomparable a ha b hb).le?_eq⟩, ?_⟩
    exact ⟨_, hlisted found h, List.mergeSort_perm _ _, Violation.pairwise_mergeSort hcomparable,
      Violation.filter_mergeSort_path found⟩
  · cases hfound : V.violations schema v with
    | error e' =>
      have hproblems : problems V v = .error (.unshowable e') := by
        unfold problems
        simp only [hfound]
      rw [hproblems]
      constructor
      · rintro ⟨⟩
        exact ⟨e', rfl, rfl⟩
      · rintro ⟨_, rfl, ⟨⟩⟩
        rfl
    | ok found =>
      rw [hlisted found hfound]
      exact iff_of_false nofun fun ⟨_, _, h⟩ => nomatch h
  · obtain ⟨found, hfound⟩ := htells schema v h
    exact ⟨_, hlisted found hfound⟩

/-- A status and a reason that are no texts, in this order in the schema, and listed the other way
round behind what is said of the whole. -/
theorem problems_are_well_ordered_two_members :
    let v := Json.record [("status", .null), ("reason", .null)]
    (Validator.reference 1).Locates ∧ (Validator.reference 1).Tells 1 ∧ v.obstacle? 1 = none ∧
      ∃ found listed : List Violation, (Validator.reference 1).violations schema v = .ok found ∧
        problems (.reference 1) v = .ok (listed.map Violation.shown) ∧ listed.Perm found ∧
        listed.Pairwise fun a b => a.path.Precedes b.path := by
  intro v
  have hlocates := Validator.locates_reference 1
  have htells := Validator.tells_reference 1
  obtain ⟨hlisted, -, -⟩ := problems_are_well_ordered hlocates htells v
  obtain ⟨found, hfound⟩ := htells schema v rfl
  obtain ⟨-, listed, hproblems, hperm, horder, -⟩ := hlisted found hfound
  exact ⟨hlocates, htells, rfl, found, listed, hfound, hproblems, hperm, horder⟩

/-- What is no object and cannot be shown has no list of problems: the first message would show
it. -/
theorem problems_of_obstacle {depth : Nat} {e : ShowError} (hv : v.isKind .object = false)
    (h : v.obstacle? depth = some e) : problems (.reference depth) v = .error (.unshowable e) := by
  have hcheck : ∃ rest, schema.check v = ⟨[], .wrongKind v [.object]⟩ :: rest := by
    refine ⟨Demand.checkAll schema.declared schema.tail v, ?_⟩
    show Finding.here (!(v.isKind .object || false)) _ ++ _ = _
    rw [hv]
    rfl
  obtain ⟨rest, hrest⟩ := hcheck
  have hviolations : (Validator.reference depth).violations schema v = .error e := by
    show (schema.check v).mapM (Finding.violation depth) = Except.error e
    rw [hrest, List.mapM_cons, Finding.violation, Defect.message, Json.shown, h]
    rfl
  unfold problems
  rw [hviolations]

def nested : Nat → Json
  | 0 => .int 0
  | depth + 1 => .arr [nested depth]

theorem obstacle?_nested (depth : Nat) : (nested (depth + 1)).obstacle? depth = some .tooDeep := by
  induction depth with
  | zero => rfl
  | succ depth ih =>
    show ((nested (depth + 1)).obstacle? depth).or none = _
    rw [ih]
    rfl

/-- A number with one digit more than can be shown has no list of problems, and neither has a value
that nests deeper than can be shown. -/
theorem unshowable_values_have_no_list :
    problems (.reference 984) (.nat (Nat.pow 10 Number.maxDecimalDigits)) =
        .error (.unshowable .tooLong) ∧
      problems (.reference 984) (nested 985) = .error (.unshowable .tooDeep) := by
  have hlong := Number.not_legible_of_le (Nat.le_refl (Nat.pow 10 Number.maxDecimalDigits))
  exact ⟨problems_of_obstacle rfl (Json.obstacle?_int hlong),
    problems_of_obstacle rfl (obstacle?_nested 984)⟩

end Moo.Run.Receipt
