import Moo.Proofs.Schema.Paths
import Moo.Schema.Validator

/-!
# How violations are listed

Two paths that lead somewhere in one value part at two positions of an array or at two names of an
object, if they part at all (`Json.comparable_of_at?`), so that violations at parts of one value can
be listed by their paths (`Violation.sorted?_eq`). The list is in the order of the paths, and
violations with one path stay as they were found.
-/

namespace Moo

namespace Json

variable {v w : Json} {a b : PathStep} {p q : JsonPath}

theorem isSome_at?_cons_iff :
    (v.at? (a :: p)).isSome = true ↔ ∃ w, v.part? a = some w ∧ (w.at? p).isSome = true := by
  rw [at?]
  cases v.part? a <;> simp

/-- Different steps into one value go to two positions or to two names. -/
theorem comparable_of_part? (hab : a ≠ b) (ha : (v.part? a).isSome = true)
    (hb : (v.part? b).isSome = true) : JsonPath.Comparable (a :: p) (b :: q) := by
  cases a with
  | index i =>
    cases b with
    | index j =>
      have hij : i ≠ j := fun h => hab (congrArg _ h)
      exact (Nat.lt_or_gt_of_ne hij).imp (.index p q) (.index q p)
    | name t =>
      cases v with
      | arr items => cases hb
      | _ => cases ha
  | name s =>
    cases b with
    | index j =>
      cases v with
      | obj members => cases hb
      | _ => cases ha
    | name t =>
      have hst : s ≠ t := fun h => hab (congrArg _ h)
      exact (JsonText.earlier_or_earlier hst).imp (.name p q) (.name q p)

/-- Two paths that lead somewhere in one value have an order of their own. -/
theorem comparable_of_at? (hp : (v.at? p).isSome = true) (hq : (v.at? q).isSome = true) :
    p.Comparable q := by
  induction p generalizing v q with
  | nil => exact .inl (.ended q)
  | cons a p ih =>
    cases q with
    | nil => exact .inr (.ended _)
    | cons b q =>
      obtain ⟨w, hw, hp⟩ := isSome_at?_cons_iff.mp hp
      obtain ⟨w', hw', hq⟩ := isSome_at?_cons_iff.mp hq
      by_cases hab : a = b
      · subst hab
        cases hw.symm.trans hw'
        exact (ih hp hq).imp (.step a) (.step a)
      · exact comparable_of_part? hab (Option.isSome_of_eq_some hw) (Option.isSome_of_eq_some hw')

end Json

/-- A stable sort leaves elements as they are that come no later than each other. -/
theorem filter_mergeSort {α : Type} {le : α → α → Bool} {l : List α} {f : α → Bool}
    (htrans : ∀ a b c, le a b = true → le b c = true → le a c = true)
    (htotal : ∀ a b, (le a b || le b a) = true)
    (h : ∀ a b, f a = true → f b = true → le a b = true) :
    (l.mergeSort le).filter f = l.filter f := by
  have hpairwise : (l.filter f).Pairwise fun a b => le a b = true :=
    List.pairwise_of_forall_mem_list fun a ha b hb =>
      h a b (List.mem_filter.mp ha).2 (List.mem_filter.mp hb).2
  have hsub : (l.filter f).Sublist ((l.mergeSort le).filter f) := by
    have hsort := List.sublist_mergeSort htrans htotal hpairwise List.filter_sublist
    have hfilter := hsort.filter f
    rwa [List.filter_filter, funext fun a => Bool.and_self (f a)] at hfilter
  exact (hsub.eq_of_length ((List.mergeSort_perm l le).filter f).length_eq.symm).symm

namespace Violation

variable {v : Json} {found : List Violation}

theorem comparable_of_located (h : ∀ x ∈ found, (v.at? x.path).isSome = true) :
    ∀ a ∈ found, ∀ b ∈ found, a.path.Comparable b.path :=
  fun a ha b hb => Json.comparable_of_at? (h a ha) (h b hb)

theorem sorted?_eq (h : ∀ a ∈ found, ∀ b ∈ found, a.path.Comparable b.path) :
    sorted? found = some (found.mergeSort fun a b => a.path.le b.path) := by
  unfold sorted?
  rw [if_pos]
  simp only [List.all_eq_true]
  intro a ha b hb
  rw [(h a ha b hb).le?_eq]
  rfl

theorem sorted?_of_root (h : ∀ x ∈ found, x.path = []) : sorted? found = some found := by
  rw [sorted?_eq fun a ha b _ => .inl (h a ha ▸ .ended b.path)]
  refine congrArg some (List.mergeSort_of_pairwise (List.pairwise_of_forall_mem_list ?_))
  intro a ha b _
  rw [h a ha]
  rfl

theorem pairwise_mergeSort (h : ∀ a ∈ found, ∀ b ∈ found, a.path.Comparable b.path) :
    (found.mergeSort fun a b => a.path.le b.path).Pairwise fun a b => a.path.Precedes b.path := by
  have hle : (found.mergeSort fun a b => a.path.le b.path).Pairwise fun a b =>
      a.path.le b.path = true := by
    refine List.pairwise_mergeSort ?_ ?_ _
    · exact fun _ _ _ => JsonPath.le_trans
    · exact fun _ _ => JsonPath.le_total _ _
  refine hle.imp_of_mem fun {a b} ha hb hab => ?_
  exact (h a (List.mem_mergeSort.mp ha) b (List.mem_mergeSort.mp hb)).le_iff.mp hab

theorem filter_mergeSort_path (found : List Violation) (p : JsonPath) :
    (found.mergeSort fun a b => a.path.le b.path).filter (fun x => decide (x.path = p)) =
      found.filter (fun x => decide (x.path = p)) := by
  refine filter_mergeSort (fun _ _ _ => JsonPath.le_trans) (fun _ _ => JsonPath.le_total _ _) ?_
  intro a b ha hb
  rw [of_decide_eq_true ha, of_decide_eq_true hb]
  exact (JsonPath.Precedes.refl p).le

end Violation

end Moo
