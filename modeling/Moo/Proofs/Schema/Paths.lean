import Mathlib.Data.List.Lex
import Moo.Schema.Path

/-!
# The order of paths

Paths that part at two positions or at two names have an order of their own, and so have paths of
which one goes on where the other ends (`JsonPath.Comparable`). The list of violations puts every
position before every name, which makes its order total (`JsonPath.le_total`). Where paths have an
order of their own, the list follows that order (`JsonPath.Comparable.le_iff`), and a comparison
that cannot put a position beside a name comes to the same (`JsonPath.Comparable.le?_eq`).
-/

namespace Moo

/-- Sequences of numbers by their first difference. One that goes on where the other ends is
later. -/
abbrev Earlier : List Nat → List Nat → Prop := List.Lex (· < ·)

theorem earlier_cons {i j : Nat} {l l' : List Nat} :
    Earlier (i :: l) (j :: l') ↔ i < j ∨ i = j ∧ Earlier l l' := List.cons_lex_cons_iff

/-! ## Texts -/

namespace JsonText

variable {s t : JsonText}

def codes (s : JsonText) : List Nat := s.points.map Fin.val

theorem codes_inj : s.codes = t.codes ↔ s = t := by
  constructor
  · intro h
    obtain ⟨points⟩ := s
    obtain ⟨points'⟩ := t
    exact congrArg mk ((List.map_inj_right fun _ _ => Fin.ext).mp h)
  · exact congrArg codes

theorem le_eq_false_iff : t.le s = false ↔ Earlier s.codes t.codes := by
  have hpoints : ∀ points' points : List CodePoint, lePoints points' points = false ↔
      Earlier (points.map Fin.val) (points'.map Fin.val) := by
    intro points'
    induction points' with
    | nil => simp [lePoints]
    | cons b points' ih =>
      intro points
      cases points with
      | nil => exact iff_of_true rfl .nil
      | cons a points =>
        rw [lePoints, List.map_cons, List.map_cons, earlier_cons, ← ih]
        split
        · next h => simp [h]
        · next h =>
          have hne : a.val ≠ b.val := fun he => h (Fin.ext he.symm)
          rw [decide_eq_false_iff_not, Fin.lt_def]
          simp only [hne, false_and, or_false]
          omega
  exact hpoints t.points s.points

theorem earlier_or_earlier (h : s ≠ t) : Earlier s.codes t.codes ∨ Earlier t.codes s.codes := by
  by_contra hnot
  obtain ⟨hst, hts⟩ := not_or.mp hnot
  exact h (codes_inj.mp (Std.Trichotomous.trichotomous _ _ hst hts))

end JsonText

/-! ## Steps -/

namespace PathStep

variable {a b : PathStep}

def key : PathStep → List Nat
  | .index i => [0, i]
  | .name s => 1 :: s.codes

theorem key_inj : a.key = b.key ↔ a = b := by
  cases a <;> cases b <;> simp [key, JsonText.codes_inj]

theorem before_iff : a.before b = true ↔ Earlier a.key b.key := by
  cases a with
  | index i =>
    cases b with
    | index j =>
      have hnil : ¬ Earlier [] [] := List.not_lex_nil
      simp only [before, key, earlier_cons, decide_eq_true_eq, Nat.lt_irrefl, hnil, and_false,
        or_false, false_or, true_and]
    | name t => exact iff_of_true rfl (.rel Nat.zero_lt_one)
  | name s =>
    cases b with
    | index j =>
      refine iff_of_false Bool.false_ne_true fun h => ?_
      rcases earlier_cons.mp h with h | ⟨h, -⟩ <;> omega
    | name t =>
      simp only [before, key, earlier_cons, Bool.not_eq_true', JsonText.le_eq_false_iff,
        Nat.lt_irrefl, false_or, true_and]

theorem eq_before_of_before? {c : Bool} (h : a.before? b = some c) : a.before b = c := by
  cases a with
  | index i =>
    cases b with
    | index j => exact Option.some.inj h
    | name t => cases h
  | name s =>
    cases b with
    | index j => cases h
    | name t => exact Option.some.inj h

end PathStep

/-! ## Paths -/

namespace JsonPath

variable {p q r : JsonPath}

def keys (p : JsonPath) : List (List Nat) := p.map PathStep.key

theorem le_iff : p.le q = true ↔ ¬ List.Lex Earlier q.keys p.keys := by
  induction p generalizing q with
  | nil => simp [le, keys]
  | cons a p ih =>
    cases q with
    | nil => exact iff_of_false Bool.false_ne_true fun h => h .nil
    | cons b q =>
      unfold keys at ih ⊢
      rw [le, List.map_cons, List.map_cons, List.cons_lex_cons_iff]
      split
      · next h =>
        have hself : ¬ Earlier b.key b.key := irrefl_of Earlier b.key
        simp [h, hself, ih]
      · next h =>
        have hne : b.key ≠ a.key := fun he => h (PathStep.key_inj.mp he).symm
        rw [PathStep.before_iff]
        simp only [hne, false_and, or_false]
        refine ⟨asymm_of Earlier, fun hnot => ?_⟩
        by_contra hnot'
        exact hne (Std.Trichotomous.trichotomous _ _ hnot hnot')

theorem le_total (p q : JsonPath) : (p.le q || q.le p) = true := by
  rw [Bool.or_eq_true, le_iff, le_iff, ← not_and_or]
  exact fun h => asymm_of (List.Lex Earlier) h.1 h.2

theorem le_trans (hpq : p.le q = true) (hqr : q.le r = true) : p.le r = true :=
  le_iff.mpr (IsOrderConnected.neg_trans (le_iff.mp hqr) (le_iff.mp hpq))

theorem le_antisymm (hpq : p.le q = true) (hqp : q.le p = true) : p = q :=
  (List.map_inj_right fun _ _ => PathStep.key_inj.mp).mp
    (Std.Trichotomous.trichotomous _ _ (le_iff.mp hqp) (le_iff.mp hpq))

/-- The first path ends where the second goes on, or they part at two positions in their order or at
two names in theirs, or they do not part. -/
inductive Precedes : JsonPath → JsonPath → Prop where
  | ended (q : JsonPath) : Precedes [] q
  | step (a : PathStep) {p q : JsonPath} : Precedes p q → Precedes (a :: p) (a :: q)
  | index {i j : Nat} (p q : JsonPath) : i < j → Precedes (.index i :: p) (.index j :: q)
  | name {s t : JsonText} (p q : JsonPath) : Earlier s.codes t.codes →
      Precedes (.name s :: p) (.name t :: q)

example (s : JsonText) : Precedes [.name s, .index 2] [.name s, .index 10] :=
  .step _ (.index [] [] (by decide))

/-- The paths have an order of their own. -/
def Comparable (p q : JsonPath) : Prop := p.Precedes q ∨ q.Precedes p

theorem Precedes.refl (p : JsonPath) : p.Precedes p := by
  induction p with
  | nil => exact .ended []
  | cons a p ih => exact .step a ih

/-! ## Comparisons that can fail -/

/-- What can be told is what the order of the list says. -/
theorem eq_le_of_le? {c : Bool} (h : p.le? q = some c) : p.le q = c := by
  induction p generalizing q with
  | nil => exact Option.some.inj h
  | cons a p ih =>
    cases q with
    | nil => exact Option.some.inj h
    | cons b q =>
      rw [le?] at h
      rw [le]
      split at h
      · next hab => rw [if_pos hab, ih h]
      · next hab => rw [if_neg hab, PathStep.eq_before_of_before? h]

theorem Precedes.le? (h : p.Precedes q) : p.le? q = some true ∧ ∃ c, q.le? p = some c := by
  induction h with
  | ended q => exact ⟨rfl, by cases q <;> exact ⟨_, rfl⟩⟩
  | step a _ ih => simpa only [JsonPath.le?, if_true] using ih
  | index p q h =>
    have hne : PathStep.index _ ≠ .index _ := fun he => Nat.ne_of_lt h (PathStep.index.inj he)
    rw [JsonPath.le?, JsonPath.le?, if_neg hne, if_neg hne.symm]
    exact ⟨congrArg some (decide_eq_true h), _, rfl⟩
  | @name s t p q h =>
    have hne : PathStep.name s ≠ .name t := fun he => by
      cases he
      exact irrefl_of Earlier _ h
    rw [JsonPath.le?, JsonPath.le?, if_neg hne, if_neg hne.symm]
    refine ⟨congrArg some ?_, _, rfl⟩
    rw [JsonText.le_eq_false_iff.mpr h]
    rfl

theorem Precedes.le (h : p.Precedes q) : p.le q = true := eq_le_of_le? h.le?.1

/-- Of paths with an order of their own, everything can be told. -/
theorem Comparable.le?_eq (h : p.Comparable q) : p.le? q = some (p.le q) := by
  rcases h with h | h
  · rw [h.le?.1, h.le]
  · obtain ⟨c, hc⟩ := h.le?.2
    rw [hc, eq_le_of_le? hc]

/-- Where paths have an order of their own, it is the order in which violations are listed. -/
theorem Comparable.le_iff (h : p.Comparable q) : p.le q = true ↔ p.Precedes q := by
  refine ⟨fun hle => ?_, Precedes.le⟩
  rcases h with h | h
  · exact h
  · exact le_antisymm hle h.le ▸ Precedes.refl p

end JsonPath

end Moo
