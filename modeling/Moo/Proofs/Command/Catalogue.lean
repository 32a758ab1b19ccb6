import Moo.Proofs.Machine.Sound

/-!
# Looking up commands

A catalogue finds a command under each number below its size, with the name and the effect of that
row. A program that can be loaded holds commands of the catalogue only. In the language just one
command runs a cell, number 3.
-/

namespace Moo

namespace Catalogue

variable {t : Catalogue} {i j : Int} {c k : Command}

theorem at?_eq_some (h : t.at? i = some c) :
    ∃ row, t.rows[i.toNat]? = some row ∧ c = ⟨t.brand, i.toNat, row.1, row.2⟩ := by
  unfold at? at h
  split at h
  · obtain ⟨row, hrow, rfl⟩ := Option.map_eq_some_iff.mp h
    exact ⟨row, hrow, rfl⟩
  · cases h

theorem at?_natCast_eq_none {n : Nat} : t.at? n = none ↔ t.size ≤ n := by
  unfold at? size
  rw [if_pos (Int.natCast_nonneg n), Option.map_eq_none_iff, Int.toNat_natCast,
    List.getElem?_eq_none_iff]

/-- At most one command runs a cell. -/
def SoleRunner (t : Catalogue) : Prop :=
  t.rows.Pairwise fun r r' => ¬ (r.2 = .runCell ∧ r'.2 = .runCell)

theorem SoleRunner.eq (ht : t.SoleRunner) (hc : t.at? i = some c) (hk : t.at? j = some k)
    (hce : c.effect = .runCell) (hke : k.effect = .runCell) : c = k := by
  obtain ⟨row, hrow, rfl⟩ := at?_eq_some hc
  obtain ⟨row', hrow', rfl⟩ := at?_eq_some hk
  obtain ⟨hi, rfl⟩ := List.getElem?_eq_some_iff.mp hrow
  obtain ⟨hj, rfl⟩ := List.getElem?_eq_some_iff.mp hrow'
  have distinct := List.pairwise_iff_getElem.mp ht
  rcases Nat.lt_trichotomy i.toNat j.toNat with hlt | heq | hgt
  · exact absurd ⟨hce, hke⟩ (distinct _ _ hi hj hlt)
  · simp only [heq]
  · exact absurd ⟨hke, hce⟩ (distinct _ _ hj hi hgt)

/-! ## The language -/

def standardRunner : Command := ⟨0, 3, "mOO", .runCell⟩

theorem standard_soleRunner : standard.SoleRunner := by
  unfold SoleRunner
  decide

theorem standard_runner (h : standard.at? i = some c) (hc : c.effect = .runCell) :
    c = standardRunner :=
  standard_soleRunner.eq h (show standard.at? 3 = some standardRunner from rfl) hc rfl

theorem standard_at?_runner {n : Nat} : standard.at? n = some standardRunner ↔ n = 3 := by
  constructor
  · intro h
    obtain ⟨row, -, hc⟩ := at?_eq_some h
    rw [Int.toNat_natCast] at hc
    exact (congrArg Command.id hc).symm
  · rintro rfl
    rfl

theorem standard_row (h : standard.at? i = some c) : (c.name, c.effect) ∈ standardRows := by
  obtain ⟨row, hrow, rfl⟩ := at?_eq_some h
  exact List.mem_of_getElem? hrow

theorem standard_effect_iff (h : standard.at? i = some c) :
    c.effect = .runCell ↔ c.name = standardRunner.name := by
  have hrows : ∀ row ∈ standardRows, row.2 = .runCell ↔ row.1 = standardRunner.name := by decide
  exact hrows _ (standard_row h)

end Catalogue

namespace Machine

variable {t : Catalogue} {program : List Command} {memorySize : Int} {m : Machine}

theorem foreign?_eq_none {position : Nat} (h : foreign? t position program = none) :
    ∀ c ∈ program, t.at? c.id = some c := by
  induction program generalizing position with
  | nil => exact nofun
  | cons c rest ih =>
    unfold foreign? at h
    split at h
    · next hc => exact List.forall_mem_cons.mpr ⟨hc, ih h⟩
    · cases h

theorem foreign?_of_commands {position : Nat} (h : ∀ c ∈ program, t.at? c.id = some c) :
    foreign? t position program = none := by
  induction program generalizing position with
  | nil => rfl
  | cons c rest ih =>
    obtain ⟨hc, hrest⟩ := List.forall_mem_cons.mp h
    rw [foreign?, if_pos hc]
    exact ih hrest

theorem exists_load_of_commands (hsize : 1 ≤ memorySize) (h : ∀ c ∈ program, t.at? c.id = some c) :
    ∃ m, load t program memorySize = .ok m := by
  unfold load
  rw [if_neg (by omega), foreign?_of_commands h]
  exact ⟨_, rfl⟩

theorem load_commands (h : load t program memorySize = .ok m) :
    ∀ c ∈ program, t.at? c.id = some c := by
  unfold load at h
  split at h
  · cases h
  · split at h
    · cases h
    · next hf => exact foreign?_eq_none hf

end Machine

end Moo
