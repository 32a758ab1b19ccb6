import Moo.Proofs.Number.Numeral

/-!
# Integers that can be read

An integer is read exactly if it has no more than `maxDecimalDigits` digits (`Legible`). With it all
smaller ones are, and every integer that a text is read as is one of them
(`decimalInteger?_legible`).
-/

namespace Moo.Number

def Legible (n : Int) : Prop := (Nat.toDigits 10 n.natAbs).length ≤ maxDecimalDigits

theorem length_toDigits_le_iff {n k : Nat} (hk : 0 < k) :
    (Nat.toDigits 10 n).length ≤ k ↔ n < Nat.pow 10 k := Nat.length_toDigits_le_iff (by decide) hk

theorem pow_le_pow {b m n : Nat} (hb : 0 < b) (h : m ≤ n) : Nat.pow b m ≤ Nat.pow b n :=
  Nat.pow_le_pow_right hb h

theorem legible_iff {n : Int} : Legible n ↔ n.natAbs < Nat.pow 10 maxDecimalDigits :=
  length_toDigits_le_iff (by decide)

theorem legible_of_lt {n : Int} {k : Nat} (h : n.natAbs < Nat.pow 10 k)
    (hk : k ≤ maxDecimalDigits) : Legible n :=
  legible_iff.mpr (Nat.lt_of_lt_of_le h (pow_le_pow (by decide) hk))

theorem not_legible_of_le {n : Nat} (h : Nat.pow 10 maxDecimalDigits ≤ n) : ¬ Legible n := by
  intro hn
  have hlt := legible_iff.mp hn
  rw [Int.natAbs_natCast] at hlt
  exact Nat.not_lt.mpr h hlt

theorem Legible.of_le {m n : Int} (h : Legible n) (hle : m.natAbs ≤ n.natAbs) : Legible m :=
  legible_iff.mpr (Nat.lt_of_le_of_lt hle (legible_iff.mp h))

theorem Legible.exists_above {m n : Nat} (hm : Legible m) (hn : Legible n) :
    ∃ k : Nat, Legible k ∧ m ≤ k ∧ n ≤ k := by
  rcases Nat.le_total m n with h | h
  · exact ⟨n, hn, h, Nat.le_refl n⟩
  · exact ⟨m, hm, Nat.le_refl m, h⟩

/-! ## What texts are read as -/

theorem digit?_lt {base n : Nat} {c : Char} (h : digit? base c = some n) : n < base := by
  unfold digit? at h
  dsimp only at h
  generalize (if c.isDigit then c.toNat - 48 else if 'a' ≤ c ∧ c ≤ 'z' then c.toNat - 87
    else if 'A' ≤ c ∧ c ≤ 'Z' then c.toNat - 55 else base) = value at h
  split at h
  · next hlt =>
    cases h
    exact hlt
  · cases h

theorem digits?_lt {base : Nat} {cs : List Char} {ds : List Nat} (h : digits? base cs = some ds) :
    ∀ d ∈ ds, d < base := by
  induction cs using digits?.induct generalizing ds with
  | case1 => cases h
  | case2 c =>
    obtain ⟨d, hd, rfl⟩ := Option.map_eq_some_iff.mp h
    exact List.forall_mem_singleton.mpr (digit?_lt hd)
  | case3 c rest ih =>
    obtain ⟨d, hd, ds', hds, rfl⟩ : ∃ d, digit? base c = some d ∧
        ∃ ds', digits? base rest = some ds' ∧ d :: ds' = ds := by
      simpa [digits?, Option.bind_eq_some_iff] using h
    exact List.forall_mem_cons.mpr ⟨digit?_lt hd, ih hds⟩
  | case4 c rest hne hunderscore ih =>
    obtain ⟨d, hd, ds', hds, rfl⟩ : ∃ d, digit? base c = some d ∧
        ∃ ds', digits? base rest = some ds' ∧ d :: ds' = ds := by
      rw [digits?] at h
      · simpa [Option.bind_eq_some_iff] using h
      · exact hne
      · exact hunderscore
    exact List.forall_mem_cons.mpr ⟨digit?_lt hd, ih hds⟩

theorem length_digits?_le {base : Nat} {cs : List Char} {ds : List Nat}
    (h : digits? base cs = some ds) : ds.length ≤ cs.length := by
  induction cs using digits?.induct generalizing ds with
  | case1 => cases h
  | case2 c =>
    obtain ⟨d, -, rfl⟩ := Option.map_eq_some_iff.mp h
    exact Nat.le_refl 1
  | case3 c rest ih =>
    obtain ⟨d, -, ds', hds, rfl⟩ : ∃ d, digit? base c = some d ∧
        ∃ ds', digits? base rest = some ds' ∧ d :: ds' = ds := by
      simpa [digits?, Option.bind_eq_some_iff] using h
    exact Nat.le_trans (Nat.succ_le_succ (ih hds)) (Nat.le_succ _)
  | case4 c rest hne hunderscore ih =>
    obtain ⟨d, -, ds', hds, rfl⟩ : ∃ d, digit? base c = some d ∧
        ∃ ds', digits? base rest = some ds' ∧ d :: ds' = ds := by
      rw [digits?] at h
      · simpa [Option.bind_eq_some_iff] using h
      · exact hne
      · exact hunderscore
    exact Nat.succ_le_succ (ih hds)

theorem ofDigits_lt {base : Nat} {ds : List Nat} (h : ∀ d ∈ ds, d < base) :
    Binary64.ofDigits base ds < Nat.pow base ds.length := by
  have hfold : ∀ n, ds.foldl (fun n d => n * base + d) n < (n + 1) * Nat.pow base ds.length := by
    induction ds with
    | nil => exact fun n => Nat.lt_of_lt_of_eq (Nat.lt_succ_self n) (Nat.mul_one (n + 1)).symm
    | cons d rest ih =>
      intro n
      obtain ⟨hd, hrest⟩ := List.forall_mem_cons.mp h
      calc (d :: rest).foldl (fun n d => n * base + d) n
          < (n * base + d + 1) * Nat.pow base rest.length := ih hrest (n * base + d)
        _ ≤ ((n + 1) * base) * Nat.pow base rest.length := by
          refine Nat.mul_le_mul_right _ ?_
          rw [Nat.succ_mul]
          omega
        _ = (n + 1) * Nat.pow base (rest.length + 1) := by
          rw [Nat.mul_assoc, Nat.mul_comm base]
          rfl
  have hzero := hfold 0
  rw [Nat.zero_add, Nat.one_mul] at hzero
  exact hzero

theorem natAbs_withSign (negative : Bool) (n : Nat) : (withSign negative n).natAbs = n := by
  unfold withSign
  split
  · rw [Int.natAbs_neg, Int.natAbs_natCast]
  · rw [Int.natAbs_natCast]

theorem legible_withSign {negative : Bool} {ds : List Nat} (h : ∀ d ∈ ds, d < 10)
    (hlength : ds.length ≤ maxDecimalDigits) :
    Legible (withSign negative (Binary64.ofDigits 10 ds)) := by
  refine legible_of_lt ?_ hlength
  rw [natAbs_withSign]
  exact ofDigits_lt h

theorem decimalInteger?_legible {s : String} {n : Int} (h : decimalInteger? s = some n) :
    Legible n := by
  obtain ⟨ds, hds, rfl⟩ := Option.map_eq_some_iff.mp h
  obtain ⟨hdigits, hlength⟩ := Option.filter_eq_some_iff.mp hds
  exact legible_withSign (digits?_lt hdigits) (of_decide_eq_true hlength)

end Moo.Number
