import Moo.Command.Catalogue

/-!
# Looking up names

The commands of a catalogue have rising numbers. A name is found just if a row has it, and then the
command found is the one with the largest number among those of that name
(`Catalogue.named?_eq_some_iff`).
-/

namespace Moo.Catalogue

variable {t : Catalogue} {name : String} {c : Command}

theorem commands_rising (t : Catalogue) : t.commands.Pairwise (·.id < ·.id) := by
  rw [List.pairwise_iff_getElem]
  intro i j hi hj hlt
  simp only [commands, List.getElem_mapIdx]
  exact hlt

theorem at?_of_mem (h : c ∈ t.commands) : t.at? c.id = some c := by
  obtain ⟨i, hi, rfl⟩ := List.mem_mapIdx.mp h
  show t.at? (i : Nat) = _
  rw [at?, if_pos (Int.natCast_nonneg i), Int.toNat_natCast, List.getElem?_eq_getElem hi]
  rfl

theorem exists_command_iff : (∃ c ∈ t.commands, c.name = name) ↔ name ∈ t.names := by
  unfold commands names
  rw [List.mem_map]
  constructor
  · rintro ⟨c, hc, hname⟩
    obtain ⟨i, hi, rfl⟩ := List.mem_mapIdx.mp hc
    exact ⟨t.rows[i], List.getElem_mem hi, hname⟩
  · rintro ⟨row, hrow, hname⟩
    obtain ⟨i, hi, rfl⟩ := List.getElem_of_mem hrow
    exact ⟨_, List.mem_mapIdx.mpr ⟨i, hi, rfl⟩, hname⟩

/-- The last command of a name is the one with the largest number. -/
theorem named?_eq_some_iff : t.named? name = some c ↔
    c ∈ t.commands ∧ c.name = name ∧ ∀ k ∈ t.commands, k.name = name → k.id ≤ c.id := by
  have hrising := t.commands_rising
  unfold named?
  constructor
  · intro h
    obtain ⟨hname, later, earlier, hsplit, hlater⟩ := List.find?_eq_some_iff_append.mp h
    have hcommands : t.commands = earlier.reverse ++ c :: later.reverse := by
      rw [← List.reverse_reverse t.commands, hsplit]
      simp
    rw [hcommands] at hrising ⊢
    have hbefore := (List.pairwise_append.mp hrising).2.2
    refine ⟨List.mem_append_right _ List.mem_cons_self, by simpa using hname, fun k hk hkname => ?_⟩
    rcases List.mem_append.mp hk with hk | hk
    · exact Nat.le_of_lt (hbefore k hk c List.mem_cons_self)
    · rcases List.mem_cons.mp hk with rfl | hk
      · exact Nat.le_refl _
      · have hno := hlater k (List.mem_reverse.mp hk)
        simp [hkname] at hno
  · rintro ⟨hc, hname, hlast⟩
    obtain ⟨earlier, later, hcommands⟩ := List.append_of_mem hc
    rw [hcommands] at hrising hlast ⊢
    have hbehind := (List.pairwise_cons.mp (List.pairwise_append.mp hrising).2.1).1
    rw [List.find?_eq_some_iff_append]
    refine ⟨by simpa using hname, later.reverse, earlier.reverse, by simp, fun k hk => ?_⟩
    -- a later command of the name would have a larger number
    have hlt := hbehind k (List.mem_reverse.mp hk)
    have hle := hlast k (List.mem_append_right _ (List.mem_cons_of_mem _ (List.mem_reverse.mp hk)))
    simp only [Bool.not_eq_true', beq_eq_false_iff_ne]
    intro hkname
    have := hle hkname
    omega

theorem at?_of_named? (h : t.named? name = some c) : t.at? c.id = some c :=
  at?_of_mem (named?_eq_some_iff.mp h).1

theorem named?_eq_none_iff : t.named? name = none ↔ name ∉ t.names := by
  rw [← exists_command_iff, named?, List.find?_eq_none]
  simp

theorem contains_iff : t.contains name = true ↔ name ∈ t.names := by
  unfold contains names
  simp

theorem contains_eq_isSome (t : Catalogue) (name : String) :
    t.contains name = (t.named? name).isSome := by
  rw [Bool.eq_iff_iff, contains_iff, Option.isSome_iff_ne_none, Ne, named?_eq_none_iff]
  exact Decidable.not_not.symm

end Moo.Catalogue
