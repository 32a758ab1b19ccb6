import Moo.Proofs.Command.Names

/-!
# Tables of commands

A catalogue is made of any table: names may repeat, and there may be none. Its commands are the rows
in order, each under its position (`Catalogue.commands_getElem?`), so a number finds the command at
that position and nothing else finds one (`numbered?_eq_some_iff`), while a name finds the command
of the last row that has it (`LastNamed`). A command is found by its own name just if no row behind
it took the name away.
-/

namespace Moo.Catalogue

variable {t : Catalogue} {name : String} {n : Nat} {c k : Command}

/-! ## By number -/

theorem commands_getElem? (t : Catalogue) (n : Nat) :
    t.commands[n]? = t.rows[n]?.map fun row => ⟨t.brand, n, row.1, row.2⟩ := List.getElem?_mapIdx

theorem length_commands (t : Catalogue) : t.commands.length = t.rows.length := List.length_mapIdx

theorem at?_natCast (t : Catalogue) (n : Nat) : t.at? n = t.commands[n]? := by
  rw [at?, if_pos (Int.natCast_nonneg n), Int.toNat_natCast, commands_getElem?]

theorem at?_of_neg {id : Int} (h : id < 0) : t.at? id = none := if_neg (by omega)

theorem numbered?_eq_some_iff {id : Json} :
    t.numbered? id = some c ↔ ∃ n : Nat, id = .int n ∧ t.commands[n]? = some c := by
  constructor
  · intro h
    cases id with
    | int i =>
      rcases Int.lt_or_le i 0 with hneg | hpos
      · rw [show t.numbered? (.int i) = none from at?_of_neg hneg] at h
        cases h
      · obtain ⟨n, rfl⟩ := Int.eq_ofNat_of_zero_le hpos
        exact ⟨n, rfl, (at?_natCast t n).symm.trans h⟩
    | null | bool | float | str | arr | obj => cases h
  · rintro ⟨n, rfl, hn⟩
    exact (at?_natCast t n).trans hn

theorem id_of_getElem? (h : t.commands[n]? = some c) : c.id = n := by
  rw [commands_getElem?] at h
  obtain ⟨row, -, rfl⟩ := Option.map_eq_some_iff.mp h
  rfl

/-! ## By name -/

/-- The row at the position has the name, no later row has it, and this is its command. -/
structure LastNamed (t : Catalogue) (name : String) (n : Nat) (c : Command) : Prop where
  found : t.commands[n]? = some c
  named : c.name = name
  behind : ∀ (m : Nat) (row : String × Effect), n < m → t.rows[m]? = some row → row.1 ≠ name

theorem LastNamed.named? (h : t.LastNamed name n c) : t.named? name = some c := by
  refine named?_eq_some_iff.mpr ⟨List.mem_of_getElem? h.found, h.named, fun k hk hname => ?_⟩
  obtain ⟨m, hm⟩ := List.getElem?_of_mem hk
  rw [id_of_getElem? h.found, id_of_getElem? hm]
  rw [commands_getElem?] at hm
  obtain ⟨row, hrow, rfl⟩ := Option.map_eq_some_iff.mp hm
  exact Nat.le_of_not_lt fun hlt => h.behind m row hlt hrow hname

theorem LastNamed.of_named? (h : t.named? name = some c) : t.LastNamed name c.id c := by
  obtain ⟨hmem, hname, hlast⟩ := named?_eq_some_iff.mp h
  obtain ⟨n, hn⟩ := List.getElem?_of_mem hmem
  obtain rfl := id_of_getElem? hn
  refine ⟨hn, hname, fun m row hlt hrow hrowname => ?_⟩
  have hm : t.commands[m]? = some ⟨t.brand, m, row.1, row.2⟩ := by
    rw [commands_getElem?, hrow, Option.map_some]
  have hle := hlast _ (List.mem_of_getElem? hm) hrowname
  exact Nat.not_lt_of_le hle hlt

theorem named?_iff_lastNamed : t.named? name = some c ↔ ∃ n, t.LastNamed name n c :=
  ⟨fun h => ⟨_, .of_named? h⟩, fun ⟨_, h⟩ => h.named?⟩

theorem named?_name_iff (h : t.commands[n]? = some c) :
    t.named? c.name = some c ↔
      ∀ (m : Nat) (row : String × Effect), n < m → t.rows[m]? = some row → row.1 ≠ c.name := by
  constructor
  · intro hfound
    have hlast := LastNamed.of_named? hfound
    rw [id_of_getElem? h] at hlast
    exact hlast.behind
  · exact fun hbehind => LastNamed.named? ⟨h, rfl, hbehind⟩

end Moo.Catalogue

namespace Moo

/-! ## Main statement -/

/-- Whatever the table: there is one command for each row, in order and numbered from zero. An
integer from zero on and below the number of rows finds the command at that position, any other
value finds none. A name finds the command of the last row that has it, and none if no row has it;
it is contained just if it finds one, and so just if it is among the names. A command is found by
its own name just if no later row has that name. -/
theorem tables_are_coherent (t : Catalogue) :
    (t.commands.length = t.rows.length ∧ t.size = t.rows.length ∧
      t.names = t.commands.map (·.name) ∧
      ∀ (n : Nat) (name : String) (effect : Effect), t.rows[n]? = some (name, effect) →
        t.commands[n]? = some ⟨t.brand, n, name, effect⟩) ∧
    (∀ n : Nat, n < t.size → ∃ c, t.commands[n]? = some c ∧ t.at? n = some c ∧
      t.numbered? (.int n) = some c) ∧
    (∀ id : Json, (∀ n : Nat, n < t.size → id ≠ .int n) → t.numbered? id = none) ∧
    (∀ name c, t.named? name = some c ↔ ∃ n, t.LastNamed name n c) ∧
    (∀ name, t.named? name = none ↔ ∀ row ∈ t.rows, row.1 ≠ name) ∧
    (∀ name, (t.contains name = true ↔ t.named? name ≠ none) ∧
      (t.contains name = true ↔ name ∈ t.names)) ∧
    ∀ (n : Nat) (c : Command), t.commands[n]? = some c →
      (t.named? c.name = some c ↔
        ∀ (m : Nat) (row : String × Effect), n < m → t.rows[m]? = some row → row.1 ≠ c.name) := by
  refine ⟨⟨t.length_commands, rfl, ?_, ?_⟩, ?_, ?_, ?_, ?_, ?_, ?_⟩
  · refine List.ext_getElem? fun n => ?_
    rw [List.getElem?_map, Catalogue.commands_getElem?, Catalogue.names, List.getElem?_map,
      Option.map_map]
    rfl
  · intro n name effect hrow
    rw [Catalogue.commands_getElem?, hrow, Option.map_some]
  · intro n hn
    have hlt : n < t.commands.length := t.length_commands.symm ▸ hn
    have hc := List.getElem?_eq_getElem hlt
    exact ⟨_, hc, (t.at?_natCast n).trans hc, Catalogue.numbered?_eq_some_iff.mpr ⟨n, rfl, hc⟩⟩
  · intro id hid
    refine Option.eq_none_iff_forall_ne_some.mpr fun c hc => ?_
    obtain ⟨n, rfl, hn⟩ := Catalogue.numbered?_eq_some_iff.mp hc
    have hlt := (List.getElem?_eq_some_iff.mp hn).1
    rw [t.length_commands] at hlt
    exact hid n hlt rfl
  · exact fun name c => Catalogue.named?_iff_lastNamed
  · intro name
    rw [Catalogue.named?_eq_none_iff]
    unfold Catalogue.names
    rw [List.mem_map]
    exact ⟨fun h row hrow hname => h ⟨row, hrow, hname⟩, fun h ⟨row, hrow, hname⟩ => h row hrow hname⟩
  · intro name
    refine ⟨?_, Catalogue.contains_iff⟩
    rw [Catalogue.contains_iff, Ne, Catalogue.named?_eq_none_iff, Decidable.not_not]
  · exact fun n c hc => Catalogue.named?_name_iff hc

/-- Two of three rows have one name, and one has a name that is no word. The later row of the name
is found by it and hides the earlier one, which keeps its number; neither a truth value nor an
integer below zero or from three on is the number of a command. -/
theorem tables_are_coherent_hidden_row :
    let t : Catalogue := ⟨1, [("MoO", .increment), ("a b", .clear), ("MoO", .decrement)]⟩
    let first : Command := ⟨1, 0, "MoO", .increment⟩
    let last : Command := ⟨1, 2, "MoO", .decrement⟩
    t.commands[0]? = some first ∧ t.numbered? (.int 0) = some first ∧
      t.named? "MoO" = some last ∧ t.named? first.name ≠ some first ∧
      t.contains "a b" = true ∧ t.named? "moo" = none ∧
      t.numbered? (.bool true) = none ∧ t.numbered? (.int (-1)) = none ∧
      t.numbered? (.int 3) = none := by
  intro t first last
  obtain ⟨-, hnumber, hother, hname, hnone, hcontains, hown⟩ := tables_are_coherent t
  have hfirst : t.commands[0]? = some first := rfl
  have hlast : t.LastNamed "MoO" 2 last := by
    refine ⟨rfl, rfl, fun m row hm hrow => ?_⟩
    have hlt : m < 3 := (List.getElem?_eq_some_iff.mp hrow).1
    omega
  refine ⟨hfirst, ?_, (hname _ _).mpr ⟨2, hlast⟩, ?_, ?_, (hnone "moo").mpr (by decide),
    hother _ fun n _ => nofun, hother _ fun n _ h => ?_, hother _ fun n hn h => ?_⟩
  · obtain ⟨c, hc, -, hfound⟩ := hnumber 0 (by decide)
    exact hfound.trans (hc.symm.trans hfirst)
  · exact fun h => (hown 0 first hfirst).mp h 2 _ (by decide) rfl rfl
  · exact (hcontains "a b").2.mpr (by decide)
  · have hn : (-1 : Int) = n := Json.int.inj h
    omega
  · have hsize : t.size = 3 := rfl
    have hn' : (3 : Int) = n := Json.int.inj h
    omega

end Moo
