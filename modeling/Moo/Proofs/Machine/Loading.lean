import Moo.Proofs.Command.Catalogue
import Moo.Proofs.Command.Names
import Moo.Source

/-!
# What can be loaded

A command belongs to a catalogue just if the catalogue has it under its number
(`Catalogue.at?_id_iff`), and no command belongs to two of them. A machine refuses a program for
lack of cells or else for the first command that does not belong (`Machine.load_eq_foreign_iff`),
and loads every other one. So the program of a text is loaded under the catalogue that it was read
with and, unless it is empty, under no other (`programs_load_at_home`).
-/

namespace Moo

variable {t t' : Catalogue} {c k : Command} {program : List Command} {memorySize : Int}
  {position : Nat}

namespace Catalogue

/-! ## Whose a command is -/

theorem at?_id_iff : t.at? c.id = some c ↔ c ∈ t.commands := by
  refine ⟨fun h => ?_, at?_of_mem⟩
  obtain ⟨row, hrow, hc⟩ := at?_eq_some h
  rw [Int.toNat_natCast] at hrow hc
  obtain ⟨hlt, rfl⟩ := List.getElem?_eq_some_iff.mp hrow
  exact List.mem_mapIdx.mpr ⟨c.id, hlt, hc.symm⟩

theorem brand_of_mem (h : c ∈ t.commands) : c.brand = t.brand := by
  obtain ⟨i, hi, rfl⟩ := List.mem_mapIdx.mp h
  rfl

/-- Two catalogues share no command, even if they have the same rows. -/
theorem not_mem_of_brand_ne (hne : t'.brand ≠ t.brand) (h : c ∈ t.commands) :
    c ∉ t'.commands :=
  fun h' => hne ((brand_of_mem h').symm.trans (brand_of_mem h))

theorem at?_of_mem_program {text : String} (h : c ∈ t.program text) : t.at? c.id = some c := by
  obtain ⟨token, -, hc⟩ := List.mem_filterMap.mp h
  exact at?_of_named? hc

/-! ## The first foreign command -/

/-- The command is the first one in the program that does not belong to the catalogue. -/
structure FirstForeign (t : Catalogue) (program : List Command) (c : Command) (position : Nat) :
    Prop where
  found : program[position]? = some c
  foreign : c ∉ t.commands
  before : ∀ k ∈ program.take position, k ∈ t.commands

theorem FirstForeign.head (h : c ∉ t.commands) (rest : List Command) :
    FirstForeign t (c :: rest) c 0 := ⟨rfl, h, List.forall_mem_nil _⟩

theorem firstForeign_cons (hk : k ∈ t.commands) :
    FirstForeign t (k :: program) c (position + 1) ↔ FirstForeign t program c position := by
  constructor
  · rintro ⟨found, foreign, before⟩
    exact ⟨found, foreign, (List.forall_mem_cons.mp before).2⟩
  · rintro ⟨found, foreign, before⟩
    exact ⟨found, foreign, List.forall_mem_cons.mpr ⟨hk, before⟩⟩

theorem exists_firstForeign_iff :
    (∃ c position, FirstForeign t program c position) ↔ ∃ c ∈ program, c ∉ t.commands := by
  constructor
  · rintro ⟨c, position, h⟩
    exact ⟨c, List.mem_of_getElem? h.found, h.foreign⟩
  · rintro ⟨c, hc, hforeign⟩
    induction program with
    | nil => exact absurd hc List.not_mem_nil
    | cons k rest ih =>
      by_cases hk : k ∈ t.commands
      · have hrest : c ∈ rest := (List.mem_cons.mp hc).resolve_left fun h => hforeign (h ▸ hk)
        obtain ⟨d, position, h⟩ := ih hrest
        exact ⟨d, position + 1, (firstForeign_cons hk).mpr h⟩
      · exact ⟨k, 0, .head hk rest⟩

end Catalogue

open Catalogue (FirstForeign)

/-! ## How loading comes out -/

namespace Machine

theorem firstForeign_of_foreign? {start n : Nat} (h : foreign? t start program = some (c, n)) :
    ∃ position, n = start + position ∧ FirstForeign t program c position := by
  induction program generalizing start with
  | nil => cases h
  | cons k rest ih =>
    rw [foreign?] at h
    split at h
    · next hk =>
      obtain ⟨position, rfl, hfirst⟩ := ih h
      exact ⟨position + 1, by omega,
        (Catalogue.firstForeign_cons (Catalogue.at?_id_iff.mp hk)).mpr hfirst⟩
    · next hk =>
      cases h
      exact ⟨0, rfl, .head (fun hmem => hk (Catalogue.at?_id_iff.mpr hmem)) rest⟩

theorem foreign?_of_firstForeign (h : FirstForeign t program c position) (start : Nat) :
    foreign? t start program = some (c, start + position) := by
  induction program generalizing start position with
  | nil => cases h.found
  | cons k rest ih =>
    rw [foreign?]
    cases position with
    | zero =>
      cases h.found
      rw [if_neg fun hk => h.foreign (Catalogue.at?_id_iff.mp hk)]
      rfl
    | succ position =>
      have hk : k ∈ t.commands := h.before k List.mem_cons_self
      rw [if_pos (Catalogue.at?_id_iff.mpr hk), ih ((Catalogue.firstForeign_cons hk).mp h),
        Nat.add_right_comm, Nat.add_assoc]

theorem load_eq_memorySize_iff {size : Int} :
    load t program memorySize = .error (.memorySize size) ↔ memorySize < 1 ∧ size = memorySize := by
  unfold load
  split
  · next hsize =>
    rw [Except.error.injEq, LoadError.memorySize.injEq]
    exact ⟨fun h => ⟨hsize, h.symm⟩, fun h => h.2.symm⟩
  · next hsize =>
    refine iff_of_false ?_ fun h => hsize h.1
    split <;> exact nofun

theorem load_eq_foreign_iff {name : String} (hsize : 1 ≤ memorySize) :
    load t program memorySize = .error (.foreignCommand name position) ↔
      ∃ c, FirstForeign t program c position ∧ c.name = name := by
  unfold load
  rw [if_neg (by omega)]
  constructor
  · intro h
    split at h
    · next c n hforeign =>
      obtain ⟨position, rfl, hfirst⟩ := firstForeign_of_foreign? hforeign
      rw [Nat.zero_add] at h
      cases h
      exact ⟨c, hfirst, rfl⟩
    · cases h
  · rintro ⟨c, hfirst, rfl⟩
    rw [foreign?_of_firstForeign hfirst, Nat.zero_add]

theorem exists_load_iff :
    (∃ m, load t program memorySize = .ok m) ↔ 1 ≤ memorySize ∧ ∀ c ∈ program, c ∈ t.commands := by
  constructor
  · rintro ⟨m, h⟩
    exact ⟨(load_eq h).1, fun c hc => Catalogue.at?_id_iff.mp (load_commands h c hc)⟩
  · rintro ⟨hsize, h⟩
    exact exists_load_of_commands hsize fun c hc => Catalogue.at?_id_iff.mpr (h c hc)

theorem exists_load (t : Catalogue) (text : String) {memorySize : Int} (h : 1 ≤ memorySize) :
    ∃ m, load t (t.program text) memorySize = .ok m :=
  exists_load_of_commands h fun _ hc => Catalogue.at?_of_mem_program hc

end Machine

/-! ## Main statement -/

open Machine (load)

/-- A machine refuses a program for its number of cells just if that is below one. Where there is a
cell, it refuses the program for a foreign command just if there is one, and tells the name and the
position of the first; and it loads the program just if every command belongs to its catalogue. A
command of another catalogue never does, whatever the rows of the two. So what a text names is
loaded under the catalogue that the text was read with, and every other catalogue refuses it at its
first command, unless the text names nothing. -/
theorem programs_load_at_home (t : Catalogue) :
    (∀ (program : List Command) (memorySize : Int),
      (∀ size, load t program memorySize = .error (.memorySize size) ↔
        memorySize < 1 ∧ size = memorySize) ∧
      (1 ≤ memorySize →
        ((∃ name position, load t program memorySize = .error (.foreignCommand name position)) ↔
          ∃ c ∈ program, c ∉ t.commands) ∧
        (∀ name position, load t program memorySize = .error (.foreignCommand name position) ↔
          ∃ c, FirstForeign t program c position ∧ c.name = name) ∧
        ((∃ m, load t program memorySize = .ok m) ↔ ∀ c ∈ program, c ∈ t.commands))) ∧
    (∀ t' : Catalogue, t'.brand ≠ t.brand → ∀ c ∈ t'.commands, c ∉ t.commands) ∧
    (∀ (text : String) (memorySize : Int), 1 ≤ memorySize →
      ∃ m, load t (t.program text) memorySize = .ok m) ∧
    ∀ (t' : Catalogue) (text : String) (memorySize : Int), t'.brand ≠ t.brand →
      t.program text ≠ [] → 1 ≤ memorySize →
        ∃ c rest, t.program text = c :: rest ∧
          load t' (t.program text) memorySize = .error (.foreignCommand c.name 0) := by
  refine ⟨fun program memorySize => ⟨?_, fun hsize => ⟨?_, ?_, ?_⟩⟩, ?_, ?_, ?_⟩
  · exact fun size => Machine.load_eq_memorySize_iff
  · rw [← Catalogue.exists_firstForeign_iff]
    simp only [Machine.load_eq_foreign_iff hsize]
    constructor
    · rintro ⟨-, position, c, hfirst, -⟩
      exact ⟨c, position, hfirst⟩
    · rintro ⟨c, position, hfirst⟩
      exact ⟨c.name, position, c, hfirst, rfl⟩
  · exact fun name position => Machine.load_eq_foreign_iff hsize
  · rw [Machine.exists_load_iff]
    exact and_iff_right hsize
  · exact fun t' hne c hc => Catalogue.not_mem_of_brand_ne hne.symm hc
  · exact fun text memorySize hsize => Machine.exists_load t text hsize
  · intro t' text memorySize hne hnames hsize
    obtain ⟨c, rest, hprogram⟩ := List.exists_cons_of_ne_nil hnames
    have hc : c ∈ t.commands :=
      Catalogue.at?_id_iff.mp (Catalogue.at?_of_mem_program (hprogram ▸ List.mem_cons_self))
    refine ⟨c, rest, hprogram, ?_⟩
    rw [hprogram, Machine.load_eq_foreign_iff hsize]
    exact ⟨c, .head (Catalogue.not_mem_of_brand_ne hne hc) rest, rfl⟩

/-- Two catalogues with the same rows, two of which have one name. A command of the second catalogue
is refused under the first one behind a command of its own, and what a text names under the first
one is loaded there and refused under the second. -/
theorem programs_load_at_home_same_rows :
    let rows : List (String × Effect) :=
      [("a b", .clear), ("MoO", .increment), ("MoO", .decrement)]
    let t : Catalogue := ⟨1, rows⟩
    let t' : Catalogue := ⟨2, rows⟩
    let error : LoadError := .foreignCommand "MoO" 1
    load t [⟨1, 0, "a b", .clear⟩, ⟨2, 1, "MoO", .increment⟩] 1 = .error error ∧
      error.message = "command 'MoO' at position 1 does not belong to this machine's registry" ∧
      (∃ m, load t (t.program "MoO, a b") 1 = .ok m) ∧
      ∃ c rest, t.program "MoO, a b" = c :: rest ∧
        load t' (t.program "MoO, a b") 1 = .error (.foreignCommand c.name 0) := by
  intro rows t t' error
  obtain ⟨hload, -, hhome, habroad⟩ := programs_load_at_home t
  have hfirst : FirstForeign t [⟨1, 0, "a b", .clear⟩, ⟨2, 1, "MoO", .increment⟩]
      ⟨2, 1, "MoO", .increment⟩ 1 := ⟨rfl, by decide, by decide⟩
  have hnames : t.program "MoO, a b" ≠ [] := by decide +kernel
  refine ⟨?_, by decide +kernel, hhome _ 1 (by decide), habroad t' _ 1 (by decide) hnames (by decide)⟩
  exact (((hload _ 1).2 (by decide)).2.1 "MoO" 1).mpr ⟨_, hfirst, rfl⟩

end Moo
