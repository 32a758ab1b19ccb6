import Moo.Proofs.Run.Plain

/-!
# What a snapshot keeps

The imprint of a machine is its cells, cursor, counter and register. It can be read off the snapshot
(`Json.imprint?`): there are as many cells as the snapshot tells, and each is the number under its
numeral, or zero if there is none. Reading a snapshot gives back the imprint of the machine
(`Machine.imprint?_snapshot`), so machines with equal snapshots have equal imprints.
-/

namespace Moo

variable {m n : Machine} {v : Json} {i : Nat}

structure Imprint where
  cells : Array Nat
  cursor : Nat
  counter : Nat
  register : Option Nat
  deriving DecidableEq, Repr

def Machine.imprint (m : Machine) : Imprint := ⟨m.cells, m.cursor, m.counter, m.register⟩

/-! ## Reading snapshots -/

namespace Json

def nat? : Json → Option Nat
  | .int n => if 0 ≤ n then some n.toNat else none
  | _ => none

def register? : Json → Option (Option Nat)
  | .null => some none
  | v => v.nat?.map some

/-- The number under the numeral of a position, zero if there is none. -/
def cellAt (cells : Json) (i : Nat) : Nat := ((cells.field? (toString i)).bind nat?).getD 0

/-- The imprint that a snapshot tells of. -/
def imprint? (v : Json) : Option Imprint := do
  let size ← (← v.field? "memorySize").nat?
  let cells ← v.field? "cells"
  let cursor ← (← v.field? "cursor").nat?
  let counter ← (← v.field? "programCounter").nat?
  let register ← (← v.field? "register").register?
  return ⟨((List.range size).map cells.cellAt).toArray, cursor, counter, register⟩

@[simp]
theorem nat?_nat (k : Nat) : (Json.nat k).nat? = some k := by
  unfold nat? Json.nat
  exact if_pos (Int.natCast_nonneg k)

theorem register?_ofOption (r : Option Nat) : (Json.ofOption .nat r).register? = some r := by
  cases r with
  | none => rfl
  | some k =>
    show (Json.nat k).nat?.map some = _
    rw [nat?_nat]
    rfl

/-! ### The order of members does not matter -/

theorem nat?_sorted (v : Json) : v.sorted.nat? = v.nat? := by
  cases v <;> rfl

theorem register?_sorted (v : Json) : v.sorted.register? = v.register? := by
  cases v <;> rfl

theorem cellAt_sorted (h : v.Distinct) : v.sorted.cellAt = v.cellAt := by
  funext i
  unfold cellAt
  rw [field?_sorted h]
  cases v.field? (toString i) with
  | none => rfl
  | some w => exact congrArg (Option.getD · 0) (nat?_sorted w)

theorem imprint?_sorted (h : v.Distinct) : v.sorted.imprint? = v.imprint? := by
  unfold imprint?
  simp only [field?_sorted h, Option.bind_eq_bind, Option.bind_map, Function.comp_def, nat?_sorted,
    register?_sorted]
  cases hw : v.field? "cells" with
  | none => rfl
  | some w => simp only [Option.bind_some, cellAt_sorted (h.field hw)]

end Json

/-! ## Snapshots -/

/-- The text has digits only, and a zero in front only if it is the numeral of zero. -/
def IsNumeral (s : String) : Prop :=
  s.toList ≠ [] ∧ (∀ c ∈ s.toList, c.isDigit = true) ∧ (s.toList.head? = some '0' → s = toString 0)

theorem isNumeral_toString (i : Nat) : IsNumeral (toString i) := by
  unfold IsNumeral
  rw [toList_toString_nat]
  refine ⟨Nat.toDigits_ne_nil, fun c hc => Number.isDigit_of_mem_toDigits hc, fun hzero => ?_⟩
  rw [Number.head?_toDigits hzero]

namespace Machine

def entries (m : Machine) : List (String × Json) :=
  m.snapshot.cells.map fun cell => (toString cell.1, .nat cell.2)

theorem mem_entries_iff {name : String} : (name, v) ∈ m.entries ↔
    ∃ (i x : Nat), name = toString i ∧ m.cells[i]? = some x ∧ x ≠ 0 ∧ v = .nat x := by
  unfold entries
  rw [List.mem_map]
  constructor
  · rintro ⟨⟨i, x⟩, hmem, hcell⟩
    obtain ⟨k, rfl, hk, hx⟩ := Snapshot.mem_nonzero_iff.mp hmem
    obtain ⟨rfl, rfl⟩ := Prod.mk.inj hcell
    rw [Nat.zero_add]
    exact ⟨k, x, rfl, by rwa [← Array.getElem?_toList], hx, rfl⟩
  · rintro ⟨i, x, rfl, hi, hx, rfl⟩
    refine ⟨(i, x), Snapshot.mem_nonzero_iff.mpr ⟨i, (Nat.zero_add i).symm, ?_, hx⟩, rfl⟩
    rwa [Array.getElem?_toList]

theorem nodup_entries (m : Machine) : (m.entries.map Prod.fst).Nodup := by
  have hpositions := Snapshot.nodup_nonzero 0 m.cells.toList
  have hnames := hpositions.map fun _ _ heq => toString_nat_inj heq
  unfold entries
  rw [List.map_map] at hnames ⊢
  exact hnames

theorem field?_entries {w : Json} :
    (Json.record m.entries).field? (toString i) = some w ↔ (toString i, w) ∈ m.entries := by
  rw [Json.field?_eq_part?]
  refine (Json.part?_name_eq_some_iff (Json.nodup_record m.nodup_entries)).trans ?_
  rw [List.mem_map]
  constructor
  · rintro ⟨⟨name, w'⟩, hmem, heq⟩
    obtain ⟨hname, rfl⟩ := Prod.mk.inj heq
    rwa [← JsonText.ofString_inj.mp hname]
  · exact fun h => ⟨_, h, rfl⟩

theorem field?_entries_of_cell {x : Nat} (hx : m.cells[i]? = some x) :
    (Json.record m.entries).field? (toString i) = if x = 0 then none else some (.nat x) := by
  by_cases h0 : x = 0
  · rw [if_pos h0]
    refine Option.eq_none_iff_forall_ne_some.mpr fun w hw => ?_
    obtain ⟨j, y, hname, hy, hne, -⟩ := mem_entries_iff.mp (field?_entries.mp hw)
    rw [← toString_nat_inj hname, hx] at hy
    exact hne ((Option.some.inj hy).symm.trans h0)
  · rw [if_neg h0]
    exact field?_entries.mpr (mem_entries_iff.mpr ⟨i, x, rfl, hx, h0, rfl⟩)

theorem cellAt_entries {x : Nat} (hx : m.cells[i]? = some x) :
    (Json.record m.entries).cellAt i = x := by
  unfold Json.cellAt
  rw [field?_entries_of_cell hx]
  by_cases h0 : x = 0
  · rw [if_pos h0, h0]
    rfl
  · rw [if_neg h0, Option.bind_some, Json.nat?_nat, Option.getD_some]

theorem snapshot_distinct (m : Machine) : m.snapshot.toJson.Distinct :=
  (Snapshot.Carries.plain (P := fun _ => True) {
    cursor := trivial
    counter := trivial
    register := fun _ _ => trivial
    memorySize := trivial
    cells := fun _ _ => trivial
    positions := Snapshot.nodup_nonzero 0 m.cells.toList }).distinct

theorem imprint?_snapshot (m : Machine) : m.snapshot.toJson.imprint? = some m.imprint := by
  have htape : ((List.range m.cells.size).map (Json.record m.entries).cellAt).toArray = m.cells := by
    refine Array.ext (by simp) fun i _ hi => ?_
    rw [List.getElem_toArray, List.getElem_map, List.getElem_range]
    exact cellAt_entries (Array.getElem?_eq_getElem hi)
  have hsize : m.snapshot.toJson.field? "memorySize" = some (.nat m.cells.size) := rfl
  have hcells : m.snapshot.toJson.field? "cells" = some (.record m.entries) := rfl
  have hcursor : m.snapshot.toJson.field? "cursor" = some (.nat m.cursor) := rfl
  have hcounter : m.snapshot.toJson.field? "programCounter" = some (.nat m.counter) := rfl
  have hregister : m.snapshot.toJson.field? "register" = some (.ofOption .nat m.register) := rfl
  unfold Json.imprint?
  simp only [hsize, hcells, hcursor, hcounter, hregister, Option.bind_eq_bind, Option.bind_some,
    Json.nat?_nat, Json.register?_ofOption, htape]
  rfl

/-- Snapshots tell two machines apart just if their imprints differ, whether or not the order of the
members counts. -/
theorem snapshot_eq_iff :
    (m.snapshot.toJson = n.snapshot.toJson ↔ m.imprint = n.imprint) ∧
      (m.snapshot.toJson.sorted = n.snapshot.toJson.sorted ↔ m.imprint = n.imprint) := by
  have hsame : m.imprint = n.imprint → m.snapshot.toJson = n.snapshot.toJson := by
    intro h
    obtain ⟨hcells, hcursor, hcounter, hregister⟩ := Imprint.mk.inj h
    unfold snapshot
    rw [hcells, hcursor, hcounter, hregister]
  have hback : m.snapshot.toJson.imprint? = n.snapshot.toJson.imprint? → m.imprint = n.imprint := by
    intro h
    rw [imprint?_snapshot, imprint?_snapshot] at h
    exact Option.some.inj h
  refine ⟨⟨fun h => hback (congrArg _ h), hsame⟩, fun h => hback ?_, fun h => congrArg _ (hsame h)⟩
  rw [← Json.imprint?_sorted m.snapshot_distinct, ← Json.imprint?_sorted n.snapshot_distinct, h]

end Machine

/-! ## Main statement -/

/-- A snapshot loses nothing of the cells, the cursor, the counter and the register of a machine.
Its cells are told by the numerals of their positions, without zeros in front and none twice, and
just those that are not zero; each cell is the number under its numeral, or zero if there is none;
and reading the snapshot gives back the whole imprint. So two machines have equal snapshots, whether
or not the order of the members counts, just if they agree on all four. -/
theorem snapshots_lose_nothing :
    (∀ m : Machine, ∃ entries : List (String × Json),
      m.snapshot.toJson.field? "memorySize" = some (.nat m.cells.size) ∧
      m.snapshot.toJson.field? "cells" = some (.record entries) ∧
      (entries.map Prod.fst).Nodup ∧
      (∀ entry ∈ entries, IsNumeral entry.1) ∧
      (∀ name v, (name, v) ∈ entries ↔
        ∃ i x : Nat, name = toString i ∧ m.cells[i]? = some x ∧ x ≠ 0 ∧ v = .nat x) ∧
      (∀ i x : Nat, m.cells[i]? = some x →
        ((Json.record entries).field? (toString i)).getD (.nat 0) = .nat x) ∧
      m.snapshot.toJson.imprint? = some ⟨m.cells, m.cursor, m.counter, m.register⟩) ∧
    ∀ m n : Machine,
      (m.snapshot.toJson = n.snapshot.toJson ↔ m.cells = n.cells ∧ m.cursor = n.cursor ∧
        m.counter = n.counter ∧ m.register = n.register) ∧
      (m.snapshot.toJson.sorted = n.snapshot.toJson.sorted ↔ m.cells = n.cells ∧
        m.cursor = n.cursor ∧ m.counter = n.counter ∧ m.register = n.register) := by
  refine ⟨fun m => ⟨m.entries, rfl, rfl, m.nodup_entries, fun entry hentry => ?_,
    fun name v => Machine.mem_entries_iff, fun i x hx => ?_, m.imprint?_snapshot⟩, fun m n => ?_⟩
  · obtain ⟨i, x, hname, -⟩ := Machine.mem_entries_iff.mp hentry
    exact hname ▸ isNumeral_toString i
  · rw [Machine.field?_entries_of_cell hx]
    by_cases h0 : x = 0
    · rw [if_pos h0, h0]
      rfl
    · rw [if_neg h0]
      rfl
  · have himprint : m.imprint = n.imprint ↔ m.cells = n.cells ∧ m.cursor = n.cursor ∧
        m.counter = n.counter ∧ m.register = n.register :=
      ⟨Imprint.mk.inj, fun ⟨hcells, hcursor, hcounter, hregister⟩ => by
        unfold Machine.imprint
        rw [hcells, hcursor, hcounter, hregister]⟩
    rw [← himprint]
    exact Machine.snapshot_eq_iff

/-- Of eleven cells the second and the last are not zero. A machine whose last cell is zero instead
has another snapshot. -/
theorem snapshots_lose_nothing_two_cells :
    let m : Machine :=
      ⟨.standard, #[], #[0, 7, 0, 0, 0, 0, 0, 0, 0, 0, 3], 10, 0, some 5, .none, false, false, false⟩
    let n : Machine := { m with cells := #[0, 7, 0, 0, 0, 0, 0, 0, 0, 0, 0] }
    (∃ entries : List (String × Json), m.snapshot.toJson.field? "cells" = some (.record entries) ∧
      ("10", .nat 3) ∈ entries ∧ IsNumeral "10" ∧
      ((Json.record entries).field? "10").getD (.nat 0) = .nat 3 ∧
      ((Json.record entries).field? "9").getD (.nat 0) = .nat 0) ∧
    m.snapshot.toJson ≠ n.snapshot.toJson := by
  intro m n
  obtain ⟨entries, -, hcells, -, hnumerals, hentries, hlookup, -⟩ := snapshots_lose_nothing.1 m
  have hmem : ("10", Json.nat 3) ∈ entries :=
    (hentries _ _).mpr ⟨10, 3, rfl, rfl, by decide, rfl⟩
  refine ⟨⟨entries, hcells, hmem, hnumerals _ hmem, hlookup 10 3 rfl, hlookup 9 0 rfl⟩,
    fun h => ?_⟩
  have hsame := ((snapshots_lose_nothing.2 m n).1.mp h).1
  exact absurd hsame (by decide)

end Moo
