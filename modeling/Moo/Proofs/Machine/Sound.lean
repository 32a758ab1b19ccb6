import Moo.Machine.Basic

/-!
# Sound machines

`Sound m`: cells and register hold numbers below 256 and the cursor is on the ring.
`Change m n`: `n` comes from `m` by one of the changes that operations make, the advance of the
counter apart; every change keeps a machine sound and on the same program, catalogue and number of
cells (`Intact`), and sets the counter, if at all, to a position of the program.
-/

namespace Moo.Machine

/-- Cells and register hold bytes, and the cursor is on the ring. -/
structure Sound (m : Machine) : Prop where
  cells : ∀ v ∈ m.cells, v < 256
  cursor : m.cursor < m.cells.size
  register : ∀ v ∈ m.register, v < 256

/-- A sound machine on this program, under this catalogue and with so many cells. -/
structure Intact (t : Catalogue) (program : List Command) (memorySize : Int) (m : Machine) : Prop
    extends Sound m where
  catalogue : m.catalogue = t
  program : m.program = program.toArray
  size : (m.cells.size : Int) = memorySize

theorem wrap_lt (n : Int) : wrap n < 256 := by
  unfold wrap
  omega

theorem Sound.value_lt {m : Machine} (h : m.Sound) : m.value < 256 := by
  have hlt := h.cursor
  have hv : m.value = m.cells[m.cursor] := by
    unfold value
    simp [hlt]
  rw [hv]
  exact h.cells _ (Array.getElem_mem hlt)

/-! ## Loading -/

theorem load_eq {t : Catalogue} {program : List Command} {memorySize : Int} {m : Machine}
    (h : load t program memorySize = .ok m) :
    1 ≤ memorySize ∧ m = {
      catalogue := t
      program := program.toArray
      cells := Array.replicate memorySize.toNat 0
      cursor := 0
      counter := 0
      register := none
      skip := .none
      broken := false
      finished := false
      jumped := false } := by
  unfold load at h
  split at h
  · cases h
  · split at h
    · cases h
    · cases h
      exact ⟨by omega, rfl⟩

theorem Intact.of_load {t : Catalogue} {program : List Command} {memorySize : Int} {m : Machine}
    (h : load t program memorySize = .ok m) : m.Intact t program memorySize := by
  obtain ⟨hsize, rfl⟩ := load_eq h
  refine ⟨⟨?_, ?_, ?_⟩, rfl, rfl, ?_⟩
  · intro v hv
    rw [(Array.mem_replicate.mp hv).2]
    omega
  · simp only [Array.size_replicate]
    omega
  · intro v hv
    cases hv
  · simp only [Array.size_replicate]
    omega

/-! ## Changes -/

/-- A change that an operation makes to a machine, the advance of the counter apart. -/
inductive Change (m : Machine) : Machine → Prop where
  | store {value : Nat} : value < 256 → Change m (m.store value)
  | move (position : Int) : Change m { m with cursor := m.onRing position }
  | register {register : Option Nat} : (∀ v ∈ register, v < 256) → Change m { m with register }
  | jump (p : Command → Nat → Bool) : Change m (m.jumpWhere p)
  | skip (skip : Skip) : Change m { m with skip }
  | refuse : Change m { m with broken := true }
  | finish : Change m { m with finished := true }

theorem onRing_lt {m : Machine} (h : 0 < m.cells.size) (position : Int) :
    m.onRing position < m.cells.size := by
  have hpos : (0 : Int) < m.cells.size := by omega
  have h0 := Int.emod_nonneg position (Int.ne_of_gt hpos)
  have h1 := Int.emod_lt_of_pos position hpos
  unfold onRing
  omega

theorem lastBelow_lt {program : Array Command} {p : Command → Nat → Bool} {bound i : Nat}
    (h : lastBelow program p bound = some i) : i < bound := by
  induction bound with
  | zero => cases h
  | succ j ih =>
    unfold lastBelow at h
    split at h
    · split at h
      · cases h
        omega
      · have := ih h
        omega
    · have := ih h
      omega

theorem jumpWhere_cases (p : Command → Nat → Bool) (m : Machine) :
    (∃ i, i < m.program.size ∧ m.jumpWhere p = { m with counter := i, jumped := true }) ∨
      m.jumpWhere p = m := by
  unfold jumpWhere
  split
  · next i hi => exact .inl ⟨i, lastBelow_lt hi, rfl⟩
  · exact .inr rfl

theorem jumpWhere_finished (p : Command → Nat → Bool) (m : Machine) :
    (m.jumpWhere p).finished = m.finished := by
  obtain ⟨i, -, e⟩ | e := jumpWhere_cases p m <;> rw [e]

theorem Change.sound {m n : Machine} (h : m.Change n) (hm : m.Sound) : n.Sound := by
  have hpos : 0 < m.cells.size := Nat.lt_of_le_of_lt (Nat.zero_le _) hm.cursor
  cases h with
  | store hv =>
    refine ⟨?_, ?_, hm.register⟩
    · intro u hu
      rcases Array.mem_or_eq_of_mem_setIfInBounds hu with hu | rfl
      · exact hm.cells u hu
      · exact hv
    · show m.cursor < (m.cells.setIfInBounds m.cursor _).size
      rw [Array.size_setIfInBounds]
      exact hm.cursor
  | move position => exact ⟨hm.cells, onRing_lt hpos position, hm.register⟩
  | register hr => exact ⟨hm.cells, hm.cursor, hr⟩
  | jump p =>
    obtain ⟨i, -, e⟩ | e := jumpWhere_cases p m
    · rw [e]
      exact ⟨hm.cells, hm.cursor, hm.register⟩
    · rw [e]
      exact hm
  | skip s => exact ⟨hm.cells, hm.cursor, hm.register⟩
  | refuse => exact ⟨hm.cells, hm.cursor, hm.register⟩
  | finish => exact ⟨hm.cells, hm.cursor, hm.register⟩

theorem Change.frame {m n : Machine} (h : m.Change n) :
    n.catalogue = m.catalogue ∧ n.program = m.program ∧ n.cells.size = m.cells.size := by
  cases h with
  | store hv => exact ⟨rfl, rfl, Array.size_setIfInBounds⟩
  | jump p =>
    obtain ⟨i, -, e⟩ | e := jumpWhere_cases p m <;> rw [e] <;> exact ⟨rfl, rfl, rfl⟩
  | _ => exact ⟨rfl, rfl, rfl⟩

theorem Change.intact {t : Catalogue} {program : List Command} {memorySize : Int} {m n : Machine}
    (h : m.Change n) (hm : m.Intact t program memorySize) : n.Intact t program memorySize := by
  obtain ⟨hc, hp, hs⟩ := h.frame
  exact ⟨h.sound hm.toSound, hc.trans hm.catalogue, hp.trans hm.program, by rw [hs]; exact hm.size⟩

theorem Change.counter {m n : Machine} (h : m.Change n) :
    n.counter = m.counter ∨ n.counter < n.program.size := by
  cases h with
  | jump p =>
    obtain ⟨i, hi, e⟩ | e := jumpWhere_cases p m
    · rw [e]
      exact .inr hi
    · rw [e]
      exact .inl rfl
  | _ => exact .inl rfl

/-! ## The advance -/

theorem advance_of_unjumped {m : Machine} (hj : m.jumped = false) :
    m.advance = { m with counter := m.counter + 1 } := by
  unfold advance
  rw [hj]
  rfl

theorem advance_of_jumped {m : Machine} (hj : m.jumped = true) :
    m.advance = { m with jumped := false } := by
  unfold advance
  rw [hj]
  rfl

theorem advance_machine (m : Machine) :
    m.advance = { m with counter := m.advance.counter, jumped := false } := by
  cases hj : m.jumped with
  | true => rw [advance_of_jumped hj]
  | false => rw [advance_of_unjumped hj, ← hj]

theorem advance_finished (m : Machine) : m.advance.finished = m.finished := by
  rw [advance_machine]

theorem advance_broken (m : Machine) : m.advance.broken = m.broken := by
  rw [advance_machine]

theorem advance_sound {m : Machine} (hm : m.Sound) : m.advance.Sound := by
  rw [advance_machine]
  exact ⟨hm.cells, hm.cursor, hm.register⟩

theorem advance_intact {t : Catalogue} {program : List Command} {memorySize : Int} {m : Machine}
    (hm : m.Intact t program memorySize) : m.advance.Intact t program memorySize := by
  rw [advance_machine]
  exact ⟨⟨hm.cells, hm.cursor, hm.register⟩, hm.catalogue, hm.program, hm.size⟩

theorem advance_counter_le {m : Machine} (h : m.counter < m.program.size) :
    m.advance.counter ≤ m.advance.program.size := by
  unfold advance
  split
  · exact Nat.le_of_lt h
  · exact h

theorem command?_isSome_iff {m : Machine} :
    m.command?.isSome ↔ m.counter < m.program.size := by
  simp [command?]

end Moo.Machine
