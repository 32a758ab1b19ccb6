import Moo.Device.Buffer
import Moo.Proofs.Machine.Layout
import Moo.Proofs.Machine.Ring

/-!
# Turning the ring

`Layout.rotation size k` turns the ring of cells by `k` places: the cell at `j` goes to `j + k`
around the ring, and the cursor with it. Since the cursor moves by addition on the ring, every step
commutes with turning it, at both ends and on a ring of one cell, too
(`steps_commute_with_rotation`).
-/

namespace Moo

variable {σ ω : Type}

namespace Layout

variable {size : Nat} {k : Int} {m : Machine}

/-- The cell at each position comes from the one that lies `k` places before it. -/
def rotate (size : Nat) (k : Int) (old : Array Nat) : Array Nat :=
  Array.ofFn fun j : Fin size => old.getD (((j : Nat) - k) % size).toNat 0

theorem size_rotate (old : Array Nat) : (rotate size k old).size = size := Array.size_ofFn

theorem getElem_rotate {old : Array Nat} {j : Nat} (h : j < (rotate size k old).size) :
    (rotate size k old)[j] = old.getD (((j : Nat) - k) % size).toNat 0 := Array.getElem_ofFn _

theorem getD_rotate {old : Array Nat} {j : Nat} (h : j < size) :
    (rotate size k old).getD j 0 = old.getD (((j : Nat) - k) % size).toNat 0 := by
  have hlt : j < (rotate size k old).size := by rwa [size_rotate]
  rw [← getElem_rotate hlt, Array.getD, dif_pos hlt]
  rfl

theorem getD_setIfInBounds {old : Array Nat} {i j : Nat} (value : Nat) (h : i < old.size) :
    (old.setIfInBounds i value).getD j 0 = if i = j then value else old.getD j 0 := by
  rw [Array.getD_eq_getD_getElem?, Array.getElem?_setIfInBounds, Array.getD_eq_getD_getElem?]
  by_cases hij : i = j
  · rw [if_pos hij, if_pos h, if_pos hij]
    rfl
  · rw [if_neg hij, if_neg hij]

def rotation (size : Nat) (k : Int) : Layout size where
  cells := rotate size k
  place i := ((i + k) % size).toNat
  value {old i} _ hi := by
    rw [getD_rotate (ring_lt (by omega) _), ring_back hi]
  store {old i} value hsize hi := by
    refine Array.ext (by simp only [size_rotate, Array.size_setIfInBounds]) fun j hj hj' => ?_
    have hlt : j < size := by rwa [size_rotate] at hj
    have hold : j < (rotate size k old).size := by rwa [size_rotate]
    rw [getElem_rotate, getD_setIfInBounds value (by omega), Array.getElem_setIfInBounds hold,
      getElem_rotate]
    -- what is written lands at `j` just if it was written where `j` comes from
    have hplace : i = (((j : Nat) - k) % size).toNat ↔ (((i : Nat) + k) % size).toNat = j := by
      constructor
      · rintro rfl
        exact ring_forth hlt k
      · rintro rfl
        exact (ring_back hi k).symm
    simp only [hplace]

theorem onRing_rotation (hm : (rotation size k).Fits m) (position : Int) :
    ((rotation size k).machine m).onRing (position + k) =
      (rotation size k).place (m.onRing position) := by
  have hpos : 0 < size := Nat.lt_of_le_of_lt (Nat.zero_le _) hm.cursor
  show ((position + k) % ((rotate size k m.cells).size : Nat)).toNat =
    ((((position % m.cells.size).toNat : Nat) + k) % size).toNat
  rw [size_rotate, hm.cells, ring_add hpos]

theorem rotation_moves (hm : (rotation size k).Fits m) (places : Int) :
    ((rotation size k).machine m).onRing ((rotation size k).place m.cursor + places) =
      (rotation size k).place (m.onRing (m.cursor + places)) := by
  have hpos : 0 < size := Nat.lt_of_le_of_lt (Nat.zero_le _) hm.cursor
  rw [← onRing_rotation hm]
  show (((((m.cursor : Int) + k) % size).toNat + places) % ((rotate size k m.cells).size : Nat)).toNat =
    ((m.cursor + places + k) % ((rotate size k m.cells).size : Nat)).toNat
  rw [size_rotate, ring_add hpos, Int.add_right_comm]

theorem rotation_followsStep (hm : (rotation size k).Fits m) : (rotation size k).FollowsStep m :=
  fun _ _ _ _ _ _ =>
    ⟨fun _ => by simpa only [Int.sub_eq_add_neg] using rotation_moves hm (-1),
      fun _ => rotation_moves hm 1⟩

/-! ## Steps on the ring turned -/

variable {d : Device σ} {note : Event → World σ (Recorded ω) → ω} {a a' : World σ (Recorded ω)}
  {t : Catalogue} {program : List Command} {memorySize : Int}

theorem nth_rotated (ha : a.machine.Intact t program memorySize)
    (h : (rotation memorySize.toNat k).Relates a a') (n : Nat) :
    Agree (rotation memorySize.toNat k).Relates ((Host.watching d note).step.nth n a)
      ((Host.watching d note).step.nth n a') := by
  refine (watching_nth_laidOut (n := n + 1) h fun j _ => ?_).2 n (Nat.lt_succ_self n)
  have hdriven : (Host.watching d note).Driven a (Nat.iterate (Host.watching d note).step.final j a) :=
    Host.Driven.start.iterate j
  have hfits := Fits.of_intact (hdriven.intact ha) (rotation memorySize.toNat k)
  exact ⟨hfits, rotation_followsStep hfits⟩

theorem rotate_replicate (size : Nat) (k : Int) :
    rotate size k (Array.replicate size 0) = Array.replicate size 0 := by
  refine Array.ext (by rw [size_rotate, Array.size_replicate]) fun j hj _ => ?_
  rw [getElem_rotate, Array.getD_eq_getD_getElem?, Array.getElem?_replicate, Array.getElem_replicate]
  split <;> rfl

/-- Where the cursor is set on a cleared ring does not matter but for the places between. -/
theorem setCursor_rotated {m : Machine} (hload : Machine.load t program memorySize = .ok m) (s : σ)
    (own : ω) (position k : Int) :
    (rotation memorySize.toNat k).Relates
      (((Host.watching d note).setCursor position).final ⟨m, s, .ofOwn own⟩)
      (((Host.watching d note).setCursor (position + k)).final ⟨m, s, .ofOwn own⟩) := by
  have hfits := Fits.of_intact (.of_load hload) (rotation memorySize.toNat k)
  have hcells : (rotation memorySize.toNat k).cells m.cells = m.cells := by
    obtain ⟨-, rfl⟩ := Machine.load_eq hload
    exact rotate_replicate _ _
  have hring : m.onRing (position + k) = (rotation memorySize.toNat k).place (m.onRing position) := by
    rw [← onRing_rotation hfits]
    show _ = ((position + k) % (((rotation memorySize.toNat k).cells m.cells).size : Nat)).toNat
    rw [hcells]
    rfl
  refine ⟨?_, rfl, ?_⟩
  · show ({ m with cursor := m.onRing (position + k) } : Machine) =
      { m with
        cells := (rotation memorySize.toNat k).cells m.cells
        cursor := (rotation memorySize.toNat k).place (m.onRing position) }
    rw [hcells, hring]
  · show #[Event.cursorChanged (m.onRing (position + k))] =
      #[Event.cursorChanged (m.onRing position)].map (rotation memorySize.toNat k).event
    rw [hring]
    simp [event]

end Layout

/-! ## Main statement -/

/-- A loaded machine before subscribers that only watch, and the ring of its cells turned by any
number of places, with the cursor: the cell at `j` is found at `j + k` around the ring. From
whatever world step after step leads to, and from that world with the ring turned, any number of
steps come out alike: the same fault or none, and then the machine with the ring turned, the same
device, and the same events but for the cursor, which is told `k` places on. Likewise for runs from
the cleared ring with the cursor set at any position, and set `k` places on. -/
theorem steps_commute_with_rotation {t : Catalogue} {program : List Command} {memorySize : Int}
    {m : Machine} (hload : Machine.load t program memorySize = .ok m) (d : Device σ) (s : σ)
    (note : Event → World σ (Recorded ω) → ω) (own : ω) (k : Int) :
    let h := Host.watching d note
    let start : World σ (Recorded ω) := ⟨m, s, .ofOwn own⟩
    let turned := (Layout.rotation memorySize.toNat k).Relates (σ := σ) (ω := ω)
    (∀ a a', h.Driven start a → turned a a' →
      (∀ j : Nat, j < memorySize →
        a'.machine.cells.getD ((j + k) % memorySize).toNat 0 = a.machine.cells.getD j 0) ∧
      ∀ n, Agree turned (h.step.nth n a) (h.step.nth n a')) ∧
    ∀ position n, Agree turned (h.step.nth n ((h.setCursor position).final start))
      (h.step.nth n ((h.setCursor (position + k)).final start)) := by
  intro h start turned
  have hi : m.Intact t program memorySize := .of_load hload
  refine ⟨fun a a' ha hturned => ⟨fun j hj => ?_, Layout.nth_rotated (ha.intact hi) hturned⟩,
    fun position => ?_⟩
  · have hfits := Layout.Fits.of_intact (ha.intact hi) (Layout.rotation memorySize.toNat k)
    have hsize : ((memorySize.toNat : Nat) : Int) = memorySize := Int.toNat_of_nonneg (by omega)
    have hcell : (a'.machine.cells).getD ((j + k) % (memorySize.toNat : Nat)).toNat 0 =
        a.machine.cells.getD j 0 := by
      rw [hturned.machine]
      exact (Layout.rotation memorySize.toNat k).value hfits.cells (by omega)
    rwa [hsize] at hcell
  · have hset : ((h.setCursor position).final start).machine.Intact t program memorySize :=
      Host.watching_admits.bears.setCursor position start hi
    exact Layout.nth_rotated hset (Layout.setCursor_rotated hload s own position k)

/-- Three cells and a move to the left from the first one, which leads to the last, and the same
with the ring turned by one place, where it leads from the second cell to the first. -/
theorem steps_commute_with_rotation_left :
    let m : Machine := ⟨.standard, #[⟨0, 1, "mOo", .left⟩], #[0, 0, 0], 0, 0, none, .none, false,
      false, false⟩
    let h : Host Buffer (Recorded Unit) := .watching Buffer.device fun _ _ => ()
    let start : World Buffer (Recorded Unit) := ⟨m, .ofInput "" [], .ofOwn ()⟩
    let b' := h.step.final ((h.setCursor 1).final start)
    Machine.load .standard [⟨0, 1, "mOo", .left⟩] 3 = .ok m ∧
      h.step ((h.setCursor 1).final start) = .ok () b' ∧ b'.machine.cursor = 0 ∧
      b'.audience.events = #[.cursorChanged 1, .cursorChanged 0, .done] ∧
      ∃ b, h.step ((h.setCursor 0).final start) = .ok () b ∧
        (Layout.rotation 3 1).Relates b b' ∧ b.machine.cursor = 2 := by
  intro m h start b'
  have hload : Machine.load .standard [⟨0, 1, "mOo", .left⟩] 3 = .ok m := rfl
  have hstep : h.step ((h.setCursor 1).final start) = .ok () b' := rfl
  obtain ⟨-, hset⟩ := steps_commute_with_rotation hload Buffer.device (.ofInput "" [])
    (fun _ _ => ()) () 1
  have hagree : Agree (Layout.rotation 3 1).Relates (h.step ((h.setCursor 0).final start))
      (h.step ((h.setCursor 1).final start)) := hset 0 0
  rw [hstep] at hagree
  obtain ⟨b, hb, hturned⟩ := hagree.exists_ok
  refine ⟨hload, hstep, rfl, rfl, b, hb, hturned, ?_⟩
  cases hb
  rfl

end Moo
