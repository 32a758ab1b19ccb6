import Moo.Machine.Snapshot
import Moo.Proofs.Audience.Watching
import Moo.Proofs.Machine.Course

/-!
# The picture that events draw

Whoever hears the events of a machine and nothing else can draw its cells, cursor and register:
start from a blank picture and follow the events (`Picture.hearAll`). A shift whose events turn the
picture of a machine into that of what it becomes is drawn (`Machine.Draws`). Every deed is, also
one that is cut short, so the picture is never wrong (`Host.doesAll_drawn`). A snapshot keeps the
cells of the picture (`Snapshot.mem_nonzero_iff`).
-/

namespace Moo

open Act

variable {σ ω : Type}

structure Picture where
  cells : Array Nat
  cursor : Nat
  register : Option Nat
  deriving DecidableEq, Repr

namespace Picture

def blank (memorySize : Int) : Picture := ⟨Array.replicate memorySize.toNat 0, 0, none⟩

/-- The picture after an event. A value is drawn where the cursor is. -/
def hear (p : Picture) : Event → Picture
  | .valueChanged value => { p with cells := p.cells.setIfInBounds p.cursor value }
  | .cursorChanged cursor => { p with cursor }
  | .registerChanged register => { p with register }
  | .badEval _ => p
  | .done => p

def hearAll (p : Picture) (events : List Event) : Picture := events.foldl hear p

theorem hearAll_append (p : Picture) (a b : List Event) :
    p.hearAll (a ++ b) = (p.hearAll a).hearAll b := List.foldl_append

end Picture

theorem Snapshot.mem_nonzero_iff {position i v : Nat} {cells : List Nat} :
    (i, v) ∈ nonzero position cells ↔ ∃ k, i = position + k ∧ cells[k]? = some v ∧ v ≠ 0 := by
  induction cells generalizing position with
  | nil => exact iff_of_false List.not_mem_nil nofun
  | cons u rest ih =>
    have later : (i, v) ∈ nonzero (position + 1) rest ↔
        ∃ k, i = position + (k + 1) ∧ rest[k]? = some v ∧ v ≠ 0 := by
      simp only [ih, Nat.add_assoc, Nat.add_comm 1]
    -- the head is the cell at the position itself, if it is kept
    have head : (∃ k, i = position + k ∧ (u :: rest)[k]? = some v ∧ v ≠ 0) ↔
        ((i, v) = (position, u) ∧ u ≠ 0) ∨ (i, v) ∈ nonzero (position + 1) rest := by
      rw [later]
      constructor
      · rintro ⟨_ | k, rfl, hk, hv⟩
        · cases hk
          exact .inl ⟨rfl, hv⟩
        · exact .inr ⟨k, rfl, hk, hv⟩
      · rintro (⟨h, hu⟩ | ⟨k, rfl, hk, hv⟩)
        · cases h
          exact ⟨0, rfl, rfl, hu⟩
        · exact ⟨k + 1, rfl, hk, hv⟩
    rw [head, nonzero]
    by_cases hu : u = 0
    · rw [if_pos hu]
      exact ⟨.inr, fun h => h.resolve_left fun h => h.2 hu⟩
    · rw [if_neg hu, List.mem_cons]
      exact or_congr_left (iff_self_and.mpr fun _ => hu)

namespace Machine

variable {m : Machine} {x : Shift}

def picture (m : Machine) : Picture := ⟨m.cells, m.cursor, m.register⟩

theorem load_picture {t : Catalogue} {program : List Command} {memorySize : Int}
    (h : load t program memorySize = .ok m) : m.picture = .blank memorySize := by
  obtain ⟨-, rfl⟩ := load_eq h
  rfl

/-- The events of the shift turn the picture of the machine into that of what it becomes. -/
def Draws (m : Machine) (x : Shift) : Prop := m.picture.hearAll x.2 = x.1.picture

theorem Draws.andThen {f : Machine → Shift} (h : m.Draws x) (hf : x.1.Draws (f x.1)) :
    m.Draws (x.andThen f) := by
  unfold Draws Shift.andThen at *
  rw [Picture.hearAll_append, h, hf]

theorem jumpWhere_picture (p : Command → Nat → Bool) (m : Machine) :
    (m.jumpWhere p).picture = m.picture := by
  obtain ⟨i, -, h⟩ | h := m.jumpWhere_cases p <;> rw [h]
  rfl

theorem advance_picture (m : Machine) : m.advance.picture = m.picture := by
  rw [m.advance_machine]
  rfl

theorem valueSet_draws (n : Int) (m : Machine) : m.Draws (m.valueSet n) := rfl

theorem registerSet_draws (n : Option Int) (m : Machine) : m.Draws (m.registerSet n) := rfl

theorem refused_draws (info : BadEval) (m : Machine) : m.Draws (m.refused info) := rfl

theorem ended_draws (m : Machine) : m.Draws m.ended := by
  unfold ended
  split <;> rfl

theorem closed_draws (m : Machine) : m.Draws m.closed := by
  unfold Draws closed
  rw [← m.advance_picture]
  split
  · exact m.advance.ended_draws
  · rfl

theorem plainTurn_draws {e : Effect} (h : (m.plainTurn e).Yields x) : m.Draws x := by
  cases e with
  | loopBack =>
    cases h
    exact (jumpWhere_picture _ m).symm
  | runCell => exact h.elim
  | exchangeChar =>
    dsimp only [plainTurn] at h
    split at h
    · obtain ⟨n, rfl⟩ := h
      exact m.valueSet_draws n
    · cases h
      rfl
  | skipIfZero =>
    dsimp only [plainTurn] at h
    split at h <;> cases h <;> rfl
  | swapRegister =>
    dsimp only [plainTurn] at h
    split at h
    · cases h
      exact m.registerSet_draws _
    · cases h
      exact (m.valueSet_draws _).andThen (registerSet_draws _ _)
  | readNumber =>
    obtain ⟨n, rfl⟩ := h
    exact m.valueSet_draws n
  | _ =>
    cases h
    rfl

theorem cellTurn_draws (h : m.cellTurn.Yields x) : m.Draws x := by
  unfold cellTurn at h
  split at h
  · cases h
    exact m.refused_draws _
  · split at h
    · cases h
      exact m.refused_draws _
    · exact plainTurn_draws h

theorem effectTurn_draws {e : Effect} (h : (m.effectTurn e).Yields x) : m.Draws x := by
  by_cases he : e = .runCell
  · subst he
    exact cellTurn_draws h
  · rw [effectTurn_of_ne m he] at h
    exact plainTurn_draws h

theorem visitTurn_draws {c : Command} (h : (m.visitTurn c).Yields x) : m.Draws x := by
  unfold visitTurn at h
  split at h
  · exact effectTurn_draws h
  · cases h
    rfl

theorem turn_draws (h : m.turn.Yields x) : m.Draws x := by
  cases hf : m.finished with
  | true =>
    rw [turn_of_finished hf] at h
    cases h
    rfl
  | false =>
    cases hc : m.command? with
    | none =>
      rw [turn_of_no_command hf hc] at h
      cases h
      exact m.ended_draws
    | some c =>
      rw [turn_of_command hf hc] at h
      obtain ⟨y, hy, rfl⟩ := Turn.yields_map h
      exact (visitTurn_draws hy).andThen y.1.closed_draws

theorem deed_draws {deed : Deed} (h : (deed.turn m).Yields x) : m.Draws x := by
  cases deed with
  | step => exact turn_draws h
  | call c => exact effectTurn_draws h
  | jump p =>
    cases h
    exact (jumpWhere_picture p m).symm
  | _ =>
    cases h
    rfl

end Machine

namespace Host

/-- Do one after the other, also after one that was cut short. -/
def doesAll (h : Host σ ω) (deeds : List Deed) (w : World σ ω) : World σ ω :=
  deeds.foldl (fun w deed => (h.does deed).final w) w

variable {d : Device σ} {note : Event → World σ (Recorded ω) → ω} {w : World σ (Recorded ω)}

variable (d note) in
/-- What a deed leaves and what is taken down before subscribers that only watch, cut short or
not. -/
theorem watching_does_drawn (deed : Deed) :
    let v := ((watching d note).does deed).final w
    ∃ told, v.audience.events = w.audience.events ++ told ∧
      w.machine.picture.hearAll told.toList = v.machine.picture := by
  obtain ⟨x, s, v, hon, hdone, hm, -, he⟩ | ⟨e, s, v, -, hdone, hm, -, he⟩ :=
    watching_does_cases d note w deed
  · have hx := Machine.deed_draws (Turn.yields_of_on hon)
    rw [final_of_ok hdone]
    exact ⟨_, he, hx.trans (by rw [hm])⟩
  · -- what cut the deed short came before any change and any event
    rw [final_of_error hdone]
    refine ⟨#[], he.trans (Array.append_empty).symm, ?_⟩
    rw [hm]
    rfl

/-- The events that were taken down draw the machine, whatever was done to it. -/
theorem doesAll_drawn {p : Picture} (hw : p.hearAll w.audience.events.toList = w.machine.picture)
    (deeds : List Deed) :
    let v := (watching d note).doesAll deeds w
    p.hearAll v.audience.events.toList = v.machine.picture := by
  induction deeds generalizing w with
  | nil => exact hw
  | cons deed rest ih =>
    obtain ⟨told, he, hm⟩ := watching_does_drawn d note (w := w) deed
    apply ih (w := ((watching d note).does deed).final w)
    rw [he, Array.toList_append, Picture.hearAll_append, hw, hm]

end Host

end Moo
