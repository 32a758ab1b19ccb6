import Moo.Proofs.Machine.Failure

/-!
# Other places for the cells

A layout puts the cells of a ring elsewhere, and with them the cursor. Whatever reads or writes the
current cell does the same there, so a step of the machine laid out anew is the step of the machine,
laid out anew, as soon as the moves of the cursor come out at the same cell (`Layout.turn_laidOut`).
Before subscribers that only watch, runs then go side by side (`Layout.watching_nth_laidOut`).
-/

namespace Moo

variable {σ ω : Type}

/-- Another place for each of so many cells, perhaps among further ones. -/
structure Layout (size : Nat) where
  cells : Array Nat → Array Nat
  place : Nat → Nat
  value : ∀ {old : Array Nat} {i : Nat}, old.size = size → i < size →
    (cells old).getD (place i) 0 = old.getD i 0
  store : ∀ {old : Array Nat} {i : Nat} (value : Nat), old.size = size → i < size →
    cells (old.setIfInBounds i value) = (cells old).setIfInBounds (place i) value

namespace Layout

variable {size : Nat} (L : Layout size)

def machine (m : Machine) : Machine := { m with cells := L.cells m.cells, cursor := L.place m.cursor }

def event : Event → Event
  | .cursorChanged cursor => .cursorChanged (L.place cursor)
  | e => e

def shift (x : Machine.Shift) : Machine.Shift := (L.machine x.1, x.2.map L.event)

/-- The machine has just the cells that the layout is for, and its cursor is on one of them. -/
structure Fits (L : Layout size) (m : Machine) : Prop where
  cells : m.cells.size = size
  cursor : m.cursor < size

/-- If the effect moves the cursor, it comes out at the same cell. -/
structure Follows (m : Machine) (e : Effect) : Prop where
  left : e = .left → (L.machine m).onRing ((L.place m.cursor : Int) - 1) =
    L.place (m.onRing ((m.cursor : Int) - 1))
  right : e = .right → (L.machine m).onRing ((L.place m.cursor : Int) + 1) =
    L.place (m.onRing ((m.cursor : Int) + 1))

variable {L} {m : Machine} {c : Command} {e : Effect}

theorem Fits.of_intact {t : Catalogue} {program : List Command} {memorySize : Int}
    (h : m.Intact t program memorySize) (L : Layout memorySize.toNat) : L.Fits m := by
  have hsize := h.size
  have hcursor := h.cursor
  exact ⟨by omega, by omega⟩

/-! ## Parts of a step -/

theorem value_laidOut (hm : L.Fits m) : (L.machine m).value = m.value := L.value hm.cells hm.cursor

theorem store_laidOut (hm : L.Fits m) (value : Nat) :
    (L.machine m).store value = L.machine (m.store value) := by
  unfold machine Machine.store
  dsimp only
  rw [L.store value hm.cells hm.cursor]

theorem valueSet_laidOut (hm : L.Fits m) (n : Int) :
    (L.machine m).valueSet n = L.shift (m.valueSet n) := by
  unfold Machine.valueSet
  rw [store_laidOut hm]
  rfl

theorem cursorSet_laidOut {position position' : Int}
    (h : (L.machine m).onRing position' = L.place (m.onRing position)) :
    (L.machine m).cursorSet position' = L.shift (m.cursorSet position) := by
  unfold Machine.cursorSet
  rw [h]
  rfl

theorem jumpWhere_laidOut (p : Command → Nat → Bool) :
    (L.machine m).jumpWhere p = L.machine (m.jumpWhere p) := by
  unfold Machine.jumpWhere
  rw [show (L.machine m).program = m.program from rfl]
  cases Machine.lastBelow m.program p m.program.size <;> rfl

theorem plainTurn_laidOut (hm : L.Fits m) (h : L.Follows m e) :
    (L.machine m).plainTurn e = (m.plainTurn e).map L.shift := by
  have hv := value_laidOut hm
  cases e with
  | loopBack => exact congrArg (fun n => Turn.quiet (n, [])) (jumpWhere_laidOut _)
  | left => exact congrArg Turn.quiet (cursorSet_laidOut (h.left rfl))
  | right => exact congrArg Turn.quiet (cursorSet_laidOut (h.right rfl))
  | runCell => rfl
  | exchangeChar =>
    dsimp only [Machine.plainTurn]
    rw [hv]
    split
    · exact congrArg (Turn.reads .char) (funext (valueSet_laidOut hm))
    · rfl
  | decrement =>
    dsimp only [Machine.plainTurn]
    rw [hv]
    exact congrArg Turn.quiet (valueSet_laidOut hm _)
  | increment =>
    dsimp only [Machine.plainTurn]
    rw [hv]
    exact congrArg Turn.quiet (valueSet_laidOut hm _)
  | skipIfZero =>
    dsimp only [Machine.plainTurn]
    rw [hv]
    split <;> rfl
  | clear => exact congrArg Turn.quiet (valueSet_laidOut hm 0)
  | swapRegister =>
    have hr : (L.machine m).register = m.register := rfl
    dsimp only [Machine.plainTurn]
    rw [hr, hv]
    cases m.register with
    | none => rfl
    | some n =>
      show Turn.quiet (((L.machine m).valueSet n).andThen (Machine.registerSet none)) = _
      rw [valueSet_laidOut hm]
      rfl
  | writeNumber =>
    dsimp only [Machine.plainTurn]
    rw [hv]
    rfl
  | readNumber => exact congrArg (Turn.reads .byte) (funext (valueSet_laidOut hm))

theorem effectTurn_laidOut (hm : L.Fits m) (hc : m.command? = some c)
    (h : ∀ e, m.Means c e → L.Follows m e) :
    (L.machine m).effectTurn c.effect = (m.effectTurn c.effect).map L.shift := by
  by_cases he : c.effect = .runCell
  · rw [he]
    show (L.machine m).cellTurn = m.cellTurn.map L.shift
    unfold Machine.cellTurn
    rw [value_laidOut hm, show (L.machine m).catalogue = m.catalogue from rfl]
    cases hk : m.catalogue.at? m.value with
    | none => rfl
    | some k =>
      dsimp only
      rw [show (L.machine m).command? = m.command? from rfl]
      by_cases hs : m.command? = some k
      · rw [if_pos hs, if_pos hs]
        rfl
      · rw [if_neg hs, if_neg hs]
        refine plainTurn_laidOut hm (h _ (.cell he hk ?_))
        rintro rfl
        exact hs hc
  · rw [Machine.effectTurn_of_ne _ he, Machine.effectTurn_of_ne _ he]
    exact plainTurn_laidOut hm (h _ (.own he))

theorem advance_laidOut : (L.machine m).advance = L.machine m.advance := by
  unfold Machine.advance
  rw [show (L.machine m).jumped = m.jumped from rfl]
  split <;> rfl

theorem ended_laidOut : (L.machine m).ended = L.shift m.ended := by
  unfold Machine.ended
  rw [show (L.machine m).finished = m.finished from rfl]
  split <;> rfl

theorem closed_laidOut : (L.machine m).closed = L.shift m.closed := by
  unfold Machine.closed
  rw [advance_laidOut, ended_laidOut, show (L.machine m.advance).broken = m.advance.broken from rfl,
    show (L.machine m.advance).command? = m.advance.command? from rfl]
  split <;> rfl

/-! ## A step -/

def FollowsStep (L : Layout size) (m : Machine) : Prop :=
  m.finished = false → m.skip = .none → ∀ c e, m.command? = some c → m.Means c e → L.Follows m e

/-- A step of the machine laid out anew is the step of the machine, laid out anew. -/
theorem turn_laidOut (hm : L.Fits m) (h : L.FollowsStep m) :
    (L.machine m).turn = m.turn.map L.shift := by
  have hf' : (L.machine m).finished = m.finished := rfl
  have hc' : (L.machine m).command? = m.command? := rfl
  cases hf : m.finished with
  | true =>
    rw [Machine.turn_of_finished hf, Machine.turn_of_finished (hf'.trans hf)]
    rfl
  | false =>
    cases hc : m.command? with
    | none =>
      rw [Machine.turn_of_no_command hf hc, Machine.turn_of_no_command (hf'.trans hf) (hc'.trans hc),
        ended_laidOut]
      rfl
    | some c =>
      have hvisit : (L.machine m).visitTurn c = (m.visitTurn c).map L.shift := by
        unfold Machine.visitTurn
        rw [show (L.machine m).skip = m.skip from rfl]
        by_cases hs : m.skip = .none
        · rw [if_pos hs, if_pos hs]
          exact effectTurn_laidOut hm hc fun e => h hf hs c e hc
        · rw [if_neg hs, if_neg hs]
          rfl
      rw [Machine.turn_of_command hf hc, Machine.turn_of_command (hf'.trans hf) (hc'.trans hc), hvisit,
        Turn.map_map, Turn.map_map]
      refine Turn.map_congr fun x _ => ?_
      unfold shift Machine.Shift.andThen
      rw [closed_laidOut, List.map_append]
      rfl

/-! ## Runs -/

structure Relates (L : Layout size) (b b' : World σ (Recorded ω)) : Prop where
  machine : b'.machine = L.machine b.machine
  device : b'.device = b.device
  events : b'.audience.events = b.audience.events.map L.event

variable {d : Device σ} {note : Event → World σ (Recorded ω) → ω} {b b' : World σ (Recorded ω)}

theorem watching_step_laidOut (hm : L.Fits b.machine) (h : L.FollowsStep b.machine)
    (hb : L.Relates b b') :
    Agree L.Relates ((Host.watching d note).step b) ((Host.watching d note).step b') := by
  have hturn : b'.machine.turn.on d b'.device =
      given L.shift (b.machine.turn.on d b.device) := by
    rw [hb.machine, hb.device, turn_laidOut hm h, Turn.on_map]
    cases b.machine.turn.on d b.device <;> rfl
  cases hon : b.machine.turn.on d b.device with
  | ok x s =>
    rw [hon] at hturn
    obtain ⟨v, hv, hvm, hvs, hve⟩ := Host.watching_step_of_turn note hon
    obtain ⟨v', hv', hvm', hvs', hve'⟩ := Host.watching_step_of_turn note hturn
    rw [hv, hv']
    refine .ok ⟨?_, ?_, ?_⟩
    · rw [hvm', hvm]
      rfl
    · rw [hvs', hvs]
    · rw [hve', hve, hb.events, Array.map_append]
      simp [shift]
  | error e s =>
    rw [hon] at hturn
    rw [Host.step_of_turn_error (h := Host.watching d note) hon,
      Host.step_of_turn_error (h := Host.watching d note) hturn]
    exact .error ⟨hb.machine, rfl, hb.events⟩

theorem watching_nth_laidOut {n : Nat} (hb : L.Relates b b')
    (h : ∀ k < n, L.Fits (Nat.iterate (Host.watching d note).step.final k b).machine ∧
      L.FollowsStep (Nat.iterate (Host.watching d note).step.final k b).machine) :
    L.Relates (Nat.iterate (Host.watching d note).step.final n b)
        (Nat.iterate (Host.watching d note).step.final n b') ∧
      ∀ k < n, Agree L.Relates ((Host.watching d note).step.nth k b)
        ((Host.watching d note).step.nth k b') :=
  Act.nth_agree_while (P := fun w => L.Fits w.machine ∧ L.FollowsStep w.machine)
    (fun hv => watching_step_laidOut hv.1 hv.2) hb h

end Layout

end Moo
