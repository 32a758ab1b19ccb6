import Moo.Proofs.Machine.Actions
import Moo.Proofs.Device.Journal

/-!
# Turns

A step asks its device for one thing at most, and that before it changes anything. `Machine.turn m`
says what a step of `m` comes to: nothing is asked, a read is answered, a write is taken, or the
step fails. Whatever the device and whoever is told, a host that only notes what is announced does
that and nothing else (`Host.noting_step`).
-/

namespace Moo

variable {σ τ ω : Type} {α β : Type}

/-! ## Asking once -/

/-- Something that asks a device for one thing at most. -/
inductive Turn (α : Type) where
  | quiet (a : α)
  | reads (channel : Channel) (next : Int → α)
  | writes (channel : Channel) (value : Int) (a : α)
  | fails (e : Fault)

namespace Turn

def map (f : α → β) : Turn α → Turn β
  | .quiet a => .quiet (f a)
  | .reads channel next => .reads channel fun n => f (next n)
  | .writes channel value a => .writes channel value (f a)
  | .fails e => .fails e

def on (d : Device σ) : Turn α → EStateM Fault σ α
  | .quiet a => fun s => .ok a s
  | .reads channel next => fun s =>
    match d.read channel s with
    | .ok n s => .ok (next n) s
    | .error e s => .error e s
  | .writes channel value a => fun s =>
    match d.write channel value s with
    | .ok () s => .ok a s
    | .error e s => .error e s
  | .fails e => fun s => .error e s

theorem on_map (d : Device σ) (f : α → β) (x : Turn α) (s : σ) :
    (x.map f).on d s =
      match x.on d s with
      | .ok a s => .ok (f a) s
      | .error e s => .error e s := by
  cases x with
  | quiet a => rfl
  | reads channel next =>
    cases hr : d.read channel s <;> simp only [map, on, hr]
  | writes channel value a =>
    cases hr : d.write channel value s <;> simp only [map, on, hr]
  | fails e => rfl

theorem map_map {γ : Type} (x : Turn α) (f : α → β) (g : β → γ) :
    (x.map f).map g = x.map fun a => g (f a) := by
  cases x <;> rfl

end Turn

/-! ## What machines do by themselves -/

namespace Machine

/-- What a machine becomes, and what it announces on the way. -/
abbrev Shift := Machine × List Event

def Shift.andThen (x : Shift) (f : Machine → Shift) : Shift := ((f x.1).1, x.2 ++ (f x.1).2)

def valueSet (n : Int) (m : Machine) : Shift := (m.store (wrap n), [.valueChanged (wrap n)])

def cursorSet (position : Int) (m : Machine) : Shift :=
  ({ m with cursor := m.onRing position }, [.cursorChanged (m.onRing position)])

def registerSet (n : Option Int) (m : Machine) : Shift :=
  ({ m with register := n.map wrap }, [.registerChanged (n.map wrap)])

def refused (info : BadEval) (m : Machine) : Shift := ({ m with broken := true }, [.badEval info])

def ended (m : Machine) : Shift :=
  if m.finished then (m, []) else ({ m with finished := true }, [.done])

def closed (m : Machine) : Shift :=
  if m.advance.broken || m.advance.command?.isNone then m.advance.ended else (m.advance, [])

def plainTurn (m : Machine) : Effect → Turn Shift
  | .loopBack => .quiet (m.loopBack, [])
  | .left => .quiet (m.cursorSet ((m.cursor : Int) - 1))
  | .right => .quiet (m.cursorSet ((m.cursor : Int) + 1))
  | .runCell => .fails .endlessRun
  | .exchangeChar =>
    if m.value = 0 then .reads .char fun n => m.valueSet n else .writes .char m.value (m, [])
  | .decrement => .quiet (m.valueSet ((m.value : Int) - 1))
  | .increment => .quiet (m.valueSet ((m.value : Int) + 1))
  | .skipIfZero => if m.value = 0 then .quiet (m.armSkip, []) else .quiet (m, [])
  | .clear => .quiet (m.valueSet 0)
  | .swapRegister =>
    match m.register with
    | none => .quiet (m.registerSet (some m.value))
    | some n => .quiet ((m.valueSet n).andThen (registerSet none))
  | .writeNumber => .writes .byte m.value (m, [])
  | .readNumber => .reads .byte fun n => m.valueSet n

def cellTurn (m : Machine) : Turn Shift :=
  match m.catalogue.at? m.value with
  | none => .quiet (m.refused (.invalidCommand m.value))
  | some c => if m.command? = some c then .quiet (m.refused .evalLoop) else m.plainTurn c.effect

def effectTurn (m : Machine) : Effect → Turn Shift
  | .runCell => m.cellTurn
  | e => m.plainTurn e

def visitTurn (m : Machine) (c : Command) : Turn Shift :=
  if m.skip = .none then m.effectTurn c.effect else .quiet ({ m with skip := m.skip.next }, [])

def turn (m : Machine) : Turn Shift :=
  if m.finished then .quiet (m, [])
  else
    match m.command? with
    | none => .quiet m.ended
    | some c => (m.visitTurn c).map (·.andThen closed)

theorem effectTurn_of_ne (m : Machine) {e : Effect} (he : e ≠ .runCell) :
    m.effectTurn e = m.plainTurn e := by
  cases e with
  | runCell => exact absurd rfl he
  | _ => rfl

theorem turn_of_finished {m : Machine} (hf : m.finished = true) : m.turn = .quiet (m, []) := by
  unfold turn
  rw [if_pos hf]

theorem turn_of_no_command {m : Machine} (hf : m.finished = false) (hc : m.command? = none) :
    m.turn = .quiet m.ended := by
  unfold turn
  rw [hf, hc]
  rfl

/-- Without a command a step does nothing but end the machine, once. -/
theorem turn_of_none {m : Machine} (hc : m.command? = none) : m.turn = .quiet m.ended := by
  cases hf : m.finished with
  | true =>
    rw [turn_of_finished hf]
    unfold ended
    rw [if_pos hf]
  | false => exact turn_of_no_command hf hc

theorem turn_of_command {m : Machine} {c : Command} (hf : m.finished = false)
    (hc : m.command? = some c) : m.turn = (m.visitTurn c).map (·.andThen closed) := by
  unfold turn
  rw [hf, hc]
  rfl

end Machine

/-! ## Hosts that only note -/

/-- A host whose audience takes notes and does nothing else. -/
def Host.noting (d : Device σ) (note : Event → ω → ω) : Host σ ω where
  device := d
  announce e := fun w => .ok () { w with audience := note e w.audience }

def Host.silent (d : Device σ) : Host σ Unit := .noting d fun _ a => a

theorem Host.observed_eq (d : Device σ) : Host.observed d = .noting d fun e a => a.push e := rfl

def World.shifted (note : Event → ω → ω) (w : World σ ω) (x : Machine.Shift) : World σ ω :=
  ⟨x.1, w.device, x.2.foldl (fun a e => note e a) w.audience⟩

/-- Carry out a turn: ask the device, change the machine, note the events. -/
def Turn.carry (d : Device σ) (note : Event → ω → ω) (x : Turn Machine.Shift) : Act σ ω Unit :=
  fun w =>
    match x.on d w.device with
    | .ok shift device => .ok () ({ w with device }.shifted note shift)
    | .error e device => .error e { w with device }

namespace Host

open Act

variable {d : Device σ} {note : Event → ω → ω} {w : World σ ω}

theorem noting_finish :
    (noting d note).finish w = .ok () (w.shifted note w.machine.ended) := by
  unfold Machine.ended
  cases hf : w.machine.finished with
  | true => exact (noting d note).finish_of_finished hf
  | false => exact (noting d note).finish_of_unfinished hf

theorem noting_close :
    (noting d note).close w = .ok () (w.shifted note w.machine.closed) := by
  unfold Machine.closed
  cases he : (w.machine.advance.broken || w.machine.advance.command?.isNone) with
  | true =>
    rw [close_of_ends _ he]
    exact noting_finish
  | false => exact close_of_continues _ he

theorem noting_read (channel : Channel) :
    (useDevice (d.read channel) >>= (noting d note).setValue) w =
      (Turn.reads channel fun n => w.machine.valueSet n).carry d note w := by
  unfold Turn.carry Turn.on
  cases hr : d.read channel w.device with
  | ok n s =>
    have hu : useDevice (d.read channel) w = .ok n { w with device := s } := by
      rw [useDevice_apply, hr]
    rw [bind_of_ok hu]
    simp only [hr]
    rfl
  | error e s =>
    have hu : useDevice (d.read channel) w = .error e { w with device := s } := by
      rw [useDevice_apply, hr]
    rw [bind_of_error hu]
    simp only [hr]

theorem noting_write (channel : Channel) (value : Int) :
    useDevice (d.write channel value) w =
      (Turn.writes channel value (w.machine, [])).carry d note w := by
  unfold Turn.carry Turn.on
  rw [useDevice_apply]
  cases hr : d.write channel value w.device with
  | ok u s =>
    simp only [hr]
    rfl
  | error e s => simp only [hr]

theorem noting_performPlain (e : Effect) :
    (noting d note).performPlain e w = (w.machine.plainTurn e).carry d note w := by
  cases e with
  | exchangeChar =>
    dsimp only [Machine.plainTurn]
    by_cases hv : w.machine.value = 0
    · rw [exchangeChar_of_zero _ hv, if_pos hv]
      exact noting_read .char
    · rw [exchangeChar_of_ne_zero _ hv, if_neg hv]
      exact noting_write .char _
  | skipIfZero =>
    dsimp only [Machine.plainTurn]
    by_cases hv : w.machine.value = 0
    · rw [skipIfZero_of_zero _ hv, if_pos hv]
      rfl
    · rw [skipIfZero_of_ne_zero _ hv, if_neg hv]
      rfl
  | swapRegister =>
    dsimp only [Machine.plainTurn]
    cases hr : w.machine.register with
    | none => exact swapRegister_of_none _ hr
    | some n => exact swapRegister_of_some _ hr
  | writeNumber => exact noting_write .byte _
  | readNumber => exact noting_read .byte
  | _ => rfl

theorem noting_runCell :
    (noting d note).runCell w = w.machine.cellTurn.carry d note w := by
  unfold Machine.cellTurn
  cases hc : w.machine.catalogue.at? w.machine.value with
  | none => exact runCell_of_none _ hc
  | some c =>
    dsimp only
    by_cases hs : w.machine.command? = some c
    · rw [if_pos hs]
      exact runCell_of_self _ hc hs
    · rw [if_neg hs, runCell_of_other _ hc hs]
      exact noting_performPlain c.effect

theorem noting_perform (e : Effect) :
    (noting d note).perform e w = (w.machine.effectTurn e).carry d note w := by
  by_cases he : e = .runCell
  · subst he
    exact noting_runCell
  · rw [perform_of_ne _ he, Machine.effectTurn_of_ne _ he]
    exact noting_performPlain e

theorem noting_visit (c : Command) :
    (noting d note).visit c w = (w.machine.visitTurn c).carry d note w := by
  unfold Machine.visitTurn
  by_cases hs : w.machine.skip = .none
  · rw [visit_of_none _ c hs, if_pos hs]
    exact noting_perform c.effect
  · rw [visit_of_pending _ c hs, if_neg hs]
    rfl

theorem carry_bind {x : Turn Machine.Shift} {y : Act σ ω Unit} {k : Act σ ω Unit}
    {f : Machine → Machine.Shift} (hy : y w = x.carry d note w)
    (hk : ∀ v : World σ ω, k v = .ok () (v.shifted note (f v.machine))) :
    (y >>= fun _ => k) w = (x.map (·.andThen f)).carry d note w := by
  unfold Turn.carry at hy ⊢
  rw [Turn.on_map]
  cases hr : x.on d w.device with
  | ok shift s =>
    rw [hr] at hy
    rw [bind_of_ok hy, hk]
    show _ = EStateM.Result.ok () (World.shifted note _ (shift.andThen f))
    unfold World.shifted Machine.Shift.andThen
    rw [List.foldl_append]
  | error e s =>
    rw [hr] at hy
    rw [bind_of_error hy]

theorem step_of_none_pending (h : Host σ ω) {c : Command} (hf : w.machine.finished = false)
    (hc : w.machine.command? = some c) (hs : w.machine.skip = .none) :
    h.step w = (h.perform c.effect >>= fun _ => h.close) w := by
  rw [h.step_of_command hf hc]
  exact bind_congr_at (h.visit_of_none c hs) _

theorem step_of_pending (h : Host σ ω) {c : Command} (hf : w.machine.finished = false)
    (hc : w.machine.command? = some c) (hs : w.machine.skip ≠ .none) :
    h.step w = h.close { w with machine := { w.machine with skip := w.machine.skip.next } } := by
  rw [h.step_of_command hf hc]
  exact bind_of_ok (h.visit_of_pending c hs) _

/-- A step of a host that only notes is the turn of its machine. -/
theorem noting_step : (noting d note).step w = w.machine.turn.carry d note w := by
  cases hf : w.machine.finished with
  | true =>
    rw [step_of_finished _ hf, Machine.turn_of_finished hf]
    rfl
  | false =>
    cases hc : w.machine.command? with
    | none =>
      rw [step_of_no_command _ hf hc, Machine.turn_of_no_command hf hc]
      exact noting_finish
    | some c =>
      rw [step_of_command _ hf hc, Machine.turn_of_command hf hc]
      -- only the visit asks the device for something; the close goes on from what it has left
      exact carry_bind (noting_visit c) fun _ => noting_close

theorem observed_step (d : Device σ) (m : Machine) (s : σ) :
    (observed d).step ⟨m, s, #[]⟩ =
      match m.turn.on d s with
      | .ok shift s => .ok () ⟨shift.1, s, shift.2.toArray⟩
      | .error e s => .error e ⟨m, s, #[]⟩ := by
  rw [observed_eq, noting_step]
  unfold Turn.carry World.shifted
  cases m.turn.on d s with
  | ok shift s => simp only [List.foldl_push_eq_append', Array.empty_append]
  | error e s => rfl

theorem silent_step (d : Device σ) (m : Machine) (s : σ) :
    (silent d).step ⟨m, s, ()⟩ =
      match m.turn.on d s with
      | .ok shift s => .ok () ⟨shift.1, s, ()⟩
      | .error e s => .error e ⟨m, s, ()⟩ := by
  unfold silent
  rw [noting_step]
  unfold Turn.carry
  cases m.turn.on d s <;> rfl

end Host

end Moo
