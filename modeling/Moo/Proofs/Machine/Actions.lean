import Moo.Machine.Step

/-!
# What actions do to a world

One equation for each action of a host: what it comes to at a given world. Later proofs use these
and open no action.
-/

namespace Moo

open Act

variable {σ ω : Type}

/-- What is pending once one step has passed. -/
def Skip.next : Skip → Skip
  | .nextThenAfter => .after
  | _ => .none

/-! ## Parts of actions -/

theorem Act.look_bind {α β : Type} (f : Machine → α) (k : α → Act σ ω β) (w : World σ ω) :
    (look f >>= k) w = k (f w.machine) w := rfl

theorem Act.change_bind {β : Type} (f : Machine → Machine) (k : Unit → Act σ ω β) (w : World σ ω) :
    (change f >>= k) w = k () { w with machine := f w.machine } := rfl

theorem Act.useDevice_apply {α : Type} (act : EStateM Fault σ α) (w : World σ ω) :
    useDevice act w =
      match act w.device with
      | .ok a device => .ok a { w with device }
      | .error e device => .error e { w with device } := rfl

namespace Host

variable (h : Host σ ω) (w : World σ ω)

/-! ## Setters and announcements -/

theorem setValue_apply (n : Int) :
    h.setValue n w = h.announce (.valueChanged (Machine.wrap n))
      { w with machine := w.machine.store (Machine.wrap n) } := rfl

theorem setCursor_apply (position : Int) :
    h.setCursor position w = h.announce (.cursorChanged (w.machine.onRing position))
      { w with machine := { w.machine with cursor := w.machine.onRing position } } := rfl

theorem setRegister_apply (n : Option Int) :
    h.setRegister n w = h.announce (.registerChanged (n.map Machine.wrap))
      { w with machine := { w.machine with register := n.map Machine.wrap } } := rfl

theorem finish_of_finished {w : World σ ω} (hf : w.machine.finished = true) :
    h.finish w = .ok () w := by
  unfold finish
  rw [look_bind, hf]
  rfl

theorem finish_of_unfinished {w : World σ ω} (hf : w.machine.finished = false) :
    h.finish w = h.announce .done { w with machine := { w.machine with finished := true } } := by
  unfold finish
  rw [look_bind, hf]
  rfl

/-! ## Effects -/

theorem writeNumber_apply :
    h.performPlain .writeNumber w = useDevice (h.device.write .byte w.machine.value) w := rfl

theorem exchangeChar_of_zero {w : World σ ω} (hv : w.machine.value = 0) :
    h.performPlain .exchangeChar w = (useDevice (h.device.read .char) >>= h.setValue) w := by
  show (look (·.value) >>= _) w = _
  rw [look_bind, if_pos hv]

theorem exchangeChar_of_ne_zero {w : World σ ω} (hv : w.machine.value ≠ 0) :
    h.performPlain .exchangeChar w = useDevice (h.device.write .char w.machine.value) w := by
  show (look (·.value) >>= _) w = _
  rw [look_bind, if_neg hv]

theorem skipIfZero_of_zero {w : World σ ω} (hv : w.machine.value = 0) :
    h.performPlain .skipIfZero w = .ok () { w with machine := w.machine.armSkip } := by
  show (look (·.value) >>= _) w = _
  rw [look_bind, if_pos hv]
  rfl

theorem skipIfZero_of_ne_zero {w : World σ ω} (hv : w.machine.value ≠ 0) :
    h.performPlain .skipIfZero w = .ok () w := by
  show (look (·.value) >>= _) w = _
  rw [look_bind, if_neg hv]
  rfl

theorem swapRegister_of_none {w : World σ ω} (hr : w.machine.register = none) :
    h.performPlain .swapRegister w = h.setRegister (some w.machine.value) w := by
  show (look (·.register) >>= _) w = _
  rw [look_bind, hr]
  rfl

theorem swapRegister_of_some {w : World σ ω} {n : Nat} (hr : w.machine.register = some n) :
    h.performPlain .swapRegister w = (h.setValue n >>= fun _ => h.setRegister none) w := by
  show (look (·.register) >>= _) w = _
  rw [look_bind, hr]

theorem runCell_of_none {w : World σ ω} (hc : w.machine.catalogue.at? w.machine.value = none) :
    h.runCell w = h.badEval (.invalidCommand w.machine.value) w := by
  unfold runCell
  rw [look_bind, look_bind, hc]

theorem runCell_of_self {w : World σ ω} {c : Command}
    (hc : w.machine.catalogue.at? w.machine.value = some c) (hs : w.machine.command? = some c) :
    h.runCell w = h.badEval .evalLoop w := by
  unfold runCell
  rw [look_bind, look_bind, hc]
  show (if w.machine.command? = some c then h.badEval .evalLoop else h.performPlain c.effect) w = _
  rw [if_pos hs]

theorem runCell_of_other {w : World σ ω} {c : Command}
    (hc : w.machine.catalogue.at? w.machine.value = some c) (hs : w.machine.command? ≠ some c) :
    h.runCell w = h.performPlain c.effect w := by
  unfold runCell
  rw [look_bind, look_bind, hc]
  show (if w.machine.command? = some c then h.badEval .evalLoop else h.performPlain c.effect) w = _
  rw [if_neg hs]

theorem perform_of_ne {e : Effect} (he : e ≠ .runCell) : h.perform e = h.performPlain e := by
  cases e with
  | runCell => exact absurd rfl he
  | _ => rfl

/-! ## Steps -/

theorem visit_of_none (c : Command) {w : World σ ω} (hs : w.machine.skip = .none) :
    h.visit c w = h.perform c.effect w := by
  unfold visit
  rw [look_bind, hs]

theorem visit_of_pending (c : Command) {w : World σ ω} (hs : w.machine.skip ≠ .none) :
    h.visit c w = .ok () { w with machine := { w.machine with skip := w.machine.skip.next } } := by
  unfold visit
  rw [look_bind]
  cases hk : w.machine.skip with
  | none => exact absurd hk hs
  | nextThenAfter => rfl
  | after => rfl

theorem close_of_ends {w : World σ ω}
    (he : (w.machine.advance.broken || w.machine.advance.command?.isNone) = true) :
    h.close w = h.finish { w with machine := w.machine.advance } := by
  unfold close
  rw [change_bind, look_bind]
  exact if_pos he ▸ rfl

theorem close_of_continues {w : World σ ω}
    (he : (w.machine.advance.broken || w.machine.advance.command?.isNone) = false) :
    h.close w = .ok () { w with machine := w.machine.advance } := by
  unfold close
  rw [change_bind, look_bind]
  simp only [he]
  rfl

theorem step_of_finished {w : World σ ω} (hf : w.machine.finished = true) :
    h.step w = .ok () w := by
  unfold step
  rw [look_bind, hf]
  rfl

theorem step_of_no_command {w : World σ ω} (hf : w.machine.finished = false)
    (hc : w.machine.command? = none) : h.step w = h.finish w := by
  unfold step
  rw [look_bind, hf]
  show (look (·.command?) >>= _) w = _
  rw [look_bind, hc]

theorem step_of_command {w : World σ ω} {c : Command} (hf : w.machine.finished = false)
    (hc : w.machine.command? = some c) :
    h.step w = (h.visit c >>= fun _ => h.close) w := by
  unfold step
  rw [look_bind, hf]
  show (look (·.command?) >>= _) w = _
  rw [look_bind, hc]

end Host

end Moo
