import Moo.Proofs.Machine.Actions
import Moo.Proofs.Machine.Sound

/-!
# Invariants of actions

`Keeps I x`: the action `x` leads from worlds with `I` to worlds with `I`, also when it is cut short
by a fault. `Host.Bears h I` collects what a host owes an invariant for the effects of commands to
keep it: it survives every change to the machine but its end, every read, every write of a value
that a machine can write, and every announcement of a cell, the cursor or the register. What becomes
of it at a refusal and at the end of the machine is then a question of its own (`Host.step_keeps`).
If it survives these as well, `Host.Admits h I`, each operation keeps it, whatever subscribers do
meanwhile.
-/

namespace Moo

variable {σ ω : Type} {α β : Type} {I J : World σ ω → Prop}

namespace Act

def final (x : Act σ ω α) (w : World σ ω) : World σ ω :=
  match x w with
  | .ok _ w => w
  | .error _ w => w

/-- The action leads from `I` to `J`, cut short or not. -/
def Leads (I J : World σ ω → Prop) (x : Act σ ω α) : Prop := ∀ w, I w → J (x.final w)

/-- The action keeps the invariant, cut short or not. -/
abbrev Keeps (I : World σ ω → Prop) (x : Act σ ω α) : Prop := Leads I I x

theorem final_of_ok {x : Act σ ω α} {w v : World σ ω} {a : α} (h : x w = .ok a v) :
    x.final w = v := by
  unfold final
  rw [h]

theorem final_of_error {x : Act σ ω α} {w v : World σ ω} {e : Fault} (h : x w = .error e v) :
    x.final w = v := by
  unfold final
  rw [h]

theorem final_congr {x y : Act σ ω α} {w v : World σ ω} (h : x w = y v) : x.final w = y.final v := by
  unfold final
  rw [h]

theorem bind_of_ok {x : Act σ ω α} {w v : World σ ω} {a : α} (h : x w = .ok a v)
    (f : α → Act σ ω β) : (x >>= f) w = f a v := by
  show EStateM.bind x f w = _
  unfold EStateM.bind
  rw [h]

theorem bind_of_error {x : Act σ ω α} {w v : World σ ω} {e : Fault} (h : x w = .error e v)
    (f : α → Act σ ω β) : (x >>= f) w = .error e v := by
  show EStateM.bind x f w = _
  unfold EStateM.bind
  rw [h]

theorem bind_congr_at {x y : Act σ ω α} {w : World σ ω} (h : x w = y w) (f : α → Act σ ω β) :
    (x >>= f) w = (y >>= f) w := by
  show EStateM.bind x f w = EStateM.bind y f w
  unfold EStateM.bind
  rw [h]

theorem Keeps.pure (a : α) : Keeps I (Pure.pure a : Act σ ω α) := fun _ h => h

theorem Keeps.throw (e : Fault) : Keeps I (MonadExcept.throw e : Act σ ω α) := fun _ h => h

theorem final_bind {x : Act σ ω α} {f : α → Act σ ω β} {w : World σ ω} (hx : I (x.final w))
    (hle : ∀ w, I w → J w) (hf : ∀ a, Leads I J (f a)) : J ((x >>= f).final w) := by
  cases hr : x w with
  | ok a v =>
    rw [final_of_ok hr] at hx
    rw [final_congr (bind_of_ok hr f)]
    exact hf a v hx
  | error e v =>
    rw [final_of_error hr] at hx
    rw [final_of_error (bind_of_error hr f)]
    exact hle v hx

/-- An action that keeps `I` goes on as one that leads from `I` to a weaker `J`. -/
theorem Leads.bind {x : Act σ ω α} {f : α → Act σ ω β} (hx : Keeps I x) (hle : ∀ w, I w → J w)
    (hf : ∀ a, Leads I J (f a)) : Leads I J (x >>= f) := fun w hw => final_bind (hx w hw) hle hf

theorem Keeps.bind {x : Act σ ω α} {f : α → Act σ ω β} (hx : Keeps I x)
    (hf : ∀ a, Keeps I (f a)) : Keeps I (x >>= f) := Leads.bind hx (fun _ h => h) hf

theorem Keeps.change {f : Machine → Machine}
    (h : ∀ w, I w → I { w with machine := f w.machine }) : Keeps I (change f) := h

end Act

open Act

/-! ## What a machine announces and writes -/

/-- The reason is one of the two of the language: the byte of no command, or the loop. -/
def BadEval.Genuine (info : BadEval) : Prop :=
  (∃ v, v < 256 ∧ info = .invalidCommand v) ∨ info = .evalLoop

/-- The event is one that a machine announces by itself: it carries bytes, and a refusal has one of
the two reasons of the language. -/
def Event.Plain : Event → Prop
  | .valueChanged value => value < 256
  | .cursorChanged _ => True
  | .registerChanged register => ∀ v ∈ register, v < 256
  | .badEval info => info.Genuine
  | .done => True

def Event.OfState : Event → Prop
  | .badEval _ => False
  | .done => False
  | _ => True

/-- The value is one that a machine writes on the channel: any byte as a number, and any but zero as
a character. -/
def Channel.Carries : Channel → Int → Prop
  | .char, value => 1 ≤ value ∧ value ≤ 255
  | .byte, value => 0 ≤ value ∧ value ≤ 255

namespace Host

variable {h : Host σ ω}

/-- The invariant of sound machines survives whatever the effects of commands are made of, refusals
apart. -/
structure Bears (h : Host σ ω) (I : World σ ω → Prop) : Prop where
  sound : ∀ w, I w → w.machine.Sound
  change : ∀ w m, I w → w.machine.Change m → m.finished = w.machine.finished →
    I { w with machine := m }
  read : ∀ channel, Keeps I (useDevice (h.device.read channel))
  write : ∀ channel value, channel.Carries value → Keeps I (useDevice (h.device.write channel value))
  announce : ∀ e, e.Plain → e.OfState → Keeps I (h.announce e)

namespace Bears

theorem setValue (H : h.Bears I) (n : Int) : Keeps I (h.setValue n) := by
  intro w hw
  have hlt := Machine.wrap_lt n
  rw [final_congr (h.setValue_apply w n)]
  exact H.announce (.valueChanged _) hlt trivial _ (H.change w _ hw (.store hlt) rfl)

theorem setCursor (H : h.Bears I) (position : Int) : Keeps I (h.setCursor position) := by
  intro w hw
  rw [final_congr (h.setCursor_apply w position)]
  exact H.announce (.cursorChanged _) trivial trivial _ (H.change w _ hw (.move position) rfl)

theorem setRegister (H : h.Bears I) (n : Option Int) : Keeps I (h.setRegister n) := by
  have hn : ∀ v ∈ n.map Machine.wrap, v < 256 := by
    intro v hv
    obtain ⟨k, -, rfl⟩ := Option.map_eq_some_iff.mp hv
    exact Machine.wrap_lt k
  intro w hw
  rw [final_congr (h.setRegister_apply w n)]
  exact H.announce (.registerChanged _) hn trivial _ (H.change w _ hw (.register hn) rfl)

theorem badEval (H : h.Bears I) {info : BadEval} (ha : Keeps I (h.announce (.badEval info))) :
    Keeps I (h.badEval info) :=
  .bind ha fun _ => .change fun w hw => H.change w _ hw .refuse rfl

theorem jumpWhere (H : h.Bears I) (p : Command → Nat → Bool) :
    Keeps I (Act.change (Machine.jumpWhere p) : Act σ ω Unit) :=
  .change fun w hw => H.change w _ hw (.jump p) (Machine.jumpWhere_finished p w.machine)

theorem armSkip (H : h.Bears I) : Keeps I (Act.change Machine.armSkip : Act σ ω Unit) :=
  .change fun w hw => H.change w _ hw (.skip _) rfl

theorem performPlain (H : h.Bears I) (e : Effect) : Keeps I (h.performPlain e) := by
  cases e with
  | loopBack =>
    exact .change fun w hw => H.change w _ hw (.jump _) (Machine.jumpWhere_finished _ w.machine)
  | left => exact fun w hw => H.setCursor _ w hw
  | right => exact fun w hw => H.setCursor _ w hw
  | runCell => exact .throw _
  | exchangeChar =>
    intro w hw
    by_cases hv : w.machine.value = 0
    · rw [final_congr (h.exchangeChar_of_zero hv)]
      exact Keeps.bind (H.read .char) H.setValue w hw
    · rw [final_congr (h.exchangeChar_of_ne_zero hv)]
      have hlt := (H.sound w hw).value_lt
      exact H.write .char _ ⟨by omega, by omega⟩ w hw
  | decrement => exact fun w hw => H.setValue _ w hw
  | increment => exact fun w hw => H.setValue _ w hw
  | skipIfZero =>
    intro w hw
    by_cases hv : w.machine.value = 0
    · rw [final_of_ok (h.skipIfZero_of_zero hv)]
      exact H.change w _ hw (.skip _) rfl
    · rw [final_of_ok (h.skipIfZero_of_ne_zero hv)]
      exact hw
  | clear => exact H.setValue 0
  | swapRegister =>
    intro w hw
    cases hr : w.machine.register with
    | none =>
      rw [final_congr (h.swapRegister_of_none hr)]
      exact H.setRegister _ w hw
    | some n =>
      rw [final_congr (h.swapRegister_of_some hr)]
      exact Keeps.bind (H.setValue n) (fun _ => H.setRegister none) w hw
  | writeNumber =>
    intro w hw
    have hlt := (H.sound w hw).value_lt
    rw [final_congr (h.writeNumber_apply w)]
    exact H.write .byte _ ⟨by omega, by omega⟩ w hw
  | readNumber => exact .bind (H.read .byte) H.setValue

/-- An effect refuses the cell or keeps the invariant. -/
theorem perform_cases (H : h.Bears I) (e : Effect) {w : World σ ω} (hw : I w) :
    (∃ info : BadEval, info.Genuine ∧ h.perform e w = h.badEval info w) ∨
      I ((h.perform e).final w) := by
  by_cases he : e = .runCell
  · subst he
    cases hc : w.machine.catalogue.at? w.machine.value with
    | none => exact .inl ⟨_, .inl ⟨_, (H.sound w hw).value_lt, rfl⟩, h.runCell_of_none hc⟩
    | some c =>
      by_cases hs : w.machine.command? = some c
      · exact .inl ⟨_, .inr rfl, h.runCell_of_self hc hs⟩
      · refine .inr ?_
        rw [final_congr (show h.perform .runCell w = _ from h.runCell_of_other hc hs)]
        exact H.performPlain c.effect w hw
  · refine .inr ?_
    rw [perform_of_ne h he]
    exact H.performPlain e w hw

theorem perform (H : h.Bears I)
    (refusal : ∀ info : BadEval, info.Genuine → Keeps I (h.announce (.badEval info))) (e : Effect) :
    Keeps I (h.perform e) := by
  intro w hw
  obtain ⟨info, hi, he⟩ | hkeeps := H.perform_cases e hw
  · rw [final_congr he]
    exact H.badEval (refusal info hi) w hw
  · exact hkeeps

/-- A visit refuses the cell or keeps the invariant. -/
theorem visit_cases (H : h.Bears I) (c : Command) {w : World σ ω} (hw : I w) :
    (∃ info : BadEval, info.Genuine ∧ h.visit c w = h.badEval info w) ∨ I ((h.visit c).final w) := by
  by_cases hs : w.machine.skip = .none
  · rw [h.visit_of_none c hs, final_congr (h.visit_of_none c hs)]
    exact H.perform_cases c.effect hw
  · rw [final_of_ok (h.visit_of_pending c hs)]
    exact .inr (H.change w _ hw (.skip _) rfl)

theorem visit (H : h.Bears I)
    (refusal : ∀ info : BadEval, info.Genuine → Keeps I (h.announce (.badEval info))) (c : Command) :
    Keeps I (h.visit c) := by
  intro w hw
  obtain ⟨info, hi, he⟩ | hkeeps := H.visit_cases c hw
  · rw [final_congr he]
    exact H.badEval (refusal info hi) w hw
  · exact hkeeps

end Bears

/-! ## Steps -/

/-- Ending the machine keeps what survives the announcement of the end by a machine that has just
ended. -/
theorem finish_keeps (hd : ∀ w, I w → w.machine.finished = false →
    I ((h.announce .done).final { w with machine := { w.machine with finished := true } })) :
    Keeps I h.finish := by
  intro w hw
  cases hf : w.machine.finished with
  | true =>
    rw [final_of_ok (h.finish_of_finished hf)]
    exact hw
  | false =>
    rw [final_congr (h.finish_of_unfinished hf)]
    exact hd w hw hf

/-- Closing a step leads from an invariant to one that holds again once the counter has advanced. -/
theorem close_leads (finish : Keeps J h.finish)
    (advance : ∀ w, I w → J { w with machine := w.machine.advance }) : Leads I J h.close := by
  intro w hw
  cases he : (w.machine.advance.broken || w.machine.advance.command?.isNone) with
  | true =>
    rw [final_congr (h.close_of_ends he)]
    exact finish _ (advance w hw)
  | false =>
    rw [final_of_ok (h.close_of_continues he)]
    exact advance w hw

/-- A step keeps an invariant if its end does, and so does running a command and closing. -/
theorem step_keeps (finish : Keeps I h.finish)
    (run : ∀ w c, I w → w.machine.finished = false → w.machine.command? = some c →
      I ((h.visit c >>= fun _ => h.close).final w)) : Keeps I h.step := by
  intro w hw
  cases hf : w.machine.finished with
  | true =>
    rw [final_of_ok (h.step_of_finished hf)]
    exact hw
  | false =>
    cases hc : w.machine.command? with
    | none =>
      rw [final_congr (h.step_of_no_command hf hc)]
      exact finish w hw
    | some c =>
      rw [final_congr (h.step_of_command hf hc)]
      exact run w c hw hf hc

/-! ## Invariants that survive everything -/

/-- The invariant of sound machines survives whatever operations are made of. -/
structure Admits (h : Host σ ω) (I : World σ ω → Prop) : Prop where
  sound : ∀ w, I w → w.machine.Sound
  change : ∀ w m, I w → w.machine.Change m → I { w with machine := m }
  read : ∀ channel, Keeps I (useDevice (h.device.read channel))
  write : ∀ channel value, channel.Carries value → Keeps I (useDevice (h.device.write channel value))
  announce : ∀ e, e.Plain → Keeps I (h.announce e)

namespace Admits

theorem bears (H : h.Admits I) : h.Bears I :=
  ⟨H.sound, fun w m hw hm _ => H.change w m hw hm, H.read, H.write, fun e he _ => H.announce e he⟩

theorem finish (H : h.Admits I) : Keeps I h.finish :=
  finish_keeps fun w hw _ => H.announce .done trivial _ (H.change w _ hw .finish)

/-- A step keeps `J` if all but its advance keeps `J`, and, from where it finds a command up to the
advance, the invariant `I`. -/
theorem step_through (HJ : h.Admits J) (HI : h.Admits I) (weaken : ∀ w, I w → J w)
    (enter : ∀ w, J w → w.machine.counter < w.machine.program.size → I w)
    (advance : ∀ w, I w → J { w with machine := w.machine.advance }) : Keeps J h.step := by
  refine step_keeps HJ.finish fun w c hw _ hc => ?_
  have hlt : w.machine.counter < w.machine.program.size :=
    Machine.command?_isSome_iff.mp (by rw [hc]; rfl)
  -- the visit is cut short under `I`, which has to be good enough then
  have hvisit := HI.bears.visit (fun info hi => HI.announce (.badEval info) hi) c
  exact Leads.bind hvisit weaken (fun _ => close_leads HJ.finish advance) w (enter w hw hlt)

theorem step (H : h.Admits I) (advance : ∀ w, I w → I { w with machine := w.machine.advance }) :
    Keeps I h.step :=
  H.step_through H (fun _ hw => hw) (fun _ hw _ => hw) advance

end Admits

end Host

end Moo
