import Moo.Proofs.Audience.Conduct
import Moo.Proofs.Device.View

/-!
# Subscribers that only watch

`h.Shows π h'`: seen through `π`, what the host `h` does to its audience is what the host `h'` does
to its own, and both do the same to the machine and the device. Every operation then comes out alike
(`Host.Shows.does`). Subscribers that only watch see the world at each event and keep what they
like; without what they keep they are the host that takes down events, so a deed before them is a
turn of the machine, whatever they look at (`Host.watching_does`).
-/

namespace Moo

open Act

variable {σ ω ω' : Type} {α β : Type} {π : ω → ω'}

def World.heard (π : ω → ω') (w : World σ ω) : World σ ω' := ⟨w.machine, w.device, π w.audience⟩

/-- Seen through `π`, the one action is the other. -/
def Act.Shows (π : ω → ω') (x : Act σ ω α) (y : Act σ ω' α) : Prop :=
  ∀ w, y (w.heard π) = viewed (World.heard π) (x w)

namespace Act.Shows

theorem pure (a : α) : Shows π (Pure.pure a : Act σ ω α) (Pure.pure a) := fun _ => rfl

theorem throw (e : Fault) :
    Shows π (MonadExcept.throw e : Act σ ω α) (MonadExcept.throw e) := fun _ => rfl

theorem look (f : Machine → α) : Shows π (Act.look f : Act σ ω α) (Act.look f) := fun _ => rfl

theorem change (f : Machine → Machine) : Shows π (Act.change f : Act σ ω Unit) (Act.change f) :=
  fun _ => rfl

theorem useDevice (act : EStateM Fault σ α) :
    Shows π (Act.useDevice act : Act σ ω α) (Act.useDevice act) := by
  intro w
  rw [useDevice_apply, useDevice_apply]
  dsimp only [World.heard]
  cases act w.device <;> rfl

theorem bind {x : Act σ ω α} {y : Act σ ω' α} {f : α → Act σ ω β} {g : α → Act σ ω' β}
    (hx : Shows π x y) (hf : ∀ a, Shows π (f a) (g a)) : Shows π (x >>= f) (y >>= g) := by
  intro w
  have h := hx w
  cases hr : x w with
  | ok a v =>
    rw [hr] at h
    rw [bind_of_ok hr, bind_of_ok h]
    exact hf a v
  | error e v =>
    rw [hr] at h
    rw [bind_of_error hr, bind_of_error h]
    rfl

theorem recover {x : Act σ ω α} {y : Act σ ω' α} {f : Fault → Act σ ω α} {g : Fault → Act σ ω' α}
    (hx : Shows π x y) (hf : ∀ e, Shows π (f e) (g e)) : Shows π (x.recover f) (y.recover g) := by
  intro w
  have h := hx w
  cases hr : x w with
  | ok a v =>
    rw [hr] at h
    rw [recover_of_ok hr, recover_of_ok h]
    rfl
  | error e v =>
    rw [hr] at h
    rw [recover_of_error hr, recover_of_error h]
    exact hf e v

theorem final {x : Act σ ω α} {y : Act σ ω' α} (h : Shows π x y) (w : World σ ω) :
    y.final (w.heard π) = (x.final w).heard π := by
  unfold Act.final
  rw [h w]
  cases x w <;> rfl

end Act.Shows

namespace Host

structure Shows (π : ω → ω') (h : Host σ ω) (h' : Host σ ω') : Prop where
  device : h'.device = h.device
  announce : ∀ e, Act.Shows π (h.announce e) (h'.announce e)

namespace Shows

variable {h : Host σ ω} {h' : Host σ ω'}

theorem read (H : h.Shows π h') (channel : Channel) :
    Act.Shows π (useDevice (h.device.read channel)) (useDevice (h'.device.read channel)) :=
  H.device ▸ .useDevice _

theorem write (H : h.Shows π h') (channel : Channel) (value : Int) :
    Act.Shows π (useDevice (h.device.write channel value))
      (useDevice (h'.device.write channel value)) :=
  H.device ▸ .useDevice _

theorem setValue (H : h.Shows π h') (n : Int) : Act.Shows π (h.setValue n) (h'.setValue n) :=
  .bind (.change _) fun _ => H.announce _

theorem setCursor (H : h.Shows π h') (position : Int) :
    Act.Shows π (h.setCursor position) (h'.setCursor position) :=
  .bind (.look _) fun _ => .bind (.change _) fun _ => H.announce _

theorem setRegister (H : h.Shows π h') (n : Option Int) :
    Act.Shows π (h.setRegister n) (h'.setRegister n) :=
  .bind (.change _) fun _ => H.announce _

theorem badEval (H : h.Shows π h') (info : BadEval) :
    Act.Shows π (h.badEval info) (h'.badEval info) :=
  .bind (H.announce _) fun _ => .change _

theorem finish (H : h.Shows π h') : Act.Shows π h.finish h'.finish := by
  refine .bind (.look _) fun finished => ?_
  cases finished with
  | true => exact .pure ()
  | false => exact .bind (.change _) fun _ => H.announce _

theorem performPlain (H : h.Shows π h') (e : Effect) :
    Act.Shows π (h.performPlain e) (h'.performPlain e) := by
  cases e with
  | loopBack => exact .change _
  | left => exact .bind (.look _) fun _ => H.setCursor _
  | right => exact .bind (.look _) fun _ => H.setCursor _
  | runCell => exact .throw _
  | exchangeChar =>
    refine .bind (.look _) fun value => ?_
    by_cases hv : value = 0
    · rw [if_pos hv, if_pos hv]
      exact .bind (H.read .char) H.setValue
    · rw [if_neg hv, if_neg hv]
      exact H.write .char _
  | decrement => exact .bind (.look _) fun _ => H.setValue _
  | increment => exact .bind (.look _) fun _ => H.setValue _
  | skipIfZero =>
    refine .bind (.look _) fun value => ?_
    by_cases hv : value = 0
    · rw [if_pos hv, if_pos hv]
      exact .change _
    · rw [if_neg hv, if_neg hv]
      exact .pure ()
  | clear => exact H.setValue 0
  | swapRegister =>
    refine .bind (.look _) fun register => ?_
    cases register with
    | none => exact .bind (.look _) fun _ => H.setRegister _
    | some n => exact .bind (H.setValue n) fun _ => H.setRegister none
  | writeNumber => exact .bind (.look _) fun _ => H.write .byte _
  | readNumber => exact .bind (H.read .byte) H.setValue

theorem runCell (H : h.Shows π h') : Act.Shows π h.runCell h'.runCell := by
  refine .bind (.look _) fun value => .bind (.look _) fun found => ?_
  cases found with
  | none => exact H.badEval _
  | some c =>
    refine .bind (.look _) fun current => ?_
    by_cases hs : current = some c
    · rw [if_pos hs, if_pos hs]
      exact H.badEval _
    · rw [if_neg hs, if_neg hs]
      exact H.performPlain c.effect

theorem perform (H : h.Shows π h') (e : Effect) : Act.Shows π (h.perform e) (h'.perform e) := by
  by_cases he : e = .runCell
  · subst he
    exact H.runCell
  · rw [perform_of_ne h he, perform_of_ne h' he]
    exact H.performPlain e

theorem visit (H : h.Shows π h') (c : Command) : Act.Shows π (h.visit c) (h'.visit c) := by
  refine .bind (.look _) fun skip => ?_
  cases skip with
  | none => exact H.perform c.effect
  | nextThenAfter => exact .change _
  | after => exact .change _

theorem close (H : h.Shows π h') : Act.Shows π h.close h'.close := by
  refine .bind (.change _) fun _ => .bind (.look _) fun ends => ?_
  cases ends with
  | true => exact H.finish
  | false => exact .pure ()

theorem step (H : h.Shows π h') : Act.Shows π h.step h'.step := by
  refine .bind (.look _) fun finished => ?_
  cases finished with
  | true => exact .pure ()
  | false =>
    refine .bind (.look _) fun found => ?_
    cases found with
    | none => exact H.finish
    | some c => exact .bind (H.visit c) fun _ => H.close

theorem does (H : h.Shows π h') (deed : Deed) : Act.Shows π (h.does deed) (h'.does deed) := by
  cases deed with
  | step => exact H.step
  | setValue n => exact H.setValue n
  | setCursor position => exact H.setCursor position
  | setRegister n => exact H.setRegister n
  | call c => exact H.perform c.effect
  | jump p => exact .change _
  | armSkip => exact .change _
  | badEval info => exact H.badEval info

end Shows

end Host

/-! ## Deeds as turns -/

/-- What a deed comes to when nobody interferes. -/
def Deed.turn (m : Machine) : Deed → Turn Machine.Shift
  | .step => m.turn
  | .setValue n => .quiet (m.valueSet n)
  | .setCursor position => .quiet (m.cursorSet position)
  | .setRegister n => .quiet (m.registerSet n)
  | .call c => m.effectTurn c.effect
  | .jump p => .quiet (m.jumpWhere p, [])
  | .armSkip => .quiet (m.armSkip, [])
  | .badEval info => .quiet (m.refused info)

namespace Host

variable {d : Device σ}

theorem noting_does {note : Event → ω → ω} {w : World σ ω} (deed : Deed) :
    (noting d note).does deed w = (deed.turn w.machine).carry d note w := by
  cases deed with
  | step => exact noting_step
  | call c => exact noting_perform c.effect
  | _ => rfl

/-- A host that takes down each event, before subscribers that look at the world and keep what they
like. -/
def watching (d : Device σ) (note : Event → World σ (Recorded ω) → ω) : Host σ (Recorded ω) :=
  telling d fun e w => .ok () { w with audience := { w.audience with own := note e w } }

variable {note : Event → World σ (Recorded ω) → ω} {w : World σ (Recorded ω)}

theorem watching_shows : (watching d note).Shows Recorded.events (observed d) where
  device := rfl
  announce _ _ := rfl

variable (d note) in
/-- A deed before subscribers that only watch: the machine makes its turn, the events are taken
down, and a fault leaves all but the device as it was. -/
theorem watching_does (deed : Deed) :
    viewed (World.heard Recorded.events) ((watching d note).does deed w) =
      match (deed.turn w.machine).on d w.device with
      | .ok shift s => .ok () ⟨shift.1, s, w.audience.events ++ shift.2.toArray⟩
      | .error e s => .error e ⟨w.machine, s, w.audience.events⟩ := by
  rw [← watching_shows.does deed w, observed_eq, noting_does]
  unfold Turn.carry
  dsimp only [World.heard]
  cases (deed.turn w.machine).on d w.device with
  | ok shift s =>
    simp only [World.shifted, List.foldl_push_eq_append']
  | error e s => rfl

variable (d note w) in
theorem watching_does_cases (deed : Deed) :
    (∃ x s v, (deed.turn w.machine).on d w.device = .ok x s ∧
        (watching d note).does deed w = .ok () v ∧ v.machine = x.1 ∧ v.device = s ∧
        v.audience.events = w.audience.events ++ x.2.toArray) ∨
      ∃ e s v, (deed.turn w.machine).on d w.device = .error e s ∧
        (watching d note).does deed w = .error e v ∧ v.machine = w.machine ∧ v.device = s ∧
        v.audience.events = w.audience.events := by
  have hd := watching_does d note (w := w) deed
  cases hon : (deed.turn w.machine).on d w.device with
  | ok x s =>
    rw [hon] at hd
    cases hr : (watching d note).does deed w with
    | ok u v =>
      rw [hr] at hd
      injection hd with _ hd
      injection hd with hm hs he
      exact .inl ⟨x, s, v, rfl, rfl, hm, hs, he⟩
    | error e v =>
      rw [hr] at hd
      cases hd
  | error e s =>
    rw [hon] at hd
    cases hr : (watching d note).does deed w with
    | ok u v =>
      rw [hr] at hd
      cases hd
    | error e' v =>
      rw [hr] at hd
      injection hd with hfault hd
      injection hd with hm hs he
      exact .inr ⟨e, s, v, rfl, by rw [hfault], hm, hs, he⟩

end Host

end Moo
