import Moo.Proofs.Device.Journal

/-!
# Conduct of subscribers

What subscribers do is open: they look at the world, keep a state of their own, raise and catch
faults, and do to the machine whatever can be done to it from outside, which makes it announce
further events to them in turn. `Conduct d mayStep x` says that `x` is made of just that, with steps
among it only if `mayStep`; since a derivation is finite, subscribers call each other to a finite
depth, without any bound on it.

`Reached d mayStep w₀ w`: a host whose subscribers behave so has taken the world `w₀` to `w`, one
deed after the other and going on after faults. The main statements are `Reached.upholds_intact` and
`Reached.upholds_counter`: everything that can be reached is a sound machine on the same program,
which has written and announced bytes only, and if no subscriber steps, its counter is in the
program or right behind it.
-/

namespace Moo

open Act

variable {σ ω : Type} {α β : Type}

/-! ## Deeds -/

inductive Deed where
  | step
  | setValue (n : Int)
  | setCursor (position : Int)
  | setRegister (n : Option Int)
  /-- Carry out a command outside a step. -/
  | call (c : Command)
  /-- Jump to the last command that satisfies a condition. -/
  | jump (p : Command → Nat → Bool)
  | armSkip
  | badEval (info : BadEval)

def Host.does (h : Host σ ω) : Deed → Act σ ω Unit
  | .step => h.step
  | .setValue n => h.setValue n
  | .setCursor position => h.setCursor position
  | .setRegister n => h.setRegister n
  | .call c => h.perform c.effect
  | .jump p => change (·.jumpWhere p)
  | .armSkip => change (·.armSkip)
  | .badEval info => h.badEval info

variable {I : World σ ω → Prop}

/-- A host does nothing that breaks an invariant that it bears, if refusals and steps do not. -/
theorem Host.Bears.does {h : Host σ ω} (H : h.Bears I)
    (refusal : ∀ info, Keeps I (h.announce (.badEval info))) {deed : Deed}
    (hstep : deed = .step → Keeps I h.step) : Keeps I (h.does deed) := by
  cases deed with
  | step => exact hstep rfl
  | setValue n => exact H.setValue n
  | setCursor position => exact H.setCursor position
  | setRegister n => exact H.setRegister n
  | call c => exact H.perform (fun info _ => refusal info) c.effect
  | jump p => exact H.jumpWhere p
  | armSkip => exact H.armSkip
  | badEval info => exact H.badEval (refusal info)

/-! ## Subscribers -/

/-- An audience that takes down every event, and the machine after every deed, and has a state of
its own. -/
structure Recorded (ω : Type) where
  events : Array Event
  machines : Array Machine
  own : ω

def Recorded.ofOwn (own : ω) : Recorded ω := ⟨#[], #[], own⟩

/-- A host that takes down each event and then lets its subscribers react. -/
def Host.telling (d : Device σ) (react : Event → Act σ (Recorded ω) Unit) :
    Host σ (Recorded ω) where
  device := d
  announce e := fun ⟨machine, device, audience⟩ =>
    react e ⟨machine, device, { audience with events := audience.events.push e }⟩

def World.recorded (w : World σ (Recorded ω)) : World σ (Recorded ω) :=
  { w with audience := { w.audience with machines := w.audience.machines.push w.machine } }

/-- Take down the machine that an action leaves, cut short or not. -/
def Act.recorded (x : Act σ (Recorded ω) α) : Act σ (Recorded ω) α := fun w =>
  match x w with
  | .ok a w => .ok a w.recorded
  | .error e w => .error e w.recorded

def Act.recover (x : Act σ ω α) (f : Fault → Act σ ω α) : Act σ ω α := fun w =>
  match x w with
  | .ok a w => .ok a w
  | .error e w => f e w

theorem Act.recover_of_ok {x : Act σ ω α} {f : Fault → Act σ ω α} {w v : World σ ω} {a : α}
    (h : x w = .ok a v) : (x.recover f) w = .ok a v := by
  unfold recover
  rw [h]

theorem Act.recover_of_error {x : Act σ ω α} {f : Fault → Act σ ω α} {w v : World σ ω} {e : Fault}
    (h : x w = .error e v) : (x.recover f) w = f e v := by
  unfold recover
  rw [h]

/-- Do something and go on, whether or not it was cut short. -/
def Act.attempt (x : Act σ ω α) : Act σ ω Unit := (x >>= fun _ => pure ()).recover fun _ => pure ()

theorem Act.final_attempt_bind (x : Act σ ω α) (y : Act σ ω β) (w : World σ ω) :
    (x.attempt >>= fun _ => y).final w = y.final (x.final w) := by
  cases hr : x w with
  | ok a v =>
    have hx : x.attempt w = .ok () v := recover_of_ok (bind_of_ok hr _)
    rw [final_congr (bind_of_ok hx _), final_of_ok hr]
  | error e v =>
    have hx : x.attempt w = .ok () v := recover_of_error (bind_of_error hr _)
    rw [final_congr (bind_of_ok hx _), final_of_error hr]

theorem Act.Keeps.recover {x : Act σ ω α} {f : Fault → Act σ ω α} (hx : Keeps I x)
    (hf : ∀ e, Keeps I (f e)) : Keeps I (x.recover f) := by
  intro w hw
  have h := hx w hw
  cases hr : x w with
  | ok a v =>
    rw [final_of_ok hr] at h
    rw [final_of_ok (recover_of_ok hr)]
    exact h
  | error e v =>
    rw [final_of_error hr] at h
    rw [final_congr (recover_of_error hr)]
    exact hf _ v h

/-- The action is made of what subscribers can do. -/
inductive Conduct (d : Device σ) (mayStep : Bool) : {α : Type} → Act σ (Recorded ω) α → Prop where
  /-- Look at the world. -/
  | look {α : Type} (f : World σ (Recorded ω) → α) : Conduct d mayStep fun w => .ok (f w) w
  /-- Change their own state, who is subscribed to what included. -/
  | note (f : ω → ω) : Conduct d mayStep fun w =>
      .ok () { w with audience := { w.audience with own := f w.audience.own } }
  | raise {α : Type} (e : Fault) : Conduct d mayStep (throw e : Act σ (Recorded ω) α)
  | bind {α β : Type} {x : Act σ (Recorded ω) α} {f : α → Act σ (Recorded ω) β} :
      Conduct d mayStep x → (∀ a, Conduct d mayStep (f a)) → Conduct d mayStep (x >>= f)
  | recover {α : Type} {x : Act σ (Recorded ω) α} {f : Fault → Act σ (Recorded ω) α} :
      Conduct d mayStep x → (∀ e, Conduct d mayStep (f e)) → Conduct d mayStep (x.recover f)
  /-- Do something to the machine, which announces events to subscribers that behave likewise. -/
  | deed {react : Event → Act σ (Recorded ω) Unit} (deed : Deed) :
      (deed = .step → mayStep = true) → (∀ e, Conduct d mayStep (react e)) →
      Conduct d mayStep ((Host.telling d react).does deed).recorded

/-- The worlds that a host can bring about from a world. -/
inductive Reached (d : Device σ) (mayStep : Bool) (w₀ : World σ (Recorded ω)) :
    World σ (Recorded ω) → Prop where
  | start : Reached d mayStep w₀ w₀
  /-- Something was done, and perhaps cut short. -/
  | deed {w : World σ (Recorded ω)} {react : Event → Act σ (Recorded ω) Unit} (deed : Deed) :
      Reached d mayStep w₀ w → (∀ e, Conduct d mayStep (react e)) →
      Reached d mayStep w₀ (((Host.telling d react).does deed).recorded.final w)
  /-- Somebody subscribed, or the subscribers changed their state otherwise. -/
  | note {w : World σ (Recorded ω)} (f : ω → ω) : Reached d mayStep w₀ w →
      Reached d mayStep w₀ { w with audience := { w.audience with own := f w.audience.own } }

/-! ## What is upheld -/

def Event.InRange : Event → Prop
  | .valueChanged value => value < 256
  | .registerChanged register => ∀ v ∈ register, v < 256
  | _ => True

theorem Event.Plain.inRange {e : Event} (h : e.Plain) : e.InRange := by
  cases e with
  | valueChanged value => exact h
  | registerChanged register => exact h
  | _ => exact trivial

/-- The condition on machines survives every change. -/
def Machine.Stable (C : Machine → Prop) : Prop := ∀ m n : Machine, m.Change n → C m → C n

theorem Machine.stable_true : Stable fun _ => True := fun _ _ _ _ => trivial

/-- The counter is in the program or right behind it. -/
def Machine.Bounded (m : Machine) : Prop := m.counter ≤ m.program.size

def Machine.Pointing (m : Machine) : Prop := m.counter < m.program.size

theorem Machine.stable_bounded : Stable Bounded := by
  intro m n h hm
  have hp := h.frame.2.1
  unfold Bounded at *
  rcases h.counter with hc | hc
  · rw [hc, hp]
    exact hm
  · omega

theorem Machine.stable_pointing : Stable Pointing := by
  intro m n h hm
  have hp := h.frame.2.1
  unfold Pointing at *
  rcases h.counter with hc | hc
  · rw [hc, hp]
    exact hm
  · exact hc

/-- The machine is intact and meets a condition, it has written bytes only, and the audience meets a
condition of its own. -/
structure Upholds (t : Catalogue) (program : List Command) (memorySize : Int) (C : Machine → Prop)
    (P : ω → Prop) (w : World (σ × Array Transfer) ω) : Prop where
  machine : w.machine.Intact t program memorySize
  condition : C w.machine
  journal : ∀ x ∈ w.device.2, x.Carried
  audience : P w.audience

namespace Upholds

variable {t : Catalogue} {program : List Command} {memorySize : Int} {C : Machine → Prop}
  {P : ω → Prop} {d : Device σ}

theorem change (hC : Machine.Stable C) (w : World (σ × Array Transfer) ω) (m : Machine)
    (h : Upholds t program memorySize C P w) (hm : w.machine.Change m) :
    Upholds t program memorySize C P { w with machine := m } :=
  ⟨hm.intact h.machine, hC _ _ hm h.condition, h.journal, h.audience⟩

theorem transfer {w : World (σ × Array Transfer) ω} (h : Upholds t program memorySize C P w) (s : σ)
    {x : Transfer} (hx : x.Carried) :
    Upholds t program memorySize C P { w with device := (s, w.device.2.push x) } := by
  refine ⟨h.machine, h.condition, fun y hy => ?_, h.audience⟩
  rcases Array.mem_push.mp hy with hy | rfl
  · exact h.journal y hy
  · exact hx

theorem read (channel : Channel) : Keeps (Upholds t program memorySize C P)
    (useDevice (d.journaled.read channel) : Act (σ × Array Transfer) ω Int) := by
  intro w h
  unfold final
  rw [useDevice_apply]
  unfold Device.journaled
  cases hr : d.read channel w.device.1 with
  | ok n s =>
    simp only [hr]
    exact h.transfer s trivial
  | error e s =>
    simp only [hr]
    exact ⟨h.machine, h.condition, h.journal, h.audience⟩

theorem write (channel : Channel) (value : Int) (hv : channel.Carries value) :
    Keeps (Upholds t program memorySize C P)
      (useDevice (d.journaled.write channel value) : Act (σ × Array Transfer) ω Unit) := by
  intro w h
  unfold final
  rw [useDevice_apply]
  unfold Device.journaled
  cases hr : d.write channel value w.device.1 with
  | ok u s =>
    simp only [hr]
    exact h.transfer s hv
  | error e s =>
    simp only [hr]
    exact h.transfer s hv

theorem admits (hC : Machine.Stable C) {h : Host (σ × Array Transfer) ω}
    (hd : h.device = d.journaled)
    (announce : ∀ e : Event, e.InRange → Keeps (Upholds t program memorySize C P) (h.announce e)) :
    h.Admits (Upholds t program memorySize C P) where
  sound _ hw := hw.machine.toSound
  change w m hw hm := hw.change hC w m hm
  read channel := hd ▸ read channel
  write channel value hv := hd ▸ write channel value hv
  announce e he := announce e he.inRange

theorem weaken {C' : Machine → Prop} (hle : ∀ m, C m → C' m) {w : World (σ × Array Transfer) ω}
    (h : Upholds t program memorySize C P w) : Upholds t program memorySize C' P w :=
  ⟨h.machine, hle _ h.condition, h.journal, h.audience⟩

theorem advance {C' : Machine → Prop} (hadv : ∀ m, C m → C' m.advance)
    {w : World (σ × Array Transfer) ω} (h : Upholds t program memorySize C P w) :
    Upholds t program memorySize C' P { w with machine := w.machine.advance } :=
  ⟨Machine.advance_intact h.machine, hadv _ h.condition, h.journal, h.audience⟩

section

variable {h : Host (σ × Array Transfer) ω}

theorem step (H : h.Admits (Upholds t program memorySize C P))
    (hadv : ∀ m : Machine, C m → C m.advance) : Keeps (Upholds t program memorySize C P) h.step :=
  H.step fun _ hw => hw.advance hadv

/-- While a step is under way and nobody steps meanwhile, the counter stays where there is a
command; the advance at the close takes it at most right behind the last one. -/
theorem step_bounded (Hle : h.Admits (Upholds t program memorySize Machine.Bounded P))
    (Hlt : h.Admits (Upholds t program memorySize Machine.Pointing P)) :
    Keeps (Upholds t program memorySize Machine.Bounded P) h.step := by
  apply Hle.step_through Hlt
  · exact fun w hw => hw.weaken fun m hm => Nat.le_of_lt hm
  · exact fun w hw hlt => ⟨hw.machine, hlt, hw.journal, hw.audience⟩
  · exact fun w hw => hw.advance fun m hm => Machine.advance_counter_le hm

end

end Upholds

/-! ## What subscribers keep -/

structure Recorded.Proper (G : Machine → Prop) (a : Recorded ω) : Prop where
  events : ∀ e ∈ a.events, e.InRange
  machines : ∀ m ∈ a.machines, G m

section

variable {t : Catalogue} {program : List Command} {memorySize : Int} {C G : Machine → Prop}
  {d : Device σ} {mayStep : Bool} {react : Event → Act (σ × Array Transfer) (Recorded ω) Unit}

theorem World.recorded_upholds (hG : ∀ m : Machine, m.Intact t program memorySize → C m → G m)
    {w : World (σ × Array Transfer) (Recorded ω)}
    (hw : Upholds t program memorySize C (Recorded.Proper G) w) :
    Upholds t program memorySize C (Recorded.Proper G) w.recorded := by
  refine ⟨hw.machine, hw.condition, hw.journal, hw.audience.events, fun m hm => ?_⟩
  rcases Array.mem_push.mp hm with hm | rfl
  · exact hw.audience.machines m hm
  · exact hG _ hw.machine hw.condition

theorem World.noted_upholds (f : ω → ω) {w : World (σ × Array Transfer) (Recorded ω)}
    (hw : Upholds t program memorySize C (Recorded.Proper G) w) :
    Upholds t program memorySize C (Recorded.Proper G)
      { w with audience := { w.audience with own := f w.audience.own } } :=
  ⟨hw.machine, hw.condition, hw.journal, hw.audience.events, hw.audience.machines⟩

theorem Act.recorded_keeps (hG : ∀ m : Machine, m.Intact t program memorySize → C m → G m)
    {x : Act (σ × Array Transfer) (Recorded ω) α}
    (hx : Keeps (Upholds t program memorySize C (Recorded.Proper G)) x) :
    Keeps (Upholds t program memorySize C (Recorded.Proper G)) x.recorded := by
  intro w hw
  have h := World.recorded_upholds hG (hx w hw)
  unfold final Act.recorded at *
  cases hr : x w <;> simp only [hr] at h ⊢ <;> exact h

theorem Host.telling_announce
    (hr : ∀ e, Keeps (Upholds t program memorySize C (Recorded.Proper G)) (react e)) (e : Event)
    (he : e.InRange) : Keeps (Upholds t program memorySize C (Recorded.Proper G))
      ((Host.telling d.journaled react).announce e) := by
  intro w hw
  refine hr e _ ⟨hw.machine, hw.condition, hw.journal, fun x hx => ?_, hw.audience.machines⟩
  rcases Array.mem_push.mp hx with hx | rfl
  · exact hw.audience.events x hx
  · exact he

theorem Host.telling_admits (hC : Machine.Stable C)
    (hr : ∀ e, Keeps (Upholds t program memorySize C (Recorded.Proper G)) (react e)) :
    (Host.telling d.journaled react).Admits
      (Upholds t program memorySize C (Recorded.Proper G)) :=
  Upholds.admits hC rfl (Host.telling_announce hr)

theorem Host.telling_does (hC : Machine.Stable C)
    (hG : ∀ m : Machine, m.Intact t program memorySize → C m → G m)
    (hr : ∀ e, Keeps (Upholds t program memorySize C (Recorded.Proper G)) (react e)) {deed : Deed}
    (hstep : deed = .step → Keeps (Upholds t program memorySize C (Recorded.Proper G))
      (Host.telling d.journaled react).step) :
    Keeps (Upholds t program memorySize C (Recorded.Proper G))
      ((Host.telling d.journaled react).does deed).recorded :=
  Act.recorded_keeps hG <|
    (Host.telling_admits hC hr).bears.does (fun _ => Host.telling_announce hr _ trivial) hstep

/-- Whatever subscribers do keeps what is upheld, if the condition survives steps or there are
none. -/
theorem Conduct.keeps (hC : Machine.Stable C)
    (hG : ∀ m : Machine, m.Intact t program memorySize → C m → G m)
    (hadv : mayStep = true → ∀ m : Machine, C m → C m.advance)
    {x : Act (σ × Array Transfer) (Recorded ω) α} (hx : Conduct d.journaled mayStep x) :
    Keeps (Upholds t program memorySize C (Recorded.Proper G)) x := by
  -- subscribers of a deed are part of how the deed was made, so the induction reaches them too
  induction hx with
  | look f => exact fun _ h => h
  | note f => exact fun _ h => World.noted_upholds f h
  | raise e => exact .throw e
  | bind _ _ ihx ihf => exact .bind ihx ihf
  | recover _ _ ihx ihf => exact .recover ihx ihf
  | deed deed hd _ ih =>
    exact Host.telling_does hC hG ih fun hs =>
      Upholds.step (Host.telling_admits hC ih) (hadv (hd hs))

theorem Conduct.keeps_of_stepless (hC : Machine.Stable C)
    (hG : ∀ m : Machine, m.Intact t program memorySize → C m → G m)
    {x : Act (σ × Array Transfer) (Recorded ω) α} (hx : Conduct d.journaled false x) :
    Keeps (Upholds t program memorySize C (Recorded.Proper G)) x :=
  hx.keeps hC hG fun h => absurd h Bool.false_ne_true

/-- Everything that a host can bring about upholds what the start does, if what it does to the
machine keeps that. -/
theorem Reached.upholds {w₀ w : World (σ × Array Transfer) (Recorded ω)}
    (hw : Reached d.journaled mayStep w₀ w)
    (h₀ : Upholds t program memorySize C (Recorded.Proper G) w₀)
    (hdeed : ∀ (react : Event → Act (σ × Array Transfer) (Recorded ω) Unit) (deed : Deed),
      (∀ e, Conduct d.journaled mayStep (react e)) →
        Keeps (Upholds t program memorySize C (Recorded.Proper G))
          ((Host.telling d.journaled react).does deed).recorded) :
    Upholds t program memorySize C (Recorded.Proper G) w := by
  induction hw with
  | start => exact h₀
  | deed deed _ hr ih => exact hdeed _ deed hr _ ih
  | note f _ ih => exact World.noted_upholds f ih

/-- The machine is intact after every deed. -/
theorem Reached.upholds_intact {w₀ w : World (σ × Array Transfer) (Recorded ω)}
    (hw : Reached d.journaled mayStep w₀ w)
    (h₀ : Upholds t program memorySize (fun _ => True)
      (Recorded.Proper (Machine.Intact t program memorySize)) w₀) :
    Upholds t program memorySize (fun _ => True)
      (Recorded.Proper (Machine.Intact t program memorySize)) w := by
  refine hw.upholds h₀ fun react deed hr => ?_
  have keeps : ∀ e, Keeps (Upholds t program memorySize (fun _ => True)
      (Recorded.Proper (Machine.Intact t program memorySize))) (react e) := fun e =>
    (hr e).keeps Machine.stable_true (fun _ hm _ => hm) fun _ _ _ => trivial
  refine Host.telling_does Machine.stable_true (fun _ hm _ => hm) keeps fun _ => ?_
  exact Upholds.step (Host.telling_admits Machine.stable_true keeps) fun _ _ => trivial

/-- If no subscriber steps, the counter is in the program or right behind it after every deed. -/
theorem Reached.upholds_counter {w₀ w : World (σ × Array Transfer) (Recorded ω)}
    (hw : Reached d.journaled false w₀ w)
    (h₀ : Upholds t program memorySize Machine.Bounded (Recorded.Proper Machine.Bounded) w₀) :
    Upholds t program memorySize Machine.Bounded (Recorded.Proper Machine.Bounded) w := by
  refine hw.upholds h₀ fun react deed hr => ?_
  have bounded : ∀ e, Keeps (Upholds t program memorySize Machine.Bounded
      (Recorded.Proper Machine.Bounded)) (react e) := fun e =>
    (hr e).keeps_of_stepless Machine.stable_bounded fun _ _ h => h
  have pointing : ∀ e, Keeps (Upholds t program memorySize Machine.Pointing
      (Recorded.Proper Machine.Bounded)) (react e) := fun e =>
    (hr e).keeps_of_stepless Machine.stable_pointing fun _ _ h => Nat.le_of_lt h
  refine Host.telling_does Machine.stable_bounded (fun _ _ h => h) bounded fun _ => ?_
  exact Upholds.step_bounded (Host.telling_admits Machine.stable_bounded bounded)
    (Host.telling_admits Machine.stable_pointing pointing)

end

end Moo
