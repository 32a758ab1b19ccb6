import Moo.Proofs.Audience.Conduct

/-!
# Diaries

A diary holds, moment by moment and each with the machine as it was then, what is done to a machine
and what is announced meanwhile, so that before and after can be told apart also where deeds are
done within deeds. `Behaved d terms x` says that `x` is made of what subscribers can do, as
`Conduct` does, with a diary kept and on terms: which deeds may be done before which subscribers.
Whoever drives the machine does no more than its subscribers can do, so a whole history is one such
action.

An invariant of diaries is a condition `R` on two moments, the one before the other, and a condition
`N` on a moment and the machine now (`World.Orderly R N`). A moment can be written down if `N` for
all moments before gives `R` (`Moment.Writable`).
-/

namespace Moo

open Act

variable {σ ω : Type} {α β : Type}

/-! ## Moments -/

/-- Something that happens to a machine, and the machine as it is then. -/
inductive Moment where
  | begun (deed : Deed) (machine : Machine)
  /-- In the course of the deed an event is announced; no subscriber has been called yet. -/
  | told (deed : Deed) (event : Event) (machine : Machine)
  /-- The deed has ceased, cut short or not. -/
  | ceased (deed : Deed) (machine : Machine)

def Moment.machine : Moment → Machine
  | .begun _ machine => machine
  | .told _ _ machine => machine
  | .ceased _ machine => machine

structure Diary (ω : Type) where
  moments : List Moment
  own : ω

def Diary.blank (own : ω) : Diary ω := ⟨[], own⟩

def World.noted (moment : Machine → Moment) (w : World σ (Diary ω)) : World σ (Diary ω) :=
  { w with audience := { w.audience with moments := w.audience.moments ++ [moment w.machine] } }

/-- A host that writes down each event announced in the course of a deed and then lets its
subscribers react. -/
def Host.witnessed (d : Device σ) (deed : Deed) (react : Event → Act σ (Diary ω) Unit) :
    Host σ (Diary ω) where
  device := d
  announce e := fun w => react e (w.noted (.told deed e))

/-- Write down that something has ceased, cut short or not. -/
def Act.concluded (deed : Deed) (x : Act σ (Diary ω) α) : Act σ (Diary ω) α := fun w =>
  match x w with
  | .ok a w => .ok a (w.noted (.ceased deed))
  | .error e w => .error e (w.noted (.ceased deed))

/-- Do something, from its beginning to its end. -/
def Host.carryOut (d : Device σ) (deed : Deed) (react : Event → Act σ (Diary ω) Unit) :
    Act σ (Diary ω) Unit :=
  fun w => ((witnessed d deed react).does deed).concluded deed (w.noted (.begun deed))

/-! ## Behaviour -/

/-- Which deeds may be done before which subscribers. -/
abbrev Terms (σ ω : Type) := Deed → (Event → Act σ (Diary ω) Unit) → Prop

def Terms.free : Terms σ ω := fun _ _ => True

def Terms.stepless : Terms σ ω := fun deed _ => deed ≠ .step

/-- The action is made of what subscribers can do on these terms. -/
inductive Behaved (d : Device σ) (terms : Terms σ ω) : {α : Type} → Act σ (Diary ω) α → Prop where
  /-- Look at the world. -/
  | look {α : Type} (f : World σ (Diary ω) → α) : Behaved d terms fun w => .ok (f w) w
  /-- Change their own state, who is subscribed to what included. -/
  | note (f : ω → ω) : Behaved d terms fun w =>
      .ok () { w with audience := { w.audience with own := f w.audience.own } }
  | raise {α : Type} (e : Fault) : Behaved d terms (throw e : Act σ (Diary ω) α)
  | bind {α β : Type} {x : Act σ (Diary ω) α} {f : α → Act σ (Diary ω) β} :
      Behaved d terms x → (∀ a, Behaved d terms (f a)) → Behaved d terms (x >>= f)
  | recover {α : Type} {x : Act σ (Diary ω) α} {f : Fault → Act σ (Diary ω) α} :
      Behaved d terms x → (∀ e, Behaved d terms (f e)) → Behaved d terms (x.recover f)
  /-- Do something to the machine, which announces events to subscribers that behave likewise. -/
  | deed {react : Event → Act σ (Diary ω) Unit} (deed : Deed) :
      terms deed react → (∀ e, Behaved d terms (react e)) →
      Behaved d terms (Host.carryOut d deed react)

theorem Behaved.attempt {d : Device σ} {terms : Terms σ ω} {x : Act σ (Diary ω) α}
    (hx : Behaved d terms x) : Behaved d terms x.attempt :=
  .recover (.bind hx fun _ => .look fun _ => ()) fun _ => .look fun _ => ()

section

variable {I : World σ (Diary ω) → Prop} {d : Device σ} {terms : Terms σ ω}

/-- What is made of what subscribers can do keeps an invariant that each deed keeps. -/
theorem Behaved.keeps
    (note : ∀ (f : ω → ω) w, I w →
      I { w with audience := { w.audience with own := f w.audience.own } })
    (carryOut : ∀ deed react, terms deed react → (∀ e, Behaved d terms (react e)) →
      (∀ e, Keeps I (react e)) → Keeps I (Host.carryOut d deed react))
    {x : Act σ (Diary ω) α} (hx : Behaved d terms x) : Keeps I x := by
  -- the subscribers before which a deed is done are part of it, so the induction reaches them too
  induction hx with
  | look f => exact fun _ h => h
  | note f => exact fun w h => note f w h
  | raise e => exact .throw e
  | bind _ _ ihx ihf => exact .bind ihx ihf
  | recover _ _ ihx ihf => exact .recover ihx ihf
  | deed deed hterms hreact ih => exact carryOut deed _ hterms hreact ih

end

/-! ## Invariants of diaries -/

/-- The machine is sound, each moment fits those before it, and the machine now fits them all. -/
structure World.Orderly (R : Moment → Moment → Prop) (N : Moment → Machine → Prop)
    (w : World σ (Diary ω)) : Prop where
  sound : w.machine.Sound
  order : w.audience.moments.Pairwise R
  now : ∀ x ∈ w.audience.moments, N x w.machine

/-- The moment can be written down whatever the machine is. -/
def Moment.Writable (R : Moment → Moment → Prop) (N : Moment → Machine → Prop)
    (moment : Machine → Moment) : Prop :=
  ∀ m, N (moment m) m ∧ ∀ x, N x m → R x (moment m)

/-- Of the machine as it is now, only whether it has ended matters. -/
def Moment.Steady (N : Moment → Machine → Prop) : Prop :=
  ∀ x m n, n.finished = m.finished → N x m → N x n

namespace World.Orderly

variable {R : Moment → Moment → Prop} {N N' : Moment → Machine → Prop} {w : World σ (Diary ω)}
  {d : Device σ} {deed : Deed} {react : Event → Act σ (Diary ω) Unit}

theorem blank {m : Machine} (hm : m.Sound) (s : σ) (own : ω) :
    (⟨m, s, .blank own⟩ : World σ (Diary ω)).Orderly R N where
  sound := hm
  order := .nil
  now _ hx := absurd hx List.not_mem_nil

theorem own (f : ω → ω) (h : w.Orderly R N) :
    Orderly R N { w with audience := { w.audience with own := f w.audience.own } } :=
  ⟨h.sound, h.order, h.now⟩

theorem device (s : σ) (h : w.Orderly R N) : Orderly R N { w with device := s } :=
  ⟨h.sound, h.order, h.now⟩

theorem noted_of {moment : Machine → Moment} (h : w.Orderly R N) (hN : N (moment w.machine) w.machine)
    (hR : ∀ x ∈ w.audience.moments, R x (moment w.machine)) : (w.noted moment).Orderly R N := by
  refine ⟨h.sound, List.pairwise_append.mpr ⟨h.order, List.pairwise_singleton _ _, ?_⟩, ?_⟩
  · intro x hx y hy
    rw [List.mem_singleton.mp hy]
    exact hR x hx
  · intro x hx
    rcases List.mem_append.mp hx with hx | hx
    · exact h.now x hx
    · rw [List.mem_singleton.mp hx]
      exact hN

theorem noted {moment : Machine → Moment} (hmoment : Moment.Writable R N moment)
    (h : w.Orderly R N) : (w.noted moment).Orderly R N :=
  h.noted_of (hmoment _).1 fun x hx => (hmoment _).2 x (h.now x hx)

theorem machine {m : Machine} (h : w.Orderly R N) (hm : m.Sound)
    (hN : ∀ x ∈ w.audience.moments, N x m) : Orderly R N { w with machine := m } :=
  ⟨hm, h.order, hN⟩

theorem weaken (h : w.Orderly R N) (hN : ∀ x ∈ w.audience.moments, N' x w.machine) :
    w.Orderly R N' := ⟨h.sound, h.order, hN⟩

theorem advance (hN : Moment.Steady N) (h : w.Orderly R N) :
    Orderly R N { w with machine := w.machine.advance } :=
  h.machine (Machine.advance_sound h.sound) fun x hx =>
    hN x _ _ (Machine.advance_finished w.machine) (h.now x hx)

/-- A host keeps a diary in order, refusals and the end apart, if its subscribers do and the events
of the state can be written down. -/
theorem bears (hN : Moment.Steady N)
    (htold : ∀ e : Event, e.OfState → Moment.Writable R N (.told deed e))
    (hreact : ∀ e, Keeps (Orderly R N) (react e)) :
    (Host.witnessed d deed react).Bears (Orderly R N) where
  sound _ h := h.sound
  change _ _ h hm hf := h.machine (hm.sound h.sound) fun x hx => hN x _ _ hf (h.now x hx)
  read channel := by
    intro w h
    unfold final
    rw [useDevice_apply]
    cases (Host.witnessed d deed react).device.read channel w.device <;> exact h.device _
  write channel value _ := by
    intro w h
    unfold final
    rw [useDevice_apply]
    cases (Host.witnessed d deed react).device.write channel value w.device <;> exact h.device _
  announce e _ he := fun _ h => hreact e _ (h.noted (htold e he))

/-- Whatever is done keeps the diary in order if this can be written down and what is done keeps
it. -/
theorem carryOut (hbegun : Moment.Writable R N (.begun deed))
    (hceased : Moment.Writable R N (.ceased deed))
    (hdoes : Keeps (Orderly R N) ((Host.witnessed d deed react).does deed)) :
    Keeps (Orderly R N) (Host.carryOut d deed react) := by
  intro w h
  have hdone := hdoes _ (h.noted hbegun)
  unfold final Host.carryOut concluded at *
  cases hr : (Host.witnessed d deed react).does deed (w.noted (.begun deed)) <;>
    simp only [hr] at hdone ⊢ <;> exact hdone.noted hceased

end World.Orderly

end Moo
