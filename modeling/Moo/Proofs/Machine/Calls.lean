import Moo.Proofs.Audience.Watching
import Moo.Proofs.Device.Reliable

/-!
# Calling a machine

`h.Calls a n b`: called `n` times to step, the host `h` takes the world `a` to `b`, and no call is
cut short. A machine that has ended may be called again. On a reliable device, and if at most one
command of the catalogue runs a cell, no call is ever cut short (`Host.calls_of_reliable`).
-/

namespace Moo

open Act

variable {σ ω : Type}

/-! ## Steps before subscribers that only watch -/

namespace Host

variable {d : Device σ} {note : Event → World σ (Recorded ω) → ω} {b c : World σ (Recorded ω)}

theorem turn_of_watching_step (h : (watching d note).step b = .ok () c) :
    ∃ fired, b.machine.turn.on d b.device = .ok (c.machine, fired) c.device ∧
      c.audience.events = b.audience.events ++ fired.toArray := by
  obtain ⟨x, s, v, hon, hstep, hm, hs, he⟩ | ⟨e, s, v, -, hstep, -⟩ :=
    watching_does_cases d note b .step
  · cases hstep.symm.trans h
    refine ⟨x.2, ?_, he⟩
    rw [hm, hs]
    exact hon
  · cases hstep.symm.trans h

variable (note) in
theorem watching_step_of_turn {x : Machine.Shift} {s : σ}
    (h : b.machine.turn.on d b.device = .ok x s) :
    ∃ c, (watching d note).step b = .ok () c ∧ c.machine = x.1 ∧ c.device = s ∧
      c.audience.events = b.audience.events ++ x.2.toArray := by
  obtain ⟨x', s', v, hon, hstep, hm, hs, he⟩ | ⟨e, s', v, hon, -⟩ :=
    watching_does_cases d note b .step
  · cases hon.symm.trans h
    exact ⟨v, hstep, hm, hs, he⟩
  · cases hon.symm.trans h

variable (d note) in
theorem watching_step_of_quiet {x : Machine.Shift} (h : b.machine.turn = .quiet x) :
    ∃ c, (watching d note).step b = .ok () c ∧ c.machine = x.1 ∧ c.device = b.device ∧
      c.audience.events = b.audience.events ++ x.2.toArray := by
  apply watching_step_of_turn note
  rw [h]
  rfl

/-- Subscribers that only watch, and devices that only serve, leave every machine intact. -/
theorem watching_admits {t : Catalogue} {program : List Command} {memorySize : Int} :
    (watching d note).Admits fun w => w.machine.Intact t program memorySize where
  sound _ hw := hw.toSound
  change _ _ hw hm := hm.intact hw
  read channel := by
    intro w hw
    unfold final
    rw [useDevice_apply]
    cases (watching d note).device.read channel w.device <;> exact hw
  write channel value _ := by
    intro w hw
    unfold final
    rw [useDevice_apply]
    cases (watching d note).device.write channel value w.device <;> exact hw
  announce _ _ _ hw := hw

end Host

/-! ## Calls -/

namespace Host

variable {h : Host σ ω} {a b c : World σ ω} {n : Nat}

/-- So many calls to step, none of them cut short, lead from the one world to the other. -/
inductive Calls (h : Host σ ω) (a : World σ ω) : Nat → World σ ω → Prop where
  | none : Calls h a 0 a
  | snoc {n : Nat} {b c : World σ ω} : Calls h a n b → h.step b = .ok () c → Calls h a (n + 1) c

theorem Calls.append {k : Nat} (hb : h.Calls a n b) (hc : h.Calls b k c) :
    h.Calls a (n + k) c := by
  induction hc with
  | none => exact hb
  | snoc _ hstep ih => exact ih.snoc hstep

theorem Calls.split {k : Nat} (hc : h.Calls a (n + k) c) :
    ∃ b, h.Calls a n b ∧ h.Calls b k c := by
  induction k generalizing c with
  | zero => exact ⟨c, hc, .none⟩
  | succ k ih =>
    cases hc with
    | snoc hcalls hstep =>
      obtain ⟨b, hb, hc⟩ := ih hcalls
      exact ⟨b, hb, hc.snoc hstep⟩

theorem Calls.unique (hb : h.Calls a n b) (hc : h.Calls a n c) : b = c := by
  induction hb generalizing c with
  | none =>
    cases hc
    rfl
  | snoc _ hstep ih =>
    cases hc with
    | snoc hcalls hstep' =>
      obtain rfl := ih hcalls
      rw [hstep] at hstep'
      injection hstep'

end Host

/-! ## Calls before subscribers that only watch -/

namespace Host

variable {d : Device σ} {note : Event → World σ (Recorded ω) → ω}
  {a b : World σ (Recorded ω)} {n : Nat} {t : Catalogue} {program : List Command} {memorySize : Int}

theorem Calls.intact (h : (watching d note).Calls a n b)
    (ha : a.machine.Intact t program memorySize) : b.machine.Intact t program memorySize := by
  induction h with
  | none => exact ha
  | @snoc n b c _ hstep ih =>
    have keeps : Keeps (fun w => w.machine.Intact t program memorySize) (watching d note).step :=
      watching_admits.step fun _ hw => Machine.advance_intact hw
    have hc := keeps b ih
    rwa [final_of_ok hstep] at hc

theorem stepped_of_watching_step {c : World σ (Recorded ω)} (hr : b.machine.Resting)
    (h : (watching d note).step b = .ok () c) :
    ∃ fired, b.machine.Stepped (c.machine, fired) ∧
      c.audience.events = b.audience.events ++ fired.toArray := by
  obtain ⟨fired, hon, he⟩ := turn_of_watching_step h
  exact ⟨fired, Machine.turn_stepped hr (Turn.yields_of_on hon), he⟩

theorem Calls.resting (h : (watching d note).Calls a n b) (ha : a.machine.Resting) :
    b.machine.Resting := by
  induction h with
  | none => exact ha
  | snoc _ hstep ih =>
    obtain ⟨fired, hs, -⟩ := stepped_of_watching_step ih hstep
    exact hs.resting ih

/-- On a reliable device a machine can be called any number of times. -/
theorem calls_of_reliable (hd : d.Reliable) (ht : t.SoleRunner) {m : Machine}
    (hload : Machine.load t program memorySize = .ok m) (hm : a.machine = m) (n : Nat) :
    ∃ b, (watching d note).Calls a n b := by
  induction n with
  | zero => exact ⟨a, .none⟩
  | succ n ih =>
    obtain ⟨b, hb⟩ := ih
    have hi := hb.intact (hm ▸ Machine.Intact.of_load hload)
    obtain ⟨x, s, hon⟩ := hi.served ht (Machine.load_commands hload) hd b.device
    obtain ⟨c, hstep, -⟩ := watching_step_of_turn note hon
    exact ⟨c, hb.snoc hstep⟩

end Host

end Moo
