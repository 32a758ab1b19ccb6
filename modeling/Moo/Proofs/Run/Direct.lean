import Moo.Proofs.Machine.Stepping
import Moo.Proofs.Run.View

/-!
# Sessions and direct stepping

A session and a host without an audience go through the same machines and device states, tick by
step (`Session.silent_step_eq`). So a session without a step limit ends, fails or goes on exactly as
direct stepping does, its entries tell the steps one by one (`Entry.Tells`), and keeping entries
changes nothing else.
-/

namespace Moo.Run

variable {σ : Type} {d : Device σ} {o : Options}

def Options.untraced (o : Options) : Options := { o with trace := false }

/-- The entry tells of the step, the one numbered `i` from zero, that leads from `v` to `v'`: its
number from one, the counter and the command before it, whether the command was run or passed, and
the events. -/
structure Entry.Tells (d : Device σ) (i : Nat) (v v' : World σ Unit) (e : Entry) : Prop where
  step : e.step = i + 1
  counter : e.counter = v.machine.counter
  command : ∃ c, v.machine.command? = some c ∧ e.command = c.name ∧
    ((e.mode = .exec ∧ v.machine.skip = .none ∧
        (Host.observed d).step ⟨v.machine, v.device, #[]⟩ =
          ((Host.observed d).perform c.effect >>= fun _ => (Host.observed d).close)
            ⟨v.machine, v.device, #[]⟩) ∨
      (e.mode = .skip ∧ v.machine.skip ≠ .none ∧
        (Host.observed d).step ⟨v.machine, v.device, #[]⟩ =
          (Host.observed d).close
            ⟨{ v.machine with skip := v.machine.skip.next }, v.device, #[]⟩))
  events : (Host.observed d).step ⟨v.machine, v.device, #[]⟩ =
    .ok () ⟨v'.machine, v'.device, e.events.toArray⟩

namespace Session

variable {s s₀ s' : Session σ} {n : Nat}

/-! ## One tick -/

def world (s : Session σ) : World σ Unit := ⟨s.machine, s.device.1, ()⟩

theorem silent_step_eq (d : Device σ) (s : Session σ) :
    (Host.silent d).step s.world =
      Moo.viewed (fun w => ⟨w.machine, w.device.1, ()⟩) (stepOnce d s.machine s.device) := by
  unfold world
  rw [Host.silent_step, stepOnce_eq, (Device.View.recorded d).on s.machine.turn s.device]
  cases s.machine.turn.on d.recording s.device <;> rfl

theorem observed_step_eq (d : Device σ) (s : Session σ) :
    (Host.observed d).step ⟨s.machine, s.device.1, #[]⟩ =
      Moo.viewed (fun w => ⟨w.machine, w.device.1, w.audience⟩)
        (stepOnce d s.machine s.device) := by
  rw [Host.observed_step, stepOnce_eq, (Device.View.recorded d).on s.machine.turn s.device]
  cases s.machine.turn.on d.recording s.device <;> rfl

theorem after_world (w : World (σ × Array Output) (Array Event)) :
    (s.after o w).world = ⟨w.machine, w.device.1, ()⟩ := by
  unfold world
  rw [after_machine, after_device]

theorem exhaustedAt_of_none (ho : o.maxSteps = none) (n : Nat) : o.exhaustedAt n = false := by
  unfold Options.exhaustedAt
  rw [ho]

theorem tick_of_silent_ok (ho : o.maxSteps = none) {v : World σ Unit}
    (h : (Host.silent d).step s.world = .ok () v) :
    ∃ s', tick d o s = .ok () s' ∧ s'.world = v := by
  rw [silent_step_eq] at h
  cases hw : stepOnce d s.machine s.device with
  | ok u w =>
    rw [hw] at h
    cases h
    exact ⟨s.after o w, tick_of_ok (exhaustedAt_of_none ho _) hw, after_world w⟩
  | error e w =>
    rw [hw] at h
    cases h

theorem tick_of_silent_error (ho : o.maxSteps = none) {e : Fault} {v : World σ Unit}
    (h : (Host.silent d).step s.world = .error e v) :
    ∃ s', tick d o s = .error (.fault e) s' ∧ s'.world = v := by
  rw [silent_step_eq] at h
  cases hw : stepOnce d s.machine s.device with
  | ok u w =>
    rw [hw] at h
    cases h
  | error e' w =>
    rw [hw] at h
    cases h
    obtain ⟨steps, ht⟩ := tick_of_error (exhaustedAt_of_none ho _) hw
    exact ⟨_, ht, rfl⟩

theorem silent_of_tick_ok (h : tick d o s = .ok () s') :
    (Host.silent d).step s.world = .ok () s'.world := by
  obtain ⟨-, w, hw, rfl⟩ := tick_ok h
  rw [silent_step_eq, hw, after_world]
  rfl

/-! ## Many ticks -/

theorem Ticks.steps (h : Ticks d o s₀ n s) : (Host.silent d).Steps s₀.world n s.world := by
  induction h with
  | none => exact .none
  | snoc _ hf ht ih => exact ih.snoc hf (silent_of_tick_ok ht)

theorem ticks_of_steps (ho : o.maxSteps = none) {v : World σ Unit}
    (h : (Host.silent d).Steps s₀.world n v) : ∃ s, Ticks d o s₀ n s ∧ s.world = v := by
  induction h with
  | none => exact ⟨s₀, .none, rfl⟩
  | snoc _ hf hstep ih =>
    obtain ⟨s, hs, rfl⟩ := ih
    obtain ⟨s', ht, hv⟩ := tick_of_silent_ok ho hstep
    exact ⟨s', hs.snoc hf ht, hv⟩

theorem run_of_ends (ho : o.maxSteps = none) {v : World σ Unit}
    (h : (Host.silent d).EndsAfter s₀.world n v) :
    ∃ s, Ticks d o s₀ n s ∧ s.world = v ∧ ∀ budget, n ≤ budget → run d o budget s₀ = .finished s := by
  obtain ⟨hsteps, hf⟩ := h
  obtain ⟨s, hs, rfl⟩ := ticks_of_steps ho hsteps
  refine ⟨s, hs, rfl, fun budget hb => ?_⟩
  obtain ⟨k, rfl⟩ := Nat.exists_eq_add_of_le hb
  rw [hs.run]
  exact run_of_finished hf k

theorem run_of_fails (ho : o.maxSteps = none) {e : Fault} {v : World σ Unit}
    (h : (Host.silent d).FailsAfter s₀.world n e v) (budget : Nat) (hb : n < budget) :
    ∃ s, run d o budget s₀ = .failed (.fault e) s ∧ s.world = v := by
  obtain ⟨b, hsteps, hf, hstep⟩ := h
  obtain ⟨s, hs, rfl⟩ := ticks_of_steps ho hsteps
  obtain ⟨s', ht, hv⟩ := tick_of_silent_error ho hstep
  obtain ⟨k, rfl⟩ := Nat.exists_eq_add_of_lt hb
  refine ⟨s', ?_, hv⟩
  rw [Nat.add_assoc, hs.run]
  exact run_of_error hf ht

theorem run_of_diverges (ho : o.maxSteps = none) (h : (Host.silent d).Diverges s₀.world)
    (budget : Nat) : ∃ s, run d o budget s₀ = .running s := by
  obtain ⟨v, hsteps, hf⟩ := h budget
  obtain ⟨s, hs, rfl⟩ := ticks_of_steps ho hsteps
  refine ⟨s, ?_⟩
  have hrun := hs.run 0
  rw [Nat.add_zero] at hrun
  rw [hrun]
  exact run_zero hf

/-! ## Entries -/

theorem tells_of_stepOnce {c : Command} (hf : s.machine.finished = false)
    (hc : s.machine.command? = some c) {w : World (σ × Array Output) (Array Event)}
    (hw : stepOnce d s.machine s.device = .ok () w) :
    Entry.Tells d s.steps s.world ⟨w.machine, w.device.1, ()⟩
      { entryBefore s.machine c (s.steps + 1) with events := w.audience.toList } where
  step := rfl
  counter := rfl
  command := by
    refine ⟨c, hc, rfl, ?_⟩
    by_cases hs : s.machine.skip = .none
    · exact .inl ⟨if_pos hs, hs, Host.step_of_none_pending _ hf hc hs⟩
    · exact .inr ⟨if_neg hs, hs, Host.step_of_pending _ hf hc hs⟩
  events := by
    show (Host.observed d).step ⟨s.machine, s.device.1, #[]⟩ = _
    rw [observed_step_eq, hw]
    rfl

/-- After `n` steps, each of which found a command, there are `n` entries that tell of them. -/
structure Logged (d : Device σ) (a : World σ Unit) (n : Nat) (s : Session σ) : Prop where
  alive : s.machine.Alive
  steps : s.steps = n
  size : s.entries.size = n
  entries : ∀ i e, s.entries[i]? = some e → ∃ v v',
    (Host.silent d).Steps a i v ∧ (Host.silent d).step v = .ok () v' ∧ e.Tells d i v v'

theorem Logged.start {m : Machine} (h : m.Alive) (device : σ) :
    Logged d ⟨m, device, ()⟩ 0 (Session.start m device) where
  alive := h
  steps := rfl
  size := rfl
  entries i e he := by
    rw [Array.getElem?_eq_none (Nat.zero_le i)] at he
    cases he

theorem Logged.tick {a : World σ Unit} (h : Logged d a n s) (htrace : o.trace = true)
    (hsteps : (Host.silent d).Steps a n s.world) (hf : s.machine.finished = false)
    (ht : tick d o s = .ok () s') : Logged d a (n + 1) s' := by
  have hstep := silent_of_tick_ok ht
  obtain ⟨c, hc⟩ := h.alive.command hf
  obtain ⟨-, shift, device, hon, rfl⟩ := tick_turn ht
  have halive : shift.1.Alive := Machine.turn_alive hf hc hon
  have hw : stepOnce d s.machine s.device = .ok () ⟨shift.1, device, shift.2.toArray⟩ := by
    rw [stepOnce_eq, hon]
  have htells := tells_of_stepOnce hf hc hw
  rw [h.steps] at htells
  rw [after_world] at hstep
  rw [after_of_some hc, htrace, h.steps]
  refine ⟨halive, rfl, ?_, ?_⟩
  · show (s.entries.push _).size = n + 1
    rw [Array.size_push, h.size]
  · intro i e he
    rw [if_pos rfl, Array.getElem?_push, h.size] at he
    split at he
    · next hi =>
      cases he
      rw [hi]
      exact ⟨s.world, _, hsteps, hstep, htells⟩
    · exact h.entries i e he

theorem Ticks.logged {m : Machine} {device : σ} (h : Ticks d o (Session.start m device) n s)
    (htrace : o.trace = true) (hm : m.Alive) : Logged d ⟨m, device, ()⟩ n s := by
  induction h with
  | none => exact .start hm device
  | snoc hticks hf ht ih => exact ih.tick htrace hticks.steps hf ht

theorem Ticks.of_empty {t : Catalogue} {memorySize : Int} (h : Ticks d o s₀ n s)
    (hs : s₀.Fit t [] memorySize) : s.steps = s₀.steps ∧ s.entries = s₀.entries := by
  induction h with
  | none => exact ⟨rfl, rfl⟩
  | @snoc n b c hticks _ ht ih =>
    obtain ⟨-, w, -, rfl⟩ := tick_ok ht
    have hc : b.machine.command? = Option.none := by
      unfold Machine.command?
      rw [(hticks.fit hs).machine.program]
      rfl
    rw [after_of_none hc]
    exact ih

/-! ## Keeping no entries -/

def untraced (s : Session σ) : Session σ := { s with entries := #[] }

theorem tick_untraced (s : Session σ) :
    tick d o.untraced s.untraced = Moo.viewed untraced (tick d o s) := by
  obtain ⟨m, device, steps, entries, refusals⟩ := s
  unfold tick untraced
  dsimp only
  rw [show o.untraced.exhaustedAt steps = o.exhaustedAt steps from rfl]
  cases o.exhaustedAt steps with
  | true => rfl
  | false =>
    cases m.command? with
    | none => cases stepOnce d m device <;> rfl
    | some c => cases stepOnce d m device <;> rfl

theorem Ticks.untraced (h : Ticks d o s₀ n s) : Ticks d o.untraced s₀.untraced n s.untraced := by
  induction h with
  | none => exact .none
  | @snoc n b c _ hf ht ih =>
    refine ih.snoc hf ?_
    rw [tick_untraced, ht]
    rfl

end Session

end Moo.Run
