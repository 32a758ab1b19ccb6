import Moo.Proofs.Device.View
import Moo.Proofs.Run.Basic

/-!
# Runs on devices that look alike

A run on a device and a run on a view of it come out alike: same machine, same receipt, and the one
device as the other is seen (`Job.runWithin_viewed`). So a run is not changed by a journal in front
of its device, and the output that it reports is what the journal says was written.
-/

namespace Moo.Run

variable {σ τ : Type} {π : τ → σ} {d : Device τ} {d₀ : Device σ} {o : Options}

/-! ## Sessions -/

namespace Session

def viewed (π : τ → σ) (s : Session τ) : Session σ :=
  ⟨s.machine, (π s.device.1, s.device.2), s.steps, s.entries, s.refusals⟩

def Progress.viewed (π : τ → σ) : Progress τ → Progress σ
  | .finished s => .finished (s.viewed π)
  | .failed failure s => .failed failure (s.viewed π)
  | .running s => .running (s.viewed π)

theorem stepOnce_eq (d : Device σ) (m : Machine) (device : σ × Array Output) :
    stepOnce d m device =
      match m.turn.on d.recording device with
      | .ok shift device => .ok () ⟨shift.1, device, shift.2.toArray⟩
      | .error e device => .error e ⟨m, device, #[]⟩ := by
  unfold stepOnce
  rw [Host.observed_step]
  cases m.turn.on d.recording device <;> rfl

theorem tick_turn {s s' : Session σ} {d : Device σ} (ht : tick d o s = .ok () s') :
    o.exhaustedAt s.steps = false ∧ ∃ shift device,
      s.machine.turn.on d.recording s.device = .ok shift device ∧
        s' = s.after o ⟨shift.1, device, shift.2.toArray⟩ := by
  obtain ⟨hx, w, hw, rfl⟩ := tick_ok ht
  rw [stepOnce_eq] at hw
  cases hon : s.machine.turn.on d.recording s.device with
  | ok shift device =>
    rw [hon] at hw
    cases hw
    exact ⟨hx, shift, device, rfl, rfl⟩
  | error e device =>
    rw [hon] at hw
    cases hw

theorem stepOnce_viewed (h : d.View π d₀) (m : Machine) (device : τ × Array Output) :
    stepOnce d₀ m (π device.1, device.2) =
      Moo.viewed (fun w => ⟨w.machine, (π w.device.1, w.device.2), w.audience⟩)
        (stepOnce d m device) := by
  rw [stepOnce_eq, stepOnce_eq, h.recording.on m.turn device]
  cases m.turn.on d.recording device <;> rfl

theorem tick_viewed (h : d.View π d₀) (s : Session τ) :
    tick d₀ o (s.viewed π) = Moo.viewed (Session.viewed π) (tick d o s) := by
  obtain ⟨m, device, steps, entries, refusals⟩ := s
  unfold tick viewed
  dsimp only
  rw [stepOnce_viewed h]
  cases hx : o.exhaustedAt steps with
  | true => rfl
  | false =>
    cases m.command? with
    | none => cases stepOnce d m device <;> rfl
    | some c => cases stepOnce d m device <;> rfl

def Progress.map (f : Session τ → Session σ) : Progress τ → Progress σ
  | .finished s => .finished (f s)
  | .failed failure s => .failed failure (f s)
  | .running s => .running (f s)

/-- What ticks commute with, runs commute with, if it keeps whether the machine has ended. -/
theorem run_map {f : Session τ → Session σ} {o₀ : Options}
    (hfinished : ∀ s, (f s).machine.finished = s.machine.finished)
    (htick : ∀ s, tick d₀ o₀ (f s) = Moo.viewed f (tick d o s)) (budget : Nat) (s : Session τ) :
    run d₀ o₀ budget (f s) = (run d o budget s).map f := by
  induction budget generalizing s with
  | zero =>
    cases hf : s.machine.finished with
    | true =>
      rw [run_of_finished hf, run_of_finished ((hfinished s).trans hf)]
      rfl
    | false =>
      rw [run_zero hf, run_zero ((hfinished s).trans hf)]
      rfl
  | succ budget ih =>
    cases hf : s.machine.finished with
    | true =>
      rw [run_of_finished hf, run_of_finished ((hfinished s).trans hf)]
      rfl
    | false =>
      have hs := htick s
      cases ht : tick d o s with
      | ok u s' =>
        rw [ht] at hs
        rw [run_of_tick hf ht, run_of_tick ((hfinished s).trans hf) hs]
        exact ih s'
      | error e s' =>
        rw [ht] at hs
        rw [run_of_error hf ht, run_of_error ((hfinished s).trans hf) hs]
        rfl

theorem run_viewed (h : d.View π d₀) (budget : Nat) (s : Session τ) :
    run d₀ o budget (s.viewed π) = (run d o budget s).viewed π := by
  rw [run_map (f := Session.viewed π) (fun _ => rfl) (tick_viewed h)]
  cases run d o budget s <;> rfl

end Session

/-! ## Runs -/

def Outcome.viewed (π : τ → σ) : Outcome τ → Outcome σ
  | .finished r => .finished ⟨r.machine, π r.device, r.receipt⟩
  | .failed failure device => .failed failure (π device)
  | .unfinished device => .unfinished (π device)

namespace Job

variable {j : Job} {buffered : Bool}

theorem conclude_viewed (p : Session.Progress τ) :
    j.conclude buffered (p.viewed π) = (j.conclude buffered p).viewed π := by
  cases p with
  | finished s =>
    have hsummary : j.summary buffered (s.viewed π) = j.summary buffered s := rfl
    simp only [Session.Progress.viewed, conclude, hsummary]
    cases j.summary buffered s <;> rfl
  | failed failure s => rfl
  | running s => rfl

theorem runWithin_viewed (h : d.View π d₀) (budget : Nat) (device : τ) :
    j.runWithin budget d₀ buffered (π device) = (j.runWithin budget d buffered device).viewed π := by
  cases hm : Machine.load j.catalogue (j.catalogue.program j.text) j.options.memorySize with
  | error e =>
    rw [runWithin_of_error hm, runWithin_of_error hm]
    rfl
  | ok m =>
    rw [runWithin_of_load hm, runWithin_of_load hm, ← conclude_viewed, ← Session.run_viewed h]
    rfl

end Job

/-! ## Journals of runs -/

/-- A tick adds to the output just what it adds to the writes of the journal. -/
theorem Session.tick_tallied {d : Device σ} {s s' : Session (σ × Array Transfer)}
    (hs : Tallied s.device) (ht : tick d.journaled o s = .ok () s') : Tallied s'.device := by
  obtain ⟨-, shift, device, hon, rfl⟩ := tick_turn ht
  have hkeep := Tallied.on d s.machine.turn hs
  rw [hon] at hkeep
  rw [after_device]
  exact hkeep

/-- The output of a session on a device with a journal is the writes of the journal. -/
theorem Session.run_tallied {d : Device σ} {budget : Nat} {s s' : Session (σ × Array Transfer)}
    (hs : Tallied s.device) (h : run d.journaled o budget s = .finished s') :
    Tallied s'.device := by
  obtain ⟨n, -, hticks, -⟩ := ticks_of_run h
  clear h
  induction hticks with
  | none => exact hs
  | snoc _ _ ht ih => exact tick_tallied ih ht

/-- A run that ends does so too with a journal in front of its device, and its output is the writes
of the journal. -/
theorem Job.runWithin_journaled {d : Device σ} {j : Job} {buffered : Bool} {budget : Nat}
    {device : σ} {r : Result σ} (h : j.runWithin budget d buffered device = .finished r) :
    ∃ journal,
      j.runWithin budget d.journaled buffered (device, #[]) =
        .finished ⟨r.machine, (r.device, journal), r.receipt⟩ ∧
      ∀ summary, r.receipt.verdict = .finished summary →
        summary.output = Transfer.outputs journal.toList := by
  have hv : j.runWithin budget d buffered device =
      (j.runWithin budget d.journaled buffered (device, #[])).viewed Prod.fst :=
    Job.runWithin_viewed (Device.View.journaled d) budget (device, #[])
  rw [h] at hv
  cases hj : j.runWithin budget d.journaled buffered (device, #[]) with
  | finished r' =>
    rw [hj] at hv
    cases hv
    refine ⟨r'.device.2, rfl, ?_⟩
    obtain ⟨m, s, shown, hm, hs, -, rfl⟩ := Job.runWithin_finished hj
    have hstart : Tallied (Session.start m (device, #[])).device := rfl
    have htallied := Session.run_tallied hstart hs
    intro summary hsummary
    cases hsummary
    exact htallied
  | failed failure device =>
    rw [hj] at hv
    cases hv
  | unfinished device =>
    rw [hj] at hv
    cases hv

end Moo.Run
