import Moo.Proofs.Machine.Keeps
import Moo.Run.Session

/-!
# Sessions step by step

What one tick makes of a session (`Session.tick_of_ok` and its companions), and what holds of a
session as long as it runs: its machine is intact, it has recorded bytes only, its refusals have the
reasons of the language, and its entries are numbered from one (`Session.Fit`). `Session.run_fit`
carries this to the end of a run.
-/

namespace Moo.Run

open Act

variable {σ : Type} {t : Catalogue} {program : List Command} {memorySize : Int}

/-! ## Worlds that are observed -/

/-- A machine that is intact, a device that was asked to write bytes, and an audience that heard
what machines announce. -/
structure Observed (t : Catalogue) (program : List Command) (memorySize : Int)
    (w : World (σ × Array Output) (Array Event)) : Prop where
  machine : w.machine.Intact t program memorySize
  output : ∀ o ∈ w.device.2, o.channel.Carries o.value
  events : ∀ e ∈ w.audience, e.Plain

namespace Observed

variable {d : Device σ}

theorem read (channel : Channel) : Keeps (Observed t program memorySize)
    (useDevice (d.recording.read channel) : Act (σ × Array Output) (Array Event) Int) := by
  intro w h
  unfold final
  rw [useDevice_apply]
  unfold Device.recording
  cases hr : d.read channel w.device.1 with
  | ok n s =>
    simp only [hr]
    exact ⟨h.machine, h.output, h.events⟩
  | error e s =>
    simp only [hr]
    exact ⟨h.machine, h.output, h.events⟩

theorem write (channel : Channel) (value : Int) (hv : channel.Carries value) :
    Keeps (Observed t program memorySize)
      (useDevice (d.recording.write channel value) : Act (σ × Array Output) (Array Event) Unit) := by
  intro w h
  have hout : ∀ o ∈ w.device.2.push ⟨channel, value⟩, o.channel.Carries o.value := by
    intro o ho
    rcases Array.mem_push.mp ho with ho | rfl
    · exact h.output o ho
    · exact hv
  unfold final
  rw [useDevice_apply]
  unfold Device.recording
  cases hr : d.write channel value w.device.1 with
  | ok u s =>
    simp only [hr]
    exact ⟨h.machine, hout, h.events⟩
  | error e s =>
    simp only [hr]
    exact ⟨h.machine, hout, h.events⟩

theorem admits (d : Device σ) :
    (Host.observed d.recording).Admits (Observed t program memorySize) where
  sound _ hw := hw.machine.toSound
  change _ _ hw hm := ⟨hm.intact hw.machine, hw.output, hw.events⟩
  read := read
  write := write
  announce e he := by
    intro w hw
    refine ⟨hw.machine, hw.output, fun e' he' => ?_⟩
    rcases Array.mem_push.mp he' with he' | rfl
    · exact hw.events e' he'
    · exact he

theorem step (d : Device σ) :
    Keeps (Observed t program memorySize) (Host.observed d.recording).step :=
  (admits d).step fun _ hw => ⟨Machine.advance_intact hw.machine, hw.output, hw.events⟩

end Observed

/-! ## Ticks -/

namespace Session

variable {d : Device σ} {o : Options} {s s₀ s' : Session σ} {n : Nat}

def after (s : Session σ) (o : Options) (w : World (σ × Array Output) (Array Event)) : Session σ :=
  match s.machine.command? with
  | none => { s with machine := w.machine, device := w.device }
  | some c =>
    { machine := w.machine
      device := w.device
      steps := s.steps + 1
      entries :=
        if o.trace then
          s.entries.push { entryBefore s.machine c (s.steps + 1) with events := w.audience.toList }
        else s.entries
      refusals := s.refusals ++ refusalsOf w.audience.toList }

theorem after_machine (w : World (σ × Array Output) (Array Event)) :
    (s.after o w).machine = w.machine := by
  unfold after
  split <;> rfl

theorem after_device (w : World (σ × Array Output) (Array Event)) :
    (s.after o w).device = w.device := by
  unfold after
  split <;> rfl

theorem after_of_none (hc : s.machine.command? = none)
    (w : World (σ × Array Output) (Array Event)) :
    s.after o w = { s with machine := w.machine, device := w.device } := by
  unfold after
  rw [hc]

theorem after_of_some {c : Command} (hc : s.machine.command? = some c)
    (w : World (σ × Array Output) (Array Event)) :
    s.after o w =
      { machine := w.machine
        device := w.device
        steps := s.steps + 1
        entries :=
          if o.trace then
            s.entries.push { entryBefore s.machine c (s.steps + 1) with events := w.audience.toList }
          else s.entries
        refusals := s.refusals ++ refusalsOf w.audience.toList } := by
  unfold after
  rw [hc]

theorem tick_of_exhausted (h : o.exhaustedAt s.steps = true) :
    tick d o s = .error (.stepLimit (o.maxSteps.getD 0)) s := by
  unfold tick
  simp only [h, if_true]

theorem tick_of_ok (h : o.exhaustedAt s.steps = false) {w : World (σ × Array Output) (Array Event)}
    (hw : stepOnce d s.machine s.device = .ok () w) : tick d o s = .ok () (s.after o w) := by
  unfold tick after
  simp only [h, hw]
  cases s.machine.command? <;> rfl

theorem tick_of_error (h : o.exhaustedAt s.steps = false)
    {w : World (σ × Array Output) (Array Event)} {e : Fault}
    (hw : stepOnce d s.machine s.device = .error e w) :
    ∃ steps, tick d o s =
      .error (.fault e) ⟨w.machine, w.device, steps, s.entries, s.refusals⟩ := by
  unfold tick
  simp only [h, hw]
  cases s.machine.command? with
  | none => exact ⟨_, rfl⟩
  | some c => exact ⟨_, rfl⟩

theorem tick_ok (h : tick d o s = .ok () s') :
    o.exhaustedAt s.steps = false ∧
      ∃ w, stepOnce d s.machine s.device = .ok () w ∧ s' = s.after o w := by
  cases hx : o.exhaustedAt s.steps with
  | true =>
    rw [tick_of_exhausted hx] at h
    cases h
  | false =>
    cases hw : stepOnce d s.machine s.device with
    | ok u w =>
      rw [tick_of_ok hx hw] at h
      cases h
      exact ⟨rfl, w, rfl, rfl⟩
    | error e w =>
      obtain ⟨steps, he⟩ := tick_of_error hx hw
      rw [he] at h
      cases h

/-! ## Runs -/

theorem run_of_finished (hf : s.machine.finished = true) (budget : Nat) :
    run d o budget s = .finished s := by
  cases budget with
  | zero => exact if_pos hf
  | succ n => exact if_pos hf

theorem run_of_tick {budget : Nat} (hf : s.machine.finished = false) (ht : tick d o s = .ok () s') :
    run d o (budget + 1) s = run d o budget s' := by
  rw [run, hf, ht]
  rfl

theorem run_of_error {budget : Nat} {failure : Failure} (hf : s.machine.finished = false)
    (ht : tick d o s = .error failure s') : run d o (budget + 1) s = .failed failure s' := by
  rw [run, hf, ht]
  rfl

theorem run_zero (hf : s.machine.finished = false) : run d o 0 s = .running s := by
  rw [run, hf]
  rfl

inductive Ticks (d : Device σ) (o : Options) (s₀ : Session σ) : Nat → Session σ → Prop where
  | none : Ticks d o s₀ 0 s₀
  | snoc {n : Nat} {s s' : Session σ} :
      Ticks d o s₀ n s → s.machine.finished = false → tick d o s = .ok () s' →
      Ticks d o s₀ (n + 1) s'

theorem Ticks.run (h : Ticks d o s₀ n s) (budget : Nat) :
    run d o (n + budget) s₀ = run d o budget s := by
  induction h generalizing budget with
  | none => rw [Nat.zero_add]
  | snoc _ hf ht ih => rw [Nat.add_assoc, Nat.add_comm 1, ih, run_of_tick hf ht]

theorem Ticks.head {s₁ : Session σ} (hf : s₀.machine.finished = false)
    (ht : tick d o s₀ = .ok () s₁) (h : Ticks d o s₁ n s) : Ticks d o s₀ (n + 1) s := by
  induction h with
  | none => exact .snoc .none hf ht
  | snoc _ hf' ht' ih => exact ih.snoc hf' ht'

/-- A run that comes to an end has made some ticks, no more than its budget. -/
theorem ticks_of_run {budget : Nat} (h : Session.run d o budget s = .finished s') :
    ∃ n, n ≤ budget ∧ Ticks d o s n s' ∧ s'.machine.finished = true := by
  -- a run makes its first tick first, while ticks are counted from the start on
  induction budget generalizing s with
  | zero =>
    cases hf : s.machine.finished with
    | true =>
      rw [run_of_finished hf] at h
      cases h
      exact ⟨0, Nat.le_refl 0, .none, hf⟩
    | false =>
      rw [run_zero hf] at h
      cases h
  | succ budget ih =>
    cases hf : s.machine.finished with
    | true =>
      rw [run_of_finished hf] at h
      cases h
      exact ⟨0, Nat.zero_le _, .none, hf⟩
    | false =>
      cases ht : tick d o s with
      | ok u s₁ =>
        rw [run_of_tick hf ht] at h
        obtain ⟨n, hn, hticks, hend⟩ := ih h
        exact ⟨n + 1, Nat.succ_le_succ hn, hticks.head hf ht, hend⟩
      | error e s₁ =>
        rw [run_of_error hf ht] at h
        cases h

/-! ## What holds of a session -/

/-- The machine is intact, only bytes were recorded, refusals have the reasons of the language and
entries are numbered from one. -/
structure Fit (t : Catalogue) (program : List Command) (memorySize : Int) (s : Session σ) :
    Prop where
  machine : s.machine.Intact t program memorySize
  output : ∀ o ∈ s.device.2, o.channel.Carries o.value
  refusals : ∀ info ∈ s.refusals, info.Genuine
  entries : ∀ e ∈ s.entries, 1 ≤ e.step

theorem Fit.of_start {m : Machine} (hm : m.Intact t program memorySize) (device : σ) :
    Fit t program memorySize (start m device) where
  machine := hm
  output _ ho := absurd ho (Array.not_mem_empty _)
  refusals _ hi := absurd hi (Array.not_mem_empty _)
  entries _ he := absurd he (Array.not_mem_empty _)

theorem mem_refusalsOf {events : List Event} {info : BadEval} :
    info ∈ refusalsOf events ↔ Event.badEval info ∈ events := by
  unfold refusalsOf
  rw [List.mem_filterMap]
  constructor
  · rintro ⟨e, he, h⟩
    cases e <;> cases h
    exact he
  · intro h
    exact ⟨_, h, rfl⟩

/-- What a step leads to is observed, whatever the device answers. -/
theorem Fit.observed (h : s.Fit t program memorySize)
    {w : World (σ × Array Output) (Array Event)}
    (hw : stepOnce d s.machine s.device = .ok () w) : Observed t program memorySize w := by
  have hstart : Observed t program memorySize ⟨s.machine, s.device, #[]⟩ :=
    ⟨h.machine, h.output, fun e he => absurd he (Array.not_mem_empty _)⟩
  have hfinal := Observed.step d _ hstart
  rw [final_of_ok (show (Host.observed d.recording).step _ = _ from hw)] at hfinal
  exact hfinal

theorem Fit.after (h : s.Fit t program memorySize) {w : World (σ × Array Output) (Array Event)}
    (hw : Observed t program memorySize w) : (s.after o w).Fit t program memorySize := by
  cases hc : s.machine.command? with
  | none =>
    rw [after_of_none hc]
    exact ⟨hw.machine, hw.output, h.refusals, h.entries⟩
  | some c =>
    rw [after_of_some hc]
    refine ⟨hw.machine, hw.output, ?_, ?_⟩
    · intro info hi
      dsimp only at hi
      rw [← Array.mem_toList_iff, Array.toList_appendList, List.mem_append, Array.mem_toList_iff]
        at hi
      rcases hi with hi | hi
      · exact h.refusals info hi
      · exact hw.events (.badEval info) (Array.mem_toList_iff.mp (mem_refusalsOf.mp hi))
    · intro e he
      dsimp only at he
      split at he
      · rcases Array.mem_push.mp he with he | rfl
        · exact h.entries e he
        · show 1 ≤ s.steps + 1
          omega
      · exact h.entries e he

theorem Fit.tick (h : s.Fit t program memorySize) (ht : tick d o s = .ok () s') :
    s'.Fit t program memorySize := by
  obtain ⟨-, w, hw, rfl⟩ := tick_ok ht
  exact h.after (h.observed hw)

theorem Ticks.fit (h : Ticks d o s₀ n s) (hs : s₀.Fit t program memorySize) :
    s.Fit t program memorySize := by
  induction h with
  | none => exact hs
  | snoc _ _ ht ih => exact ih.tick ht

theorem run_fit {budget : Nat} (h : s.Fit t program memorySize)
    (hr : run d o budget s = .finished s') : s'.Fit t program memorySize := by
  obtain ⟨n, -, hticks, -⟩ := ticks_of_run hr
  exact hticks.fit h

end Session

end Moo.Run
