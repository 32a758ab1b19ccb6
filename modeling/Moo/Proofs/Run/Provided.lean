import Moo.Device.Provider
import Moo.Proofs.Command.Catalogue
import Moo.Proofs.Device.Reliable
import Moo.Proofs.Device.Typed
import Moo.Proofs.Machine.Failure
import Moo.Proofs.Machine.Loading
import Moo.Proofs.Run.Limit

/-!
# Runs on providers

A provider takes every value that machines write and fails a read only when its input is used up,
and what it runs out of tells a buffer from a console. So a program of the language that has cells
to run on comes to an end, runs out of input, or exceeds its step limit (`Job.runWithin_expected`),
and under a limit it does one of these (`Job.run_ends`).
-/

namespace Moo

variable {σ α : Type}

structure Device.Preserves (d : Device σ) (P : σ → Prop) : Prop where
  read : ∀ channel s, P s → P (leftIn (d.read channel s))
  write : ∀ channel value s, P s → P (leftIn (d.write channel value s))

namespace Device.Preserves

variable {d : Device σ} {P : σ → Prop}

theorem recording (h : d.Preserves P) : d.recording.Preserves fun s => P s.1 where
  read channel s hs := by
    have hread := h.read channel s.1 hs
    unfold Device.recording
    cases hd : d.read channel s.1 <;> rw [hd] at hread <;> simp only [hd] <;> exact hread
  write channel value s hs := by
    have hwrite := h.write channel value s.1 hs
    unfold Device.recording
    cases hd : d.write channel value s.1 <;> rw [hd] at hwrite <;> simp only [hd] <;> exact hwrite

theorem layered (h : d.Preserves P) : (Layered.device d).Preserves fun s => P s.base where
  read channel s hs := by
    obtain ⟨layers, base, calls⟩ := s
    have hread := h.read channel base hs
    show P (leftIn (Layered.read d channel ⟨layers, base, calls⟩)).base
    unfold Layered.read
    cases ha : Layer.answerThrough? channel layers with
    | some found =>
      simp only [ha]
      exact hs
    | none =>
      cases hd : d.read channel base <;> rw [hd] at hread <;> simp only [ha, hd] <;> exact hread
  write channel value s hs := by
    obtain ⟨layers, base, calls⟩ := s
    have hwrite := h.write channel value base hs
    show P (leftIn (Layered.write d channel value ⟨layers, base, calls⟩)).base
    unfold Layered.write
    dsimp only
    split
    · exact hs
    · cases hd : d.write channel value base <;> rw [hd] at hwrite <;> exact hwrite

end Device.Preserves

/-- The device keeps the property, and with it takes the values that machines write and fails a read
only for lack of one of these supplies. -/
structure Device.Exhaustible (d : Device σ) (P : σ → Prop) (lacks : Supply → Prop) : Prop where
  keeps : d.Preserves P
  read : ∀ {channel s e s'}, P s → d.read channel s = .error e s' →
    ∃ supply, lacks supply ∧ e = .exhausted supply
  write : ∀ {channel value} s, P s → channel.Carries value →
    ∃ s', d.write channel value s = .ok () s'

namespace Device.Exhaustible

variable {d : Device σ} {P : σ → Prop} {lacks : Supply → Prop} {s s' : σ} {e : Fault}

theorem recording (h : d.Exhaustible P lacks) :
    d.recording.Exhaustible (fun s => P s.1) lacks where
  keeps := h.keeps.recording
  read {channel s e s'} hs hr := by
    unfold Device.recording at hr
    cases hd : d.read channel s.1 with
    | ok n s₁ =>
      simp only [hd] at hr
      cases hr
    | error e₁ s₁ =>
      simp only [hd] at hr
      cases hr
      exact h.read hs hd
  write {channel value} s hs hv := by
    obtain ⟨s₁, hw⟩ := h.write s.1 hs hv
    exact ⟨_, by simp only [Device.recording, hw]; rfl⟩

/-- A turn that writes what machines write fails only for lack of input. -/
theorem on (h : d.Exhaustible P lacks) {x : Turn α} (hx : x.Servable) (hs : P s)
    (hon : x.on d s = .error e s') : ∃ supply, lacks supply ∧ e = .exhausted supply := by
  cases x with
  | quiet a => cases hon
  | reads channel next => exact h.read hs (Turn.read_of_on_error hon)
  | writes channel value a =>
    obtain ⟨s₁, hw⟩ := h.write s hs hx
    rw [Turn.write_of_on_error hon] at hw
    cases hw
  | fails e => exact hx.elim

theorem layered (h : d.Exhaustible P lacks) :
    (Layered.device d).Exhaustible (fun s => P s.base) lacks where
  keeps := h.keeps.layered
  read {channel s e s'} hs hr := by
    obtain ⟨layers, base, calls⟩ := s
    show ∃ supply, lacks supply ∧ e = _
    change Layered.read d channel ⟨layers, base, calls⟩ = _ at hr
    unfold Layered.read at hr
    cases ha : Layer.answerThrough? channel layers with
    | some found =>
      simp only [ha] at hr
      cases hr
    | none =>
      simp only [ha] at hr
      cases hd : d.read channel base with
      | ok n base' =>
        simp only [hd] at hr
        cases hr
      | error e₁ base' =>
        simp only [hd] at hr
        cases hr
        exact h.read hs hd
  write {channel value} s hs hv := by
    obtain ⟨layers, base, calls⟩ := s
    obtain ⟨base', hw⟩ := h.write base hs hv
    show ∃ s', Layered.write d channel value ⟨layers, base, calls⟩ = .ok () s'
    unfold Layered.write
    dsimp only
    split
    · exact ⟨_, rfl⟩
    · simp only [hw]
      exact ⟨_, rfl⟩

end Device.Exhaustible

namespace Endpoint

def IsBuffer (e : Endpoint) : Prop := ∃ b, e = .buffer b

def IsConsole (e : Endpoint) : Prop := ∃ c, e = .console c

theorem preserves_isBuffer : device.Preserves IsBuffer where
  read := by
    rintro channel _ ⟨b, rfl⟩
    show ∃ b', leftIn (Endpoint.read channel (.buffer b)) = .buffer b'
    unfold Endpoint.read
    cases hb : Buffer.read channel b <;> simp only [hb] <;> exact ⟨_, rfl⟩
  write := by
    rintro channel value _ ⟨b, rfl⟩
    exact ⟨_, rfl⟩

theorem preserves_isConsole : device.Preserves IsConsole where
  read := by
    rintro channel _ ⟨c, rfl⟩
    show ∃ c', leftIn (Endpoint.read channel (.console c)) = .console c'
    unfold Endpoint.read
    cases hc : Console.read channel c <;> simp only [hc] <;> exact ⟨_, rfl⟩
  write := by
    rintro channel value _ ⟨c, rfl⟩
    show ∃ c', leftIn (Endpoint.write channel value (.console c)) = .console c'
    unfold Endpoint.write
    cases hc : Console.write channel value c <;> simp only [hc] <;> exact ⟨_, rfl⟩

theorem buffer_exhaustible : device.Exhaustible IsBuffer (· ≠ .console) where
  keeps := preserves_isBuffer
  read := by
    rintro channel _ e s' ⟨b, rfl⟩ hr
    change Endpoint.read channel (.buffer b) = _ at hr
    unfold Endpoint.read at hr
    cases channel with
    | char =>
      cases hc : b.chars with
      | nil =>
        simp only [Buffer.read, hc] at hr
        cases hr
        exact ⟨.character, nofun, rfl⟩
      | cons c rest =>
        simp only [Buffer.read, hc] at hr
        cases hr
    | byte =>
      cases hn : b.numbers with
      | nil =>
        simp only [Buffer.read, hn] at hr
        cases hr
        exact ⟨.integer, nofun, rfl⟩
      | cons n rest =>
        simp only [Buffer.read, hn] at hr
        cases hr
  write := by
    rintro channel value _ ⟨b, rfl⟩ -
    exact ⟨_, rfl⟩

theorem console_exhaustible : device.Exhaustible IsConsole (· = .console) where
  keeps := preserves_isConsole
  read := by
    rintro channel _ e s' ⟨c, rfl⟩ hr
    change Endpoint.read channel (.console c) = _ at hr
    unfold Endpoint.read at hr
    cases ha : Console.ask channel c.lines c.prompts with
    | mk found left =>
      obtain ⟨left, shown⟩ := left
      cases found with
      | some n =>
        simp only [Console.read_of_some ha] at hr
        cases hr
      | none =>
        simp only [Console.read_of_none ha] at hr
        cases hr
        exact ⟨.console, rfl, rfl⟩
  write := by
    rintro channel value _ ⟨c, rfl⟩ hv
    obtain ⟨shown, ht⟩ := hv.text
    show ∃ s', Endpoint.write channel value (.console c) = .ok () s'
    have hw := Console.write_shown ht c.lines c.outs c.prompts
    rw [Console.device_write] at hw
    unfold Endpoint.write
    simp only [hw]
    exact ⟨_, rfl⟩

end Endpoint

namespace Provider

/-- A provider on a buffer fails only for lack of characters or numbers. -/
theorem buffer_exhaustible : device.Exhaustible (fun p => p.base.IsBuffer) (· ≠ .console) :=
  Endpoint.buffer_exhaustible.layered

theorem console_exhaustible : device.Exhaustible (fun p => p.base.IsConsole) (· = .console) :=
  Endpoint.console_exhaustible.layered

end Provider

namespace Run

def Outcome.device : Outcome σ → σ
  | .finished r => r.device
  | .failed _ device => device
  | .unfinished device => device

def Session.Progress.session : Session.Progress σ → Session σ
  | .finished s => s
  | .failed _ s => s
  | .running s => s

variable {d : Device σ} {P : σ → Prop} {o : Options}

theorem Session.stepOnce_keeps (h : d.Preserves P) (m : Machine) {device : σ × Array Output}
    (hs : P device.1) : P (leftIn (stepOnce d m device)).device.1 := by
  have hon := m.turn.on_keeps h.recording.read h.recording.write hs
  rw [stepOnce_eq]
  cases hx : m.turn.on d.recording device <;> rw [hx] at hon <;> exact hon

theorem Session.tick_keeps (h : d.Preserves P) (o : Options) {s : Session σ} (hs : P s.device.1) :
    P (leftIn (tick d o s)).device.1 := by
  have hstep := stepOnce_keeps h s.machine hs
  cases hx : o.exhaustedAt s.steps with
  | true =>
    rw [tick_of_exhausted hx]
    exact hs
  | false =>
    cases hw : stepOnce d s.machine s.device with
    | ok u w =>
      rw [hw] at hstep
      rw [tick_of_ok hx hw]
      show P (s.after o w).device.1
      rw [after_device]
      exact hstep
    | error e w =>
      rw [hw] at hstep
      obtain ⟨steps, ht⟩ := tick_of_error hx hw
      rw [ht]
      exact hstep

theorem Session.run_keeps (h : d.Preserves P) (budget : Nat) {s : Session σ} (hs : P s.device.1) :
    P (run d o budget s).session.device.1 := by
  induction budget generalizing s with
  | zero =>
    cases hf : s.machine.finished with
    | true => rwa [run_of_finished hf]
    | false => rwa [run_zero hf]
  | succ budget ih =>
    have htick := tick_keeps h o hs
    cases hf : s.machine.finished with
    | true => rwa [run_of_finished hf]
    | false =>
      cases ht : tick d o s with
      | ok u s₁ =>
        rw [ht] at htick
        rw [run_of_tick hf ht]
        exact ih htick
      | error e s₁ =>
        rw [ht] at htick
        rw [run_of_error hf ht]
        exact htick

/-- What the device keeps whatever it is asked, it keeps through a run. -/
theorem Job.runWithin_keeps (h : d.Preserves P) (j : Job) (budget : Nat) (buffered : Bool)
    {device : σ} (hs : P device) : P (j.runWithin budget d buffered device).device := by
  cases hm : Machine.load j.catalogue (j.catalogue.program j.text) j.options.memorySize with
  | error e =>
    rw [runWithin_of_error hm]
    exact hs
  | ok m =>
    have hrun := Session.run_keeps (o := j.options) h budget (s := .start m device) hs
    rw [runWithin_of_load hm]
    cases hp : (Session.start m device).run d j.options budget with
    | finished s =>
      rw [hp] at hrun
      unfold conclude
      dsimp only
      cases j.summary buffered s <;> exact hrun
    | failed failure s =>
      rw [hp] at hrun
      exact hrun
    | running s =>
      rw [hp] at hrun
      exact hrun

/-- What stops a run before its end: one of these supplies was used up, or the steps that the limit
allows were. -/
inductive Failure.Expected (lacks : Supply → Prop) : Failure → Prop where
  | exhausted {supply : Supply} : lacks supply → Expected lacks (.fault (.exhausted supply))
  | stepLimit (limit : Int) : Expected lacks (.stepLimit limit)

variable {lacks : Supply → Prop} {failure : Failure}

namespace Session

variable {s s' : Session σ} {t : Catalogue} {program : List Command} {memorySize : Int}

theorem tick_expected (hd : d.Exhaustible P lacks) (ht : t.SoleRunner)
    (hp : ∀ c ∈ program, t.at? c.id = some c) (h : s.Fit t program memorySize) (hs : P s.device.1)
    (he : tick d o s = .error failure s') : failure.Expected lacks := by
  cases hx : o.exhaustedAt s.steps with
  | true =>
    cases (tick_of_exhausted hx).symm.trans he
    exact .stepLimit _
  | false =>
    cases hw : stepOnce d s.machine s.device with
    | ok u w => cases (tick_of_ok hx hw).symm.trans he
    | error e w =>
      obtain ⟨steps, hfail⟩ := tick_of_error hx hw
      cases hfail.symm.trans he
      rw [stepOnce_eq] at hw
      cases hon : s.machine.turn.on d.recording s.device with
      | ok x device =>
        rw [hon] at hw
        cases hw
      | error e' device =>
        rw [hon] at hw
        cases hw
        obtain ⟨supply, hlacks, rfl⟩ := hd.recording.on (h.machine.servable ht hp) hs hon
        exact .exhausted hlacks

theorem run_expected (hd : d.Exhaustible P lacks) (ht : t.SoleRunner)
    (hp : ∀ c ∈ program, t.at? c.id = some c) {budget : Nat} (h : s.Fit t program memorySize)
    (hs : P s.device.1) (hr : run d o budget s = .failed failure s') : failure.Expected lacks := by
  induction budget generalizing s with
  | zero =>
    cases hf : s.machine.finished with
    | true => cases (run_of_finished hf 0).symm.trans hr
    | false => cases (run_zero hf).symm.trans hr
  | succ budget ih =>
    cases hf : s.machine.finished with
    | true => cases (run_of_finished hf _).symm.trans hr
    | false =>
      cases htick : tick d o s with
      | ok u s₁ =>
        have hkeeps := tick_keeps hd.keeps o hs
        rw [htick] at hkeeps
        exact ih (h.tick htick) hkeeps ((run_of_tick hf htick).symm.trans hr)
      | error e s₁ =>
        cases (run_of_error hf htick).symm.trans hr
        exact tick_expected hd ht hp h hs htick

end Session

namespace Job

variable {j : Job} {buffered : Bool} {budget : Nat} {device device' : σ}

/-- A program of the language that has cells is stopped only by its input or its limit. -/
theorem runWithin_expected (hd : d.Exhaustible P lacks) (ht : j.catalogue.SoleRunner)
    (hsize : 1 ≤ j.options.memorySize) (hs : P device)
    (h : j.runWithin budget d buffered device = .failed failure device') :
    failure.Expected lacks := by
  obtain ⟨m, hm⟩ := Machine.exists_load j.catalogue j.text hsize
  have hstart := Session.Fit.of_start (Machine.Intact.of_load hm) device
  rw [runWithin_of_load hm] at h
  cases hrun : (Session.start m device).run d j.options budget with
  | finished s =>
    obtain ⟨shown, hshown⟩ := (Session.run_fit hstart hrun).render
    rw [hrun, conclude_finished hshown] at h
    cases h
  | failed e s =>
    rw [hrun] at h
    cases h
    exact Session.run_expected hd ht (fun _ hc => Catalogue.at?_of_mem_program hc) hstart hs hrun
  | running s =>
    rw [hrun] at h
    cases h

theorem run_ends {limit patience : Nat} (hsize : 1 ≤ j.options.memorySize)
    (hlimit : j.options.maxSteps = some (limit : Int)) :
    j.run patience d buffered device ≠ .unfinished device' := by
  obtain ⟨m, hm⟩ := Machine.exists_load j.catalogue j.text hsize
  have hj : j = j.limited (some limit) := by
    unfold limited
    rw [← hlimit]
  intro h
  rw [hj] at h
  obtain ⟨v, hv, hf⟩ | ⟨n, v, hn, hv⟩ | ⟨n, e, v, hn, hv⟩ :=
    (Host.silent d).steps_or_stops ⟨m, device, ()⟩ limit
  · rw [limited_of_steps hm hv hf] at h
    cases h
  · obtain ⟨r, -, -, -, hr⟩ := limited_of_ends buffered hm hv
    rw [hr limit hn] at h
    cases h
  · rw [limited_of_fails hm hv hn] at h
    cases h

end Job

end Run

end Moo
