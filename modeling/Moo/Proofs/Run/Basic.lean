import Moo.Proofs.Device.Output
import Moo.Proofs.Run.Session
import Moo.Run.Basic

/-!
# Runs that end

A run that ends has loaded the program, come to the end of a session and summed it up
(`Job.runWithin_finished`). Since machines write nothing that cannot be shown, summing up never
fails.
-/

namespace Moo.Run

variable {σ : Type}

theorem Session.Fit.render {t : Catalogue} {program : List Command} {memorySize : Int}
    {s : Session σ} (h : s.Fit t program memorySize) :
    ∃ shown, Output.render s.device.2.toList = .ok shown :=
  Output.render_of_carries fun o ho => h.output o (Array.mem_toList_iff.mp ho)

namespace Job

variable {j : Job} {s : Session σ} {buffered : Bool}

def summaryWith (j : Job) (stdout : Option String) (s : Session σ) : Summary where
  tokens := (Token.ofText j.text).length
  commands := s.machine.program.size
  steps := s.steps
  snapshot := s.machine.snapshot
  output := s.device.2.toList
  stdout
  refusals := s.refusals.toList

theorem summary_eq {shown : String} (h : Output.render s.device.2.toList = .ok shown) :
    j.summary buffered s =
      .ok (j.summaryWith (if buffered then some shown else none) s) := by
  unfold summary
  cases buffered with
  | false => rfl
  | true =>
    simp only [if_true, h]
    rfl

theorem runWithin_of_error {e : LoadError}
    (h : Machine.load j.catalogue (j.catalogue.program j.text) j.options.memorySize = .error e)
    (budget : Nat) (d : Device σ) (device : σ) :
    j.runWithin budget d buffered device = .failed (.load e) device := by
  unfold runWithin
  rw [h]

theorem runWithin_of_load {m : Machine}
    (h : Machine.load j.catalogue (j.catalogue.program j.text) j.options.memorySize = .ok m)
    (budget : Nat) (d : Device σ) (device : σ) :
    j.runWithin budget d buffered device =
      j.conclude buffered ((Session.start m device).run d j.options budget) := by
  unfold runWithin
  rw [h]

def result (j : Job) (stdout : Option String) (s : Session σ) : Result σ :=
  ⟨s.machine, s.device.1, .ofSummary j.heading (j.summaryWith stdout s) s.entries.toList⟩

theorem conclude_finished {shown : String} (h : Output.render s.device.2.toList = .ok shown) :
    j.conclude buffered (.finished s) =
      .finished (j.result (if buffered then some shown else none) s) := by
  unfold conclude
  simp only [summary_eq h]
  rfl

theorem runWithin_finished {budget : Nat} {d : Device σ} {device : σ} {r : Result σ}
    (h : j.runWithin budget d buffered device = .finished r) :
    ∃ m s shown,
      Machine.load j.catalogue (j.catalogue.program j.text) j.options.memorySize = .ok m ∧
      (Session.start m device).run d j.options budget = .finished s ∧
      Output.render s.device.2.toList = .ok shown ∧
      r = j.result (if buffered then some shown else none) s := by
  cases hm : Machine.load j.catalogue (j.catalogue.program j.text) j.options.memorySize with
  | error e =>
    rw [runWithin_of_error hm] at h
    cases h
  | ok m =>
    rw [runWithin_of_load hm] at h
    cases hs : (Session.start m device).run d j.options budget with
    | finished s =>
      have hfit := Session.run_fit (Session.Fit.of_start (Machine.Intact.of_load hm) device) hs
      obtain ⟨shown, hshown⟩ := hfit.render
      rw [hs, conclude_finished hshown] at h
      cases h
      exact ⟨m, s, shown, rfl, hs, hshown, rfl⟩
    | failed failure s =>
      rw [hs] at h
      cases h
    | running s =>
      rw [hs] at h
      cases h

end Job

end Moo.Run
