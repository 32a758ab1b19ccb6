import Moo.Cli.Settings
import Moo.Proofs.Number.Legible

/-!
# What settings are like

A command line that is read asks for at least one cell and one step, in numbers that have no more
digits than are read (`Settings.sized_of_arguments`).
-/

namespace Moo

theorem Except.mapM_option_ok {ε α β : Type} {f : α → Except ε β} {x : Option α} {y : Option β}
    (h : x.mapM f = .ok y) : ∀ b ∈ y, ∃ a, f a = .ok b := by
  cases x with
  | none =>
    cases h
    exact nofun
  | some a =>
    cases hf : f a with
    | error e => simp [hf, Functor.map, Except.map] at h
    | ok b =>
      simp only [Option.mapM_some, hf, Functor.map, Except.map, Except.ok.injEq] at h
      rintro c hc
      rw [← h] at hc
      cases hc
      exact ⟨a, hf⟩

namespace Cli.Settings

/-- The number of cells and the step limit are positive and have no more digits than are read. -/
structure Sized (s : Settings) : Prop where
  memorySize : ∀ n ∈ s.memorySize, 1 ≤ n ∧ Number.Legible n
  maxSteps : ∀ n ∈ s.maxSteps, 1 ≤ n ∧ Number.Legible n

theorem standard_sized : standard.Sized where
  memorySize n hn := by
    cases hn
    exact ⟨by decide, Number.legible_of_lt (k := 7) (by decide) (by decide)⟩
  maxSteps n hn := by
    cases hn
    exact ⟨by decide, Number.legible_of_lt (k := 7) (by decide) (by decide)⟩

theorem positive_ok {label value : String} {n : Int} (h : positive label value = .ok n) :
    1 ≤ n ∧ Number.Legible n := by
  unfold positive at h
  split at h
  · cases h
  · next hn =>
    split at h
    · cases h
    · cases h
      exact ⟨by omega, Number.decimalInteger?_legible hn⟩

variable {s t : Settings}

theorem setFlag_sized (h : s.Sized) (label : String) : (s.setFlag label).Sized := by
  unfold setFlag
  split <;> exact ⟨h.memorySize, h.maxSteps⟩

theorem setValue_sized (h : s.Sized) {label : String} {value : Option String}
    (hs : s.setValue label value = .ok t) : t.Sized := by
  unfold setValue at hs
  split at hs
  · cases hs
    exact ⟨h.memorySize, h.maxSteps⟩
  · cases hv : value.mapM (integer "--in") with
    | error e =>
      rw [hv] at hs
      cases hs
    | ok n =>
      rw [hv] at hs
      cases hs
      exact ⟨h.memorySize, h.maxSteps⟩
  · cases hv : value.mapM (positive "--memory-size") with
    | error e =>
      rw [hv] at hs
      cases hs
    | ok n =>
      rw [hv] at hs
      cases hs
      refine ⟨fun k hk => ?_, h.maxSteps⟩
      obtain ⟨text, htext⟩ := Except.mapM_option_ok hv k hk
      exact positive_ok htext
  · cases hv : value.mapM (positive "--max-steps") with
    | error e =>
      rw [hv] at hs
      cases hs
    | ok n =>
      rw [hv] at hs
      cases hs
      refine ⟨h.memorySize, fun k hk => ?_⟩
      obtain ⟨text, htext⟩ := Except.mapM_option_ok hv k hk
      exact positive_ok htext
  · cases hs
    exact ⟨h.memorySize, h.maxSteps⟩
  · cases hs
    exact h

theorem take_sized (h : s.Sized) {complaint : Option UsageError} {given : List Given}
    (ht : s.take complaint given = .settings t) : t.Sized := by
  induction given generalizing s with
  | nil =>
    cases complaint with
    | none =>
      cases ht
      exact h
    | some e => cases ht
  | cons x rest ih =>
    cases x with
    | help => cases ht
    | slot arguments =>
      exact ih (s := { s with program := arguments.headD "" }) ⟨h.memorySize, h.maxSteps⟩ ht
    | flag switch => exact ih (setFlag_sized h _) ht
    | value switch value =>
      rw [take] at ht
      cases hs : s.setValue switch.label value with
      | ok s' =>
        rw [hs] at ht
        exact ih (setValue_sized h hs) ht
      | error e =>
        rw [hs] at ht
        cases ht

theorem sized_of_arguments {arguments : List String} (h : ofArguments arguments = .settings s) :
    s.Sized := take_sized standard_sized h

end Cli.Settings

end Moo
