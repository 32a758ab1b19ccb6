import Moo.Proofs.Machine.Turn

/-!
# Stepping until the end

`h.Steps a n b`: from the world `a`, the host `h` makes `n` steps, each of a machine that has not
ended, and comes to `b`. Stepping on and on ends, fails or goes on for ever
(`Host.ends_fails_or_diverges`). A machine that found a command once finds one at every step before
its end (`Machine.Alive`).
-/

namespace Moo

variable {σ ω : Type}

namespace Host

variable {h : Host σ ω}

inductive Steps (h : Host σ ω) (a : World σ ω) : Nat → World σ ω → Prop where
  | none : Steps h a 0 a
  | snoc {n : Nat} {b c : World σ ω} :
      Steps h a n b → b.machine.finished = false → h.step b = .ok () c → Steps h a (n + 1) c

/-- The machine has ended after just so many steps. -/
def EndsAfter (h : Host σ ω) (a : World σ ω) (n : Nat) (b : World σ ω) : Prop :=
  h.Steps a n b ∧ b.machine.finished = true

/-- The step after so many steps fails and leaves the world `c`. -/
def FailsAfter (h : Host σ ω) (a : World σ ω) (n : Nat) (e : Fault) (c : World σ ω) : Prop :=
  ∃ b, h.Steps a n b ∧ b.machine.finished = false ∧ h.step b = .error e c

/-- After any number of steps the machine has not ended. -/
def Diverges (h : Host σ ω) (a : World σ ω) : Prop :=
  ∀ n, ∃ b, h.Steps a n b ∧ b.machine.finished = false

/-- So many steps can be made and are not the last, or stepping ends or fails before. -/
theorem steps_or_stops (h : Host σ ω) (a : World σ ω) (n : Nat) :
    (∃ b, h.Steps a n b ∧ b.machine.finished = false) ∨
      (∃ k b, k ≤ n ∧ h.EndsAfter a k b) ∨ ∃ k e c, k < n ∧ h.FailsAfter a k e c := by
  induction n with
  | zero =>
    cases hf : a.machine.finished with
    | true => exact .inr (.inl ⟨0, a, Nat.le_refl 0, .none, hf⟩)
    | false => exact .inl ⟨a, .none, hf⟩
  | succ n ih =>
    obtain ⟨b, hs, hf⟩ | ⟨k, b, hk, hb⟩ | ⟨k, e, c, hk, hc⟩ := ih
    · cases hstep : h.step b with
      | ok u c =>
        cases hc : c.machine.finished with
        | true => exact .inr (.inl ⟨n + 1, c, Nat.le_refl _, hs.snoc hf hstep, hc⟩)
        | false => exact .inl ⟨c, hs.snoc hf hstep, hc⟩
      | error e c => exact .inr (.inr ⟨n, e, c, Nat.lt_succ_self n, b, hs, hf, hstep⟩)
    · exact .inr (.inl ⟨k, b, Nat.le_succ_of_le hk, hb⟩)
    · exact .inr (.inr ⟨k, e, c, Nat.lt_succ_of_lt hk, hc⟩)

theorem ends_fails_or_diverges (h : Host σ ω) (a : World σ ω) :
    (∃ n b, h.EndsAfter a n b) ∨ (∃ n e c, h.FailsAfter a n e c) ∨ h.Diverges a := by
  by_cases hd : h.Diverges a
  · exact .inr (.inr hd)
  · obtain ⟨n, hn⟩ := Classical.not_forall.mp hd
    obtain hb | ⟨k, b, -, hb⟩ | ⟨k, e, c, -, hc⟩ := h.steps_or_stops a n
    · exact absurd hb hn
    · exact .inl ⟨k, b, hb⟩
    · exact .inr (.inl ⟨k, e, c, hc⟩)

end Host

namespace Machine

/-- The machine has ended or finds a command. -/
def Alive (m : Machine) : Prop := m.finished = true ∨ m.command?.isSome = true

theorem Alive.command {m : Machine} (h : m.Alive) (hf : m.finished = false) :
    ∃ c, m.command? = some c := by
  rcases h with h | h
  · rw [h] at hf
    cases hf
  · exact Option.isSome_iff_exists.mp h

theorem ended_finished (m : Machine) : m.ended.1.finished = true := by
  unfold ended
  split
  · next h => exact h
  · rfl

theorem closed_alive (m : Machine) : m.closed.1.Alive := by
  unfold closed
  split
  · exact .inl (ended_finished _)
  · next h =>
    simp only [Bool.or_eq_true, not_or, Option.isNone_iff_eq_none] at h
    exact .inr (Option.isSome_iff_ne_none.mpr h.2)

theorem turn_alive {m : Machine} {c : Command} (hf : m.finished = false)
    (hc : m.command? = some c) {d : Device σ} {s s' : σ} {shift : Shift}
    (h : m.turn.on d s = .ok shift s') : shift.1.Alive := by
  rw [turn_of_command hf hc, Turn.on_map] at h
  split at h
  · cases h
    exact closed_alive _
  · cases h

end Machine

end Moo
