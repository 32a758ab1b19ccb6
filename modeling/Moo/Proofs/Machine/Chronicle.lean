import Moo.Proofs.Machine.Calls

/-!
# What is heard of a machine

While a machine runs it tells of its state alone. At last it tells of its end, once, and of a
refusal, if there is one, right before (`Chronicle`). One step of a resting machine adds to the log
in this way (`Machine.Stepped.chronicle`), so the log of any number of calls has this form
(`Host.Calls.chronicle`).
-/

namespace Moo

variable {σ ω : Type}

/-! ## Logs -/

/-- How a log ends, for a machine that has not ended and for one that has. -/
inductive Ending : Bool → List Event → Prop where
  | running : Ending false []
  | finished : Ending true [.done]
  | refused (info : BadEval) : Ending true [.badEval info, .done]

/-- A log that tells of the state and then comes to its ending. -/
def Chronicle (finished : Bool) (log : List Event) : Prop :=
  ∃ told ending, log = told ++ ending ∧ (∀ event ∈ told, event.OfState) ∧ Ending finished ending

/-- The end is told once and last. A refusal is told once and right before the end. -/
structure Conclusive (log : List Event) : Prop where
  done : ∀ before after, log = before ++ .done :: after → after = [] ∧ .done ∉ before
  refusal : ∀ before info after, log = before ++ .badEval info :: after →
    after = [.done] ∧ ∀ info', .badEval info' ∉ before

theorem Ending.conclusive {finished : Bool} {ending : List Event} (h : Ending finished ending) :
    Conclusive ending := by
  cases h with
  | running => exact ⟨fun before after h => by simp at h, fun before info after h => by simp at h⟩
  | finished =>
    constructor
    · rintro (_ | ⟨u, before⟩) after h
      · cases h
        exact ⟨rfl, List.not_mem_nil⟩
      · simp at h
    · rintro (_ | ⟨u, before⟩) info after h
      · cases h
      · simp at h
  | refused info =>
    constructor
    · rintro (_ | ⟨u, _ | ⟨v, before⟩⟩) after h
      · cases h
      · cases h
        exact ⟨rfl, by simp⟩
      · simp at h
    · rintro (_ | ⟨u, _ | ⟨v, before⟩⟩) info' after h
      · cases h
        exact ⟨rfl, fun _ => List.not_mem_nil⟩
      · cases h
      · simp at h

/-- What stands before and after an event of the ending, in a log that tells of the state first. -/
theorem split_told {told ending before after : List Event} {e : Event}
    (h : told ++ ending = before ++ e :: after) (he : e ∉ told) :
    ∃ mid, before = told ++ mid ∧ ending = mid ++ e :: after := by
  obtain ⟨mid, hb, hm⟩ | ⟨mid, hb, hm⟩ := List.append_eq_append_iff.mp h
  · exact ⟨mid, hb, hm⟩
  · cases mid with
    | nil => exact ⟨[], by rw [hb, List.append_nil, List.append_nil], hm.symm⟩
    | cons u mid =>
      injection hm with hu
      rw [hb, ← hu] at he
      exact absurd (List.mem_append_right _ List.mem_cons_self) he

namespace Chronicle

variable {finished : Bool} {log more : List Event}

theorem nil : Chronicle false [] := ⟨[], [], rfl, nofun, .running⟩

theorem append (h : Chronicle false log) (hmore : Chronicle finished more) :
    Chronicle finished (log ++ more) := by
  obtain ⟨told, ending, rfl, htold, hending⟩ := h
  obtain ⟨told', ending', rfl, htold', hending'⟩ := hmore
  cases hending
  rw [List.append_nil, ← List.append_assoc]
  exact ⟨told ++ told', ending', rfl, List.forall_mem_append.mpr ⟨htold, htold'⟩, hending'⟩

theorem done_mem_iff (h : Chronicle finished log) : .done ∈ log ↔ finished = true := by
  obtain ⟨told, ending, rfl, htold, hending⟩ := h
  have hdone : .done ∉ told := htold _
  cases hending <;> simp [hdone]

theorem conclusive (h : Chronicle finished log) : Conclusive log := by
  obtain ⟨told, ending, rfl, htold, hending⟩ := h
  constructor
  · intro before after h
    obtain ⟨mid, rfl, hmid⟩ := split_told h (htold _)
    obtain ⟨hafter, hbefore⟩ := hending.conclusive.done mid after hmid
    exact ⟨hafter, List.not_mem_append (htold _) hbefore⟩
  · intro before info after h
    obtain ⟨mid, rfl, hmid⟩ := split_told h (htold _)
    obtain ⟨hafter, hbefore⟩ := hending.conclusive.refusal mid info after hmid
    exact ⟨hafter, fun info' => List.not_mem_append (htold _) (hbefore info')⟩

theorem eq_append_done (h : Chronicle true log) :
    log = log.dropLast ++ [.done] := by
  obtain ⟨told, ending, rfl, -, hending⟩ := h
  cases hending <;>
    rw [List.dropLast_append_of_ne_nil (List.cons_ne_nil _ _), List.append_assoc] <;> rfl

end Chronicle

/-! ## Steps and calls -/

namespace Machine

variable {m : Machine} {x : Shift}

theorem Stepped.chronicle (h : m.Stepped x) (hf : m.finished = false) :
    Chronicle x.1.finished x.2 := by
  cases h with
  | ended h =>
    rw [hf] at h
    cases h
  | past _ _ => exact ⟨[], _, rfl, nofun, .finished⟩
  | @refused c info _ _ _ _ => exact ⟨[], _, rfl, nofun, .refused info⟩
  | went _ _ _ h =>
    obtain ⟨told, htold, hx⟩ := h.events
    refine ⟨told, _, hx, htold, ?_⟩
    cases x.1.finished with
    | true => exact .finished
    | false => exact .running

end Machine

namespace Host

variable {d : Device σ} {note : Event → World σ (Recorded ω) → ω}
  {a b : World σ (Recorded ω)} {n : Nat}

theorem Calls.chronicle (h : (watching d note).Calls a n b) (hr : a.machine.Resting)
    (ha : Chronicle a.machine.finished a.audience.events.toList) :
    Chronicle b.machine.finished b.audience.events.toList := by
  induction h with
  | none => exact ha
  | @snoc n b c hcalls hstep ih =>
    obtain ⟨fired, hs, he⟩ := stepped_of_watching_step (hcalls.resting hr) hstep
    cases hf : b.machine.finished with
    | true =>
      rw [step_of_finished _ hf] at hstep
      cases hstep
      exact ih
    | false =>
      rw [hf] at ih
      rw [he, Array.toList_append]
      exact ih.append (hs.chronicle hf)

end Host

end Moo
