import Moo.Proofs.Machine.Chronicle

/-!
# Refusals

When a step of a resting machine refuses a cell, and what it does then, besides what the step tells
of the end. The command of the language that runs a cell refuses its own number and the numbers past
the last command (`Machine.standard_refuses`), and no other command refuses anything.
-/

namespace Moo

variable {σ : Type}

namespace Machine

variable {m : Machine} {x : Shift} {c k : Command} {info info' : BadEval}

theorem Refuses.unique (h : m.Refuses c info) (h' : m.Refuses c info') : info = info' := by
  obtain ⟨-, ⟨hk, rfl⟩ | ⟨hk, rfl⟩⟩ := h <;> obtain ⟨-, ⟨hk', rfl⟩ | ⟨hk', rfl⟩⟩ := h'
  · rfl
  · rw [hk] at hk'
    cases hk'
  · rw [hk] at hk'
    cases hk'
  · rfl

theorem standard_refuses (hm : m.catalogue = .standard)
    (hc : Catalogue.standard.at? c.id = some c) :
    m.Refuses c info ↔ c.name = "mOO" ∧
      (m.value = 3 ∧ info = .evalLoop ∨ 12 ≤ m.value ∧ info = .invalidCommand m.value) := by
  unfold Refuses
  rw [hm, Catalogue.at?_natCast_eq_none, Catalogue.standard_effect_iff hc]
  refine and_congr_right fun hn => ?_
  obtain rfl := Catalogue.standard_runner hc ((Catalogue.standard_effect_iff hc).mpr hn)
  rw [Catalogue.standard_at?_runner, or_comm]
  rfl

theorem Went.badEval_not_mem (h : m.Went x) (info : BadEval) : .badEval info ∉ x.2 := by
  obtain ⟨told, htold, hx⟩ := h.events
  rw [hx]
  refine List.not_mem_append (htold _) ?_
  split <;> simp

namespace Stepped

theorem done_mem_iff (h : m.Stepped x) :
    .done ∈ x.2 ↔ m.finished = false ∧ x.1.finished = true := by
  cases hf : m.finished with
  | false =>
    rw [(h.chronicle hf).done_mem_iff]
    exact (and_iff_right rfl).symm
  | true =>
    cases h with
    | ended _ => exact iff_of_false List.not_mem_nil nofun
    | past hf' _ => exact absurd (hf.symm.trans hf') nofun
    | refused hf' _ _ _ => exact absurd (hf.symm.trans hf') nofun
    | went hf' _ _ _ => exact absurd (hf.symm.trans hf') nofun

/-- A step that refuses a cell tells of nothing else but the end, and changes nothing but the
counter and the flags. -/
theorem eq_of_badEval_mem (h : m.Stepped x) (hb : .badEval info ∈ x.2) :
    x = ({ m with counter := m.counter + 1, broken := true, finished := true },
      [.badEval info, .done]) := by
  cases h with
  | ended _ => cases hb
  | past _ _ => simp at hb
  | refused _ _ _ _ =>
    obtain rfl : info = _ := by simpa using hb
    rfl
  | went _ _ _ h => exact absurd hb (h.badEval_not_mem info)

theorem badEval_mem_iff (h : m.Stepped x) :
    .badEval info ∈ x.2 ↔
      m.finished = false ∧ m.skip = .none ∧ ∃ c, m.command? = some c ∧ m.Refuses c info := by
  constructor
  · intro hb
    cases h with
    | ended _ => cases hb
    | past _ _ => simp at hb
    | @refused c _ hf hc hs hr =>
      obtain rfl : info = _ := by simpa using hb
      exact ⟨hf, hs, c, hc, hr⟩
    | went _ _ _ h => exact absurd hb (h.badEval_not_mem info)
  · rintro ⟨hf, hs, c, hc, hr⟩
    cases h with
    | ended hf' => exact absurd (hf.symm.trans hf') nofun
    | past _ hc' => exact absurd (hc'.symm.trans hc) nofun
    | refused _ hc' _ hr' =>
      obtain rfl := Option.some.inj (hc'.symm.trans hc)
      rw [hr.unique hr']
      exact List.mem_cons_self
    | went _ hc' hno _ =>
      obtain rfl := Option.some.inj (hc'.symm.trans hc)
      exact absurd hr (hno info hs)

theorem finished_iff (h : m.Stepped x) (hm : m.Resting) (hf : m.finished = false) :
    x.1.finished = true ↔ (∃ info, .badEval info ∈ x.2) ∨ x.1.counter = m.program.size := by
  cases h with
  | ended hf' => exact absurd (hf.symm.trans hf') nofun
  | past _ hc => exact iff_of_true rfl (.inr (hm.counter_eq hc))
  | @refused _ info _ _ _ _ => exact iff_of_true rfl (.inl ⟨info, List.mem_cons_self⟩)
  | went _ _ _ h =>
    rw [h.finished]
    exact ⟨.inr, fun hx => hx.resolve_left fun ⟨info, hb⟩ => h.badEval_not_mem info hb⟩

end Stepped

theorem turn_of_refuses (hf : m.finished = false) (hc : m.command? = some c)
    (hs : m.skip = .none) (hr : m.Refuses c info) : ∃ x, m.turn = .quiet x := by
  rw [turn_of_command hf hc]
  unfold visitTurn
  rw [if_pos hs]
  obtain ⟨info', -, ht⟩ | ⟨e, he, -⟩ := m.effectTurn_cases hc
  · rw [ht]
    exact ⟨_, rfl⟩
  · exact absurd hr he.not_refuses

end Machine

end Moo
