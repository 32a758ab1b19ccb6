import Moo.Proofs.Command.Catalogue
import Moo.Proofs.Machine.Course

/-!
# Reliable devices

A reliable device serves every read and takes every value that machines write. If at most one
command of its catalogue runs a cell, a machine never fails on such a device
(`Machine.Intact.served`).
-/

namespace Moo

variable {σ : Type} {α β : Type}

/-- The device serves every read and takes every write of a machine. -/
structure Device.Reliable (d : Device σ) : Prop where
  read : ∀ channel s, ∃ n s', d.read channel s = .ok n s'
  write : ∀ channel value s, channel.Carries value → ∃ s', d.write channel value s = .ok () s'

namespace Turn

/-- The turn does not fail by itself, and writes only what machines write. -/
def Servable : Turn α → Prop
  | .quiet _ => True
  | .reads _ _ => True
  | .writes channel value _ => channel.Carries value
  | .fails _ => False

theorem Servable.map {x : Turn α} (h : x.Servable) (f : α → β) : (x.map f).Servable := by
  cases x <;> exact h

theorem Servable.on {x : Turn α} (h : x.Servable) {d : Device σ} (hd : d.Reliable) (s : σ) :
    ∃ a s', x.on d s = .ok a s' := by
  cases x with
  | quiet a => exact ⟨a, s, rfl⟩
  | reads channel next =>
    obtain ⟨n, s', hr⟩ := hd.read channel s
    exact ⟨next n, s', by simp only [Turn.on, hr]⟩
  | writes channel value a =>
    obtain ⟨s', hw⟩ := hd.write channel value s h
    exact ⟨a, s', by simp only [Turn.on, hw]⟩
  | fails e => exact h.elim

end Turn

namespace Machine

variable {m : Machine} {e : Effect} {c : Command}

theorem plainTurn_servable (hm : m.Sound) (he : e ≠ .runCell) : (m.plainTurn e).Servable := by
  have hlt := hm.value_lt
  cases e with
  | runCell => exact absurd rfl he
  | exchangeChar =>
    dsimp only [plainTurn]
    by_cases hv : m.value = 0
    · rw [if_pos hv]
      trivial
    · rw [if_neg hv]
      exact ⟨by omega, by omega⟩
  | skipIfZero =>
    dsimp only [plainTurn]
    split <;> trivial
  | swapRegister =>
    dsimp only [plainTurn]
    split <;> trivial
  | writeNumber => exact ⟨by omega, by omega⟩
  | _ => trivial

/-- What a command stands for runs no cell in turn, if no other command does. -/
theorem Means.ne_runCell (h : m.Means c e) (ht : m.catalogue.SoleRunner)
    (hc : m.catalogue.at? c.id = some c) : e ≠ .runCell := by
  cases h with
  | own he => exact he
  | cell he hk hne => exact fun hke => hne (ht.eq hk hc hke he)

theorem turn_servable (hm : m.Sound) (ht : m.catalogue.SoleRunner)
    (hp : ∀ c ∈ m.program, m.catalogue.at? c.id = some c) : m.turn.Servable := by
  cases hf : m.finished with
  | true =>
    rw [turn_of_finished hf]
    trivial
  | false =>
    cases hc : m.command? with
    | none =>
      rw [turn_of_no_command hf hc]
      trivial
    | some c =>
      rw [turn_of_command hf hc]
      apply Turn.Servable.map
      unfold visitTurn
      split
      · obtain ⟨info, -, h⟩ | ⟨e, he, h⟩ := m.effectTurn_cases hc
        · rw [h]
          trivial
        · rw [h]
          exact plainTurn_servable hm (he.ne_runCell ht (hp c (Array.mem_of_getElem? hc)))
      · trivial

namespace Intact

variable {t : Catalogue} {program : List Command} {memorySize : Int}

theorem servable (hm : m.Intact t program memorySize) (ht : t.SoleRunner)
    (hp : ∀ c ∈ program, t.at? c.id = some c) : m.turn.Servable := by
  refine turn_servable hm.toSound (hm.catalogue ▸ ht) ?_
  rw [hm.program, hm.catalogue]
  exact fun c hc => hp c (List.mem_toArray.mp hc)

theorem served (hm : m.Intact t program memorySize) (ht : t.SoleRunner)
    (hp : ∀ c ∈ program, t.at? c.id = some c) {d : Device σ} (hd : d.Reliable) (s : σ) :
    ∃ x s', m.turn.on d s = .ok x s' := (hm.servable ht hp).on hd s

end Intact

end Machine

end Moo
