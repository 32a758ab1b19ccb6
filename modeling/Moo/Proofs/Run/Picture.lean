import Moo.Device.Buffer
import Moo.Proofs.Machine.Picture
import Moo.Proofs.Run.View

/-!
# Events tell the state

The events that a machine announces draw its cells, cursor and register, whatever is done to it; so
do the entries of a run for the machine in its receipt (`events_tell_the_state`).
-/

namespace Moo

namespace Run

variable {σ : Type} {d : Device σ} {o : Options}

namespace Session

/-- The entries so far draw the machine. -/
def Drawn (memorySize : Int) (s : Session σ) : Prop :=
  (Picture.blank memorySize).hearAll (s.entries.toList.flatMap (·.events)) = s.machine.picture

variable {memorySize : Int} {s s' : Session σ}

theorem Drawn.tick (h : s.Drawn memorySize) (htrace : o.trace = true)
    (ht : tick d o s = .ok () s') : s'.Drawn memorySize := by
  obtain ⟨-, x, device, hon, rfl⟩ := tick_turn ht
  have hx := Machine.turn_draws (Turn.yields_of_on hon)
  unfold Drawn at *
  cases hc : s.machine.command? with
  | none =>
    -- such a step makes no entry, and the machine looks as before
    have hstays : s.machine.ended.1.picture = s.machine.picture := by
      unfold Machine.ended
      split <;> rfl
    rw [Machine.turn_of_none hc] at hon
    cases hon
    rw [after_of_none hc, hstays]
    exact h
  | some c =>
    rw [after_of_some hc, if_pos htrace]
    simp only [Array.toList_push, List.flatMap_append, List.flatMap_singleton, Picture.hearAll_append]
    rw [h]
    exact hx

theorem run_drawn {budget : Nat} (h : s.Drawn memorySize) (htrace : o.trace = true)
    (hr : run d o budget s = .finished s') : s'.Drawn memorySize := by
  obtain ⟨n, -, hticks, -⟩ := ticks_of_run hr
  clear hr
  induction hticks with
  | none => exact h
  | snoc _ _ ht ih => exact ih.tick htrace ht

end Session

/-- What is done to a machine in any order, cut short or not, before subscribers that only watch, is
told by its events: cells, cursor and register are what the events draw. What the entries of a run
tell is the machine in its receipt. -/
theorem events_tell_the_state :
    (∀ (σ ω : Type) (t : Catalogue) (program : List Command) (memorySize : Int) (m : Machine),
      Machine.load t program memorySize = .ok m →
        ∀ (d : Device σ) (s : σ) (note : Event → World σ (Recorded ω) → ω) (own : ω)
          (deeds : List Deed),
          let w := (Host.watching d note).doesAll deeds ⟨m, s, .ofOwn own⟩
          (Picture.blank memorySize).hearAll w.audience.events.toList =
            ⟨w.machine.cells, w.machine.cursor, w.machine.register⟩) ∧
    ∀ (σ : Type) (d : Device σ) (buffered : Bool) (j : Job) (budget : Nat) (device : σ)
      (r : Result σ), j.options.trace = true →
        j.runWithin budget d buffered device = .finished r →
        ∃ summary, r.receipt.verdict = .finished summary ∧
          r.receipt.toJson.field? "machine" = some summary.snapshot.toJson ∧
          r.receipt.toJson.field? "steps" = some (.arr (r.receipt.entries.map Entry.toJson)) ∧
          let p := (Picture.blank j.options.memorySize).hearAll
            (r.receipt.entries.flatMap (·.events))
          p = ⟨r.machine.cells, r.machine.cursor, r.machine.register⟩ ∧
          summary.snapshot.cursor = p.cursor ∧ summary.snapshot.register = p.register ∧
          summary.snapshot.memorySize = p.cells.size ∧
          ∀ i v, (i, v) ∈ summary.snapshot.cells ↔ p.cells[i]? = some v ∧ v ≠ 0 := by
  constructor
  · intro σ ω t program memorySize m hload d s note own deeds
    exact Host.doesAll_drawn (w := ⟨m, s, .ofOwn own⟩) (Machine.load_picture hload).symm deeds
  · intro σ d buffered j budget device r htrace h
    obtain ⟨m, s, shown, hm, hs, -, rfl⟩ := Job.runWithin_finished h
    have hstart : (Session.start m device).Drawn j.options.memorySize :=
      (Machine.load_picture hm).symm
    have hdrawn := Session.run_drawn hstart htrace hs
    refine ⟨_, rfl, rfl, rfl, ?_⟩
    intro p
    have hp : p = s.machine.picture := hdrawn
    rw [hp]
    refine ⟨rfl, rfl, rfl, rfl, fun i v => ?_⟩
    show (i, v) ∈ Snapshot.nonzero 0 s.machine.cells.toList ↔ s.machine.cells[i]? = some v ∧ v ≠ 0
    rw [Snapshot.mem_nonzero_iff, ← Array.getElem?_toList]
    simp only [Nat.zero_add, exists_eq_left']

/-- A value is set and reduced, a step finds no number to read, and the cursor goes round the ring.
A run copies a cell to the register, changes it, moves the register back and goes on to the next
cell. -/
theorem events_tell_the_state_cut_short :
    let read : Command := ⟨0, 11, "oom", .readNumber⟩
    let m : Machine := ⟨.standard, #[read], #[0, 0], 0, 0, none, .none, false, false, false⟩
    let w := (Host.watching Buffer.device fun _ _ => ()).doesAll
      [.setValue 300, .step, .setCursor (-1)] ⟨m, .ofInput "" [], .ofOwn ()⟩
    Machine.load .standard [read] 2 = .ok m ∧ w.machine.counter = 0 ∧
      w.machine.cells = #[44, 0] ∧ w.machine.cursor = 1 ∧
      (Picture.blank 2).hearAll w.audience.events.toList =
        ⟨w.machine.cells, w.machine.cursor, w.machine.register⟩ ∧
      ∃ r summary, (⟨"MoO MMM MoO MMM moO", none, .standard, ⟨3, none, true⟩, ⟨"", ""⟩⟩ :
          Job).runWithin 9 Buffer.device true (.ofInput "" []) = .finished r ∧
        r.receipt.verdict = .finished summary ∧ summary.snapshot.cells = [(0, 1)] ∧
        (Picture.blank 3).hearAll (r.receipt.entries.flatMap (·.events)) =
          ⟨r.machine.cells, r.machine.cursor, r.machine.register⟩ := by
  intro read m w
  have hload : Machine.load .standard [read] 2 = .ok m := rfl
  have hends : ∃ r summary, (⟨"MoO MMM MoO MMM moO", none, .standard, ⟨3, none, true⟩, ⟨"", ""⟩⟩ :
        Job).runWithin 9 Buffer.device true (.ofInput "" []) = .finished r ∧
      r.receipt.verdict = .finished summary ∧ summary.snapshot.cells = [(0, 1)] :=
    ⟨_, _, rfl, rfl, by decide⟩
  obtain ⟨r, summary, hr, hverdict, hcells⟩ := hends
  obtain ⟨-, -, -, -, hdrawn, -⟩ := events_tell_the_state.2 _ _ _ _ _ _ r rfl hr
  refine ⟨hload, by decide, by decide, by decide, ?_, r, summary, hr, hverdict, hcells, hdrawn⟩
  exact events_tell_the_state.1 _ _ _ _ _ _ hload Buffer.device (.ofInput "" []) (fun _ _ => ()) ()
    [.setValue 300, .step, .setCursor (-1)]

end Run

end Moo
