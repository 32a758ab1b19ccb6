import Moo.Device.Buffer
import Moo.Proofs.Machine.Calls

/-!
# Where control goes

A step that finds a command goes back (`Machine.GoesBack`) if what it runs looks for a loop start
and one lies before the command right before the counter; it then sets the counter to the nearest
one and does nothing else (`Machine.turn_of_goesBack`). Every other step moves the counter on by one
(`Machine.counter_of_turn`).
-/

namespace Moo

variable {σ ω : Type}

namespace Machine

variable {m : Machine} {c : Command} {x : Shift}

/-- The step goes back: what its command stands for does so, and there is a loop start to go back
to. -/
def GoesBack (m : Machine) (c : Command) : Prop :=
  m.skip = .none ∧ m.Means c .loopBack ∧ ∃ i, i + 1 < m.counter ∧ m.StartsLoop i

/-- A machine that goes back is at the nearest loop start and otherwise as it was. -/
theorem turn_of_goesBack (hr : m.Resting) (hf : m.finished = false) (hc : m.command? = some c)
    (h : m.GoesBack c) : ∃ i, m.NearestStart i ∧ m.turn = .quiet ({ m with counter := i }, []) := by
  obtain ⟨hs, he, j, hj, hstart⟩ := h
  obtain ⟨i, hi, hback⟩ := loopBack_of_starts hj hstart
  refine ⟨i, hi, ?_⟩
  have hvisit : m.visitTurn c = .quiet ({ m with counter := i, jumped := true }, []) := by
    rw [he.visitTurn hs hc, ← hback]
    rfl
  have hadvance : advance { m with counter := i, jumped := true } = { m with counter := i } := by
    rw [advance_of_jumped rfl, ← hr.jumped]
  -- a loop start is in the program, so the step is not the last one
  have hclosed : closed { m with counter := i, jumped := true } = ({ m with counter := i }, []) := by
    rw [closed_of_continues, hadvance]
    have hsome : ({ m with counter := i } : Machine).command?.isSome := by
      rw [command?_isSome_iff]
      exact hi.starts.lt
    rw [hadvance, Bool.or_eq_false_iff]
    exact ⟨hr.unbroken hf, Option.isNone_eq_false_iff.mpr hsome⟩
  rw [turn_of_command hf hc, hvisit]
  show Turn.quiet (Shift.andThen _ closed) = _
  unfold Shift.andThen
  rw [hclosed]
  rfl

theorem Ran.unmoved {e : Effect} (h : m.Ran e x)
    (hno : e = .loopBack → ∀ i, i + 1 < m.counter → ¬ m.StartsLoop i) :
    x.1.counter = m.counter ∧ x.1.jumped = m.jumped := by
  by_cases he : e = .loopBack
  · obtain ⟨i, hi, -⟩ | ⟨-, hstay⟩ := m.loopBack_cases
    · exact absurd hi.starts (hno he i hi.before)
    · rw [h.jumps he, hstay]
      exact ⟨rfl, rfl⟩
  · exact h.stays he

/-- Up to its close a step that does not go back leaves the counter and the mark of a jump alone. -/
theorem visitTurn_stays (hc : m.command? = some c) (h : ¬ m.GoesBack c)
    (hx : (m.visitTurn c).Yields x) : x.1.counter = m.counter ∧ x.1.jumped = m.jumped := by
  cases visitTurn_visited hc hx with
  | passed hs => exact ⟨rfl, rfl⟩
  | @ran e _ hs he hran =>
    exact hran.unmoved fun hb i hi hstart => h ⟨hs, hb ▸ he, i, hi, hstart⟩
  | refused hs hi => exact ⟨rfl, rfl⟩

/-- A step that does not go back moves the counter on by one. -/
theorem counter_of_turn (hr : m.Resting) (hf : m.finished = false) (hc : m.command? = some c)
    (h : ¬ m.GoesBack c) (hx : m.turn.Yields x) : x.1.counter = m.counter + 1 := by
  rw [turn_of_command hf hc] at hx
  obtain ⟨y, hy, rfl⟩ := Turn.yields_map hx
  have hclosed : (y.andThen closed).1.counter = y.1.advance.counter := by
    obtain ⟨finished, hm⟩ := y.1.closed_machine
    show y.1.closed.1.counter = _
    rw [hm]
  obtain ⟨hcounter, hjumped⟩ := visitTurn_stays hc h hy
  rw [hclosed, advance_of_unjumped (hjumped.trans hr.jumped), hcounter]

end Machine

namespace Host

variable {d : Device σ} {note : Event → World σ (Recorded ω) → ω} {b b' : World σ (Recorded ω)}
  {c : Command}

/-- A step that goes back, before subscribers that only watch, leaves all but the counter alone. -/
theorem watching_step_of_goesBack (hr : b.machine.Resting) (hf : b.machine.finished = false)
    (hc : b.machine.command? = some c) (h : b.machine.GoesBack c)
    (hstep : (watching d note).step b = .ok () b') :
    b.machine.NearestStart b'.machine.counter ∧
      b'.machine = { b.machine with counter := b'.machine.counter } ∧
      b'.device = b.device ∧ b'.audience.events = b.audience.events := by
  obtain ⟨i, hi, hturn⟩ := Machine.turn_of_goesBack hr hf hc h
  obtain ⟨v, hv, hm, hd, he⟩ := watching_step_of_quiet d note hturn
  obtain rfl : v = b' := by
    rw [hv] at hstep
    injection hstep
  rw [hm]
  exact ⟨hi, rfl, hd, by simpa using he⟩

end Host

/-! ## Main statement -/

/-- In every run of steps of a loaded machine, before subscribers that only watch, a step that finds
a command sets the counter to the nearest loop start, and changes nothing else, if it goes back;
otherwise the counter moves on by one. So the counter always changes, by at most one forward,
backward only to a loop start, and no jump is under way after a step. -/
theorem control_goes_on_or_back {t : Catalogue} {program : List Command} {memorySize : Int}
    {m : Machine} (ht : t.SoleRunner) (hload : Machine.load t program memorySize = .ok m)
    (d : Device σ) (s : σ) (note : Event → World σ (Recorded ω) → ω) (own : ω) :
    (d.Reliable → ∀ n, ∃ b, (Host.watching d note).Calls ⟨m, s, .ofOwn own⟩ n b) ∧
    ∀ n b, (Host.watching d note).Calls ⟨m, s, .ofOwn own⟩ n b → b.machine.jumped = false ∧
      ∀ c b', b.machine.finished = false → b.machine.command? = some c →
        (Host.watching d note).step b = .ok () b' →
          (b.machine.GoesBack c → b.machine.NearestStart b'.machine.counter ∧
            b'.machine = { b.machine with counter := b'.machine.counter } ∧
            b'.device = b.device ∧ b'.audience.events = b.audience.events) ∧
          (¬ b.machine.GoesBack c → b'.machine.counter = b.machine.counter + 1) ∧
          b'.machine.counter ≠ b.machine.counter ∧
          b'.machine.counter ≤ b.machine.counter + 1 ∧
          (b'.machine.counter < b.machine.counter → b.machine.StartsLoop b'.machine.counter) ∧
          b'.machine.jumped = false := by
  have hm : m.Resting := .of_load hload
  refine ⟨fun hd n => Host.calls_of_reliable hd ht hload rfl n, fun n b hb => ?_⟩
  have hr := hb.resting hm
  refine ⟨hr.jumped, fun c b' hf hc hstep => ?_⟩
  have hjumped := ((hb.snoc hstep).resting hm).jumped
  by_cases hback : b.machine.GoesBack c
  · have h := Host.watching_step_of_goesBack hr hf hc hback hstep
    have hbefore := h.1.before
    exact ⟨fun _ => h, fun hno => absurd hback hno, by omega, by omega, fun _ => h.1.starts, hjumped⟩
  · obtain ⟨fired, hon, -⟩ := Host.turn_of_watching_step hstep
    have hnext : b'.machine.counter = b.machine.counter + 1 :=
      Machine.counter_of_turn hr hf hc hback (Turn.yields_of_on hon)
    exact ⟨fun h => absurd h hback, fun _ => hnext, by omega, by omega, by omega, hjumped⟩

/-- A cell that holds zero names the command that goes back. The fourth step runs it by the cell and
goes back to the loop start at position 1, the nearest one. -/
theorem control_goes_on_or_back_by_cell :
    let plus : Command := ⟨0, 6, "MoO", .increment⟩
    let start : Command := ⟨0, 7, "MOO", .skipIfZero⟩
    let minus : Command := ⟨0, 5, "MOo", .decrement⟩
    let runner : Command := ⟨0, 3, "mOO", .runCell⟩
    let program : List Command := [plus, start, minus, runner]
    let m : Machine := ⟨.standard, program.toArray, #[0], 0, 0, none, .none, false, false, false⟩
    let h : Host Buffer (Recorded Unit) := .watching Buffer.device fun _ _ => ()
    let b : World Buffer (Recorded Unit) :=
      ⟨{ m with counter := 3 }, .ofInput "" [], ⟨#[.valueChanged 1, .valueChanged 0], #[], ()⟩⟩
    Catalogue.standard.SoleRunner ∧ Machine.load .standard program 1 = .ok m ∧
      h.Calls ⟨m, .ofInput "" [], .ofOwn ()⟩ 3 b ∧ b.machine.finished = false ∧
      b.machine.command? = some runner ∧ b.machine.GoesBack runner ∧
      ∃ b', h.step b = .ok () b' ∧ b'.machine = { m with counter := 1 } := by
  intro plus start minus runner program m h b
  let back : Command := ⟨0, 0, "moo", .loopBack⟩
  have hload : Machine.load .standard program 1 = .ok m := rfl
  have hcalls : h.Calls ⟨m, .ofInput "" [], .ofOwn ()⟩ 3 b := .snoc (.snoc (.snoc .none rfl) rfl) rfl
  have hmeans : b.machine.Means runner back.effect :=
    .cell rfl (show _ = some back from rfl) (by decide)
  have hstart : b.machine.StartsLoop 1 := ⟨start, rfl, by decide⟩
  have hback : b.machine.GoesBack runner := ⟨rfl, hmeans, 1, by decide, hstart⟩
  have hnearest : b.machine.NearestStart 1 := ⟨by decide, hstart, fun j hj _ => by
    have hlt : j + 1 < 3 := hj
    omega⟩
  obtain ⟨i, -, hturn⟩ := Machine.turn_of_goesBack ⟨rfl, fun _ => rfl, by decide⟩ rfl rfl hback
  obtain ⟨b', hstep, -⟩ := Host.watching_step_of_quiet Buffer.device (fun _ _ => ()) hturn
  have control := control_goes_on_or_back Catalogue.standard_soleRunner hload Buffer.device
    (.ofInput "" []) (fun _ _ => ()) ()
  obtain ⟨-, hb⟩ := control.2 3 b hcalls
  obtain ⟨hto, hm, -⟩ := (hb runner b' rfl rfl hstep).1 hback
  rw [hto.unique hnearest] at hm
  exact ⟨Catalogue.standard_soleRunner, hload, hcalls, rfl, rfl, hback, b', hstep, hm⟩

end Moo
