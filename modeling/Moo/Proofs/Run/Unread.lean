import Moo.Proofs.Device.Refill
import Moo.Proofs.Run.View

/-!
# Input that is not read

`d.Extends more`: unless its input runs out, the device `d` does after `more` what it does before,
and leaves the one state as `more` of the other. A turn asks once at most, so it is served alike
(`Device.Extends.on`); a run on such a device either has its input run out, or comes out alike with
more of it (`Job.runWithin_extends`). Longer queues are more of the same to a buffer.
-/

namespace Moo

variable {σ : Type} {α : Type} {more : σ → σ} {d : Device σ}

def RunsOut (x : EStateM.Result Fault σ α) : Prop := ∃ supply s, x = .error (.exhausted supply) s

/-- Unless its input runs out, the device does the same with more of it. -/
structure Device.Extends (d : Device σ) (more : σ → σ) : Prop where
  read : ∀ channel s, RunsOut (d.read channel s) ∨
    d.read channel (more s) = viewed more (d.read channel s)
  write : ∀ channel value s, RunsOut (d.write channel value s) ∨
    d.write channel value (more s) = viewed more (d.write channel value s)

namespace Device.Extends

theorem on (h : d.Extends more) (x : Turn α) (s : σ) :
    RunsOut (x.on d s) ∨ x.on d (more s) = viewed more (x.on d s) := by
  cases x with
  | quiet a => exact .inr rfl
  | reads channel next =>
    rw [Turn.on_reads]
    obtain ⟨supply, s', hr⟩ | hr := h.read channel s
    · exact .inl ⟨supply, s', given_eq_error.mpr hr⟩
    · dsimp only
      rw [hr]
      exact .inr (by cases d.read channel s <;> rfl)
  | writes channel value a =>
    rw [Turn.on_writes]
    obtain ⟨supply, s', hw⟩ | hw := h.write channel value s
    · exact .inl ⟨supply, s', given_eq_error.mpr hw⟩
    · dsimp only
      rw [hw]
      exact .inr (by cases d.write channel value s <;> rfl)
  | fails e => exact .inr rfl

theorem recording (h : d.Extends more) : d.recording.Extends fun p => (more p.1, p.2) where
  read channel s := by
    unfold Device.recording
    obtain ⟨supply, s', hr⟩ | hr := h.read channel s.1
    · exact .inl ⟨supply, (s', s.2), by simp only [hr]⟩
    · refine .inr ?_
      cases hd : d.read channel s.1 <;> rw [hd] at hr <;> simp only [hd, hr, viewed]
  write channel value s := by
    unfold Device.recording
    obtain ⟨supply, s', hw⟩ | hw := h.write channel value s.1
    · exact .inl ⟨supply, (s', s.2.push ⟨channel, value⟩), by simp only [hw]⟩
    · refine .inr ?_
      cases hd : d.write channel value s.1 <;> rw [hd] at hw <;> simp only [hd, hw, viewed]

end Device.Extends

/-- Nothing but a lack of input makes a difference to what a buffer with longer queues serves. -/
theorem Buffer.extends (chars : List Nat) (numbers : List Int) :
    Buffer.device.Extends (Buffer.fill chars numbers) where
  read channel b := by
    obtain ⟨n, c, hr, hmore⟩ | ⟨supply, hr⟩ := read_cases channel b
    · refine .inr ?_
      show read channel _ = viewed _ (read channel b)
      rw [hr, hmore]
      rfl
    · exact .inl ⟨supply, b, hr⟩
  write _ _ _ := .inr rfl

namespace Run

variable {o : Options}

/-! ## Sessions -/

namespace Session

theorem stepOnce_extends (h : d.Extends more) (m : Machine) (device : σ × Array Output) :
    RunsOut (stepOnce d m device) ∨ stepOnce d m (more device.1, device.2) =
      Moo.viewed (fun w => ⟨w.machine, (more w.device.1, w.device.2), w.audience⟩)
        (stepOnce d m device) := by
  rw [stepOnce_eq, stepOnce_eq]
  obtain ⟨supply, s, hon⟩ | hon := h.recording.on m.turn device
  · rw [hon]
    exact .inl ⟨supply, _, rfl⟩
  · rw [show m.turn.on d.recording (more device.1, device.2) = _ from hon]
    exact .inr (by cases m.turn.on d.recording device <;> rfl)

theorem tick_extends (h : d.Extends more) (s : Session σ) :
    (∃ supply s', tick d o s = .error (.fault (.exhausted supply)) s') ∨
      tick d o (s.viewed more) = Moo.viewed (Session.viewed more) (tick d o s) := by
  cases hx : o.exhaustedAt s.steps with
  | true =>
    rw [tick_of_exhausted hx, tick_of_exhausted (s := s.viewed more) hx]
    exact .inr rfl
  | false =>
    obtain ⟨supply, w, hw⟩ | hw := stepOnce_extends h s.machine s.device
    · obtain ⟨steps, ht⟩ := tick_of_error hx hw
      exact .inl ⟨supply, _, ht⟩
    · refine .inr ?_
      obtain ⟨m, device, steps, entries, refusals⟩ := s
      unfold tick viewed
      dsimp only at hw ⊢
      rw [hw]
      cases o.exhaustedAt steps with
      | true => rfl
      | false =>
        cases m.command? with
        | none => cases stepOnce d m device <;> rfl
        | some c => cases stepOnce d m device <;> rfl

theorem run_extends (h : d.Extends more) (budget : Nat) (s : Session σ) :
    (∃ supply s', run d o budget s = .failed (.fault (.exhausted supply)) s') ∨
      run d o budget (s.viewed more) = (run d o budget s).viewed more := by
  induction budget generalizing s with
  | zero =>
    refine .inr ?_
    cases hf : s.machine.finished with
    | true =>
      rw [run_of_finished hf, run_of_finished (s := s.viewed more) hf]
      rfl
    | false =>
      rw [run_zero hf, run_zero (s := s.viewed more) hf]
      rfl
  | succ budget ih =>
    cases hf : s.machine.finished with
    | true =>
      rw [run_of_finished hf, run_of_finished (s := s.viewed more) hf]
      exact .inr rfl
    | false =>
      obtain ⟨supply, s', ht⟩ | hv := tick_extends (o := o) h s
      · exact .inl ⟨supply, s', run_of_error hf ht⟩
      · cases ht : tick d o s with
        | ok u s' =>
          rw [ht] at hv
          rw [run_of_tick hf ht, run_of_tick (s := s.viewed more) hf hv]
          exact ih s'
        | error e s' =>
          rw [ht] at hv
          rw [run_of_error hf ht, run_of_error (s := s.viewed more) hf hv]
          exact .inr rfl

end Session

/-! ## Runs -/

namespace Job

variable {j : Job} {buffered : Bool}

/-- A run either has its input run out, or comes out alike with more of it. -/
theorem runWithin_extends (h : d.Extends more) (budget : Nat) (device : σ) :
    (∃ supply left, j.runWithin budget d buffered device =
        .failed (.fault (.exhausted supply)) left) ∨
      j.runWithin budget d buffered (more device) =
        (j.runWithin budget d buffered device).viewed more := by
  cases hm : Machine.load j.catalogue (j.catalogue.program j.text) j.options.memorySize with
  | error e =>
    rw [runWithin_of_error hm, runWithin_of_error hm]
    exact .inr rfl
  | ok m =>
    rw [runWithin_of_load hm, runWithin_of_load hm]
    obtain ⟨supply, s, hrun⟩ | hrun :=
      Session.run_extends (o := j.options) h budget (.start m device)
    · rw [hrun]
      exact .inl ⟨supply, _, rfl⟩
    · refine .inr ?_
      rw [← conclude_viewed, ← hrun]
      rfl

end Job

def Outcome.restamped (j : Job) (stamp : Stamp) : Outcome σ → Outcome σ
  | .finished r =>
    .finished ⟨r.machine, r.device, { r.receipt with heading := .ofText j.text j.path stamp }⟩
  | .failed failure device => .failed failure device
  | .unfinished device => .unfinished device

/-- The stamp goes into the receipt and changes nothing else of a run. -/
theorem Job.runWithin_restamped (j : Job) (stamp : Stamp) (budget : Nat) (buffered : Bool)
    (device : σ) : ({ j with stamp } : Job).runWithin budget d buffered device =
      (j.runWithin budget d buffered device).restamped j stamp := by
  cases hm : Machine.load j.catalogue (j.catalogue.program j.text) j.options.memorySize with
  | error e =>
    rw [runWithin_of_error hm, runWithin_of_error (j := { j with stamp }) hm]
    rfl
  | ok m =>
    rw [runWithin_of_load hm, runWithin_of_load (j := { j with stamp }) hm]
    show conclude { j with stamp } buffered ((Session.start m device).run d j.options budget) = _
    cases (Session.start m device).run d j.options budget with
    | finished s =>
      have hsummary : ({ j with stamp } : Job).summary buffered s = j.summary buffered s := rfl
      unfold conclude
      simp only [hsummary]
      cases j.summary buffered s <;> rfl
    | failed failure s => rfl
    | running s => rfl

/-! ## Main statement -/

/-- A job is run on a buffer, with any budget of steps, and once more under another stamp with
further characters and numbers behind those queued. If the first run ends, so does the second, in
the same machine, with the same receipt but for the stamp, and leaves what the first has left with
the further input behind it. If the first run fails, by the step limit or otherwise but not for lack
of input, so does the second, with the same output recorded; and likewise if the budget was too
small. -/
theorem unread_input_has_no_influence (j : Job) (stamp : Stamp) (buffered : Bool) (budget : Nat)
    (b : Buffer) (chars : List Nat) (numbers : List Int) :
    (∀ r, j.runWithin budget Buffer.device buffered b = .finished r →
      r.receipt.heading = .ofText j.text j.path j.stamp ∧
      ({ j with stamp } : Job).runWithin budget Buffer.device buffered (b.fill chars numbers) =
        .finished ⟨r.machine, r.device.fill chars numbers,
          { r.receipt with heading := .ofText j.text j.path stamp }⟩) ∧
    (∀ failure left, j.runWithin budget Buffer.device buffered b = .failed failure left →
      (∀ supply, failure ≠ .fault (.exhausted supply)) →
      ({ j with stamp } : Job).runWithin budget Buffer.device buffered (b.fill chars numbers) =
        .failed failure (left.fill chars numbers)) ∧
    (∀ left, j.runWithin budget Buffer.device buffered b = .unfinished left →
      ({ j with stamp } : Job).runWithin budget Buffer.device buffered (b.fill chars numbers) =
        .unfinished (left.fill chars numbers)) ∧
    ∀ (input more : String) (queued further : List Int),
      Buffer.ofInput (input ++ more) (queued ++ further) =
        (Buffer.ofInput input queued).fill (more.toList.map Char.toNat) further := by
  have hextends : (∃ supply left, j.runWithin budget Buffer.device buffered b =
        .failed (.fault (.exhausted supply)) left) ∨
      ({ j with stamp } : Job).runWithin budget Buffer.device buffered (b.fill chars numbers) =
        ((j.runWithin budget Buffer.device buffered b).viewed (Buffer.fill chars numbers)).restamped
          j stamp := by
    rw [Job.runWithin_restamped j stamp]
    exact (Job.runWithin_extends (Buffer.extends chars numbers) budget b).imp_right
      (congrArg (Outcome.restamped j stamp))
  refine ⟨fun r hr => ?_, fun failure left hf hne => ?_, fun left hu => ?_,
    fun input more q k => ?_⟩
  · rw [hr] at hextends
    obtain ⟨supply, left, h⟩ | h := hextends
    · cases h
    · obtain ⟨m, s, shown, -, -, -, rfl⟩ := Job.runWithin_finished hr
      exact ⟨rfl, h⟩
  · rw [hf] at hextends
    obtain ⟨supply, left', h⟩ | h := hextends
    · cases h
      exact absurd rfl (hne supply)
    · exact h
  · rw [hu] at hextends
    obtain ⟨supply, left', h⟩ | h := hextends
    · cases h
    · exact h
  · unfold Buffer.ofInput Buffer.fill
    rw [String.toList_append, List.map_append]

/-- A run that reads one number of two and no character. -/
theorem unread_input_has_no_influence_one_number :
    ∃ r, (⟨"oom OOM", none, .standard, ⟨1, some 2, true⟩, ⟨"", ""⟩⟩ : Job).run 0 Buffer.device
        true (.ofInput "" [7]) = .finished r ∧
      r.device = ⟨[], [], #[⟨.byte, 7⟩]⟩ ∧
      ∃ r', (⟨"oom OOM", none, .standard, ⟨1, some 2, true⟩, ⟨"now", ""⟩⟩ : Job).run 0 Buffer.device
          true (.ofInput "a" [7, 8]) = .finished r' ∧
        r'.machine = r.machine ∧ r'.device = ⟨[97], [8], #[⟨.byte, 7⟩]⟩ := by
  have hends : ∃ r, (⟨"oom OOM", none, .standard, ⟨1, some 2, true⟩, ⟨"", ""⟩⟩ : Job).run
      0 Buffer.device true (.ofInput "" [7]) = .finished r ∧
      r.device = ⟨[], [], #[⟨.byte, 7⟩]⟩ := ⟨_, rfl, rfl⟩
  obtain ⟨r, hr, hdevice⟩ := hends
  obtain ⟨hfinished, -⟩ := unread_input_has_no_influence _ ⟨"now", ""⟩ true _ _ [97] [8]
  obtain ⟨-, hmore⟩ := hfinished r hr
  refine ⟨r, hr, hdevice, _, hmore, rfl, ?_⟩
  rw [hdevice]
  rfl

end Run

end Moo
