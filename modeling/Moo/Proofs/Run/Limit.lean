import Moo.Device.Buffer
import Moo.Proofs.Run.Transparent

/-!
# The step limit

A session that has not ended has counted every step (`Session.Ticks.steps_of_unfinished`), so a
limit stops it after just as many steps as it allows and changes nothing before
(`Session.Ticks.limited`). A run under a limit therefore comes to what the run without one comes to
within so many steps, and otherwise says that the limit was exceeded (`step_limit_is_exact`).
-/

namespace Moo.Run

variable {σ : Type} {d : Device σ}

/-! ## Sessions under a limit -/

namespace Session

variable {o o' : Options} {s s₀ s' : Session σ} {n limit : Nat}

/-- Options matter to a tick only by the limit and by whether there are entries. -/
theorem tick_of_allowed (ho : o.exhaustedAt s.steps = false) (ho' : o'.exhaustedAt s.steps = false)
    (htrace : o'.trace = o.trace) : tick d o' s = tick d o s := by
  unfold tick
  simp only [ho, ho', htrace]
  rfl

theorem Ticks.steps_of_unfinished (h : Ticks d o s₀ n s) (hf : s.machine.finished = false) :
    s.steps = s₀.steps + n := by
  induction h with
  | none => rfl
  | @snoc n s s' _ hb ht ih =>
    obtain ⟨-, x, device, hon, rfl⟩ := tick_turn ht
    cases hc : s.machine.command? with
    | none =>
      -- such a step would have ended the machine
      rw [Machine.turn_of_none hc] at hon
      cases hon
      rw [after_machine, Machine.ended_finished] at hf
      cases hf
    | some c =>
      rw [after_of_some hc]
      show s.steps + 1 = _
      rw [ih hb, Nat.add_assoc]

theorem exhaustedAt_some {size : Int} {trace : Bool} {steps : Nat} :
    Options.exhaustedAt ⟨size, some limit, trace⟩ steps = decide (limit ≤ steps) := by
  show decide ((limit : Int) ≤ steps) = _
  rw [decide_eq_decide]
  exact Int.ofNat_le

variable {size : Int} {trace : Bool}

theorem tick_limited (hs : s.steps < limit) :
    tick d ⟨size, some limit, trace⟩ s = tick d ⟨size, none, trace⟩ s := by
  refine tick_of_allowed rfl ?_ rfl
  rw [exhaustedAt_some]
  exact decide_eq_false (Nat.not_le_of_lt hs)

/-- As many steps as the limit allows are made under it just as without it. -/
theorem Ticks.limited {m : Machine} {device : σ}
    (h : Ticks d ⟨size, .none, trace⟩ (.start m device) n s) (hn : n ≤ limit) :
    Ticks d ⟨size, some limit, trace⟩ (.start m device) n s := by
  induction h with
  | none => exact .none
  | @snoc n s s' hticks hf ht ih =>
    -- the steps counted so far are those made, fewer than the limit
    have hsteps : s.steps = 0 + n := hticks.steps_of_unfinished hf
    refine (ih (Nat.le_of_succ_le hn)).snoc hf ?_
    rw [tick_limited (by omega)]
    exact ht

end Session

/-! ## Runs under a limit -/

namespace Job

def limited (limit : Option Int) (j : Job) : Job :=
  { j with options := { j.options with maxSteps := limit } }

variable {j : Job} {buffered : Bool} {m : Machine} {s : σ} {n limit patience : Nat}

theorem limited_of_load
    (hm : Machine.load j.catalogue (j.catalogue.program j.text) j.options.memorySize = .ok m)
    (limit : Option Int) (budget : Nat) (d : Device σ) (s : σ) :
    (j.limited limit).runWithin budget d buffered s =
      j.conclude buffered ((Session.start m s).run d
        ⟨j.options.memorySize, limit, j.options.trace⟩ budget) :=
  runWithin_of_load (j := j.limited limit) hm budget d s

/-- The budget of a run under a limit allows for all its steps. -/
theorem run_limited : (j.limited (some limit)).run patience d buffered s =
    (j.limited (some limit)).runWithin (limit + 2) d buffered s := rfl

/-- If stepping ends within the limit, the run under it comes to what the run without it does. -/
theorem limited_of_ends (buffered : Bool)
    (hm : Machine.load j.catalogue (j.catalogue.program j.text) j.options.memorySize = .ok m)
    {v : World σ Unit} (h : (Host.silent d).EndsAfter ⟨m, s, ()⟩ n v) :
    ∃ r : Result σ, r.machine = v.machine ∧ r.device = v.device ∧
      (∀ budget, n ≤ budget → (j.limited none).runWithin budget d buffered s = .finished r) ∧
      ∀ limit : Nat, n ≤ limit →
        (j.limited (some limit)).run patience d buffered s = .finished r := by
  have hstart : (Session.start m s).world = ⟨m, s, ()⟩ := rfl
  rw [← hstart] at h
  obtain ⟨z, hticks, rfl, hrun⟩ :=
    Session.run_of_ends (o := ⟨j.options.memorySize, none, j.options.trace⟩) rfl h
  have hfit := hticks.fit (Session.Fit.of_start (Machine.Intact.of_load hm) s)
  obtain ⟨shown, hshown⟩ := hfit.render
  refine ⟨j.result (if buffered then some shown else none) z, rfl, rfl, ?_, ?_⟩
  · intro budget hb
    rw [limited_of_load hm, hrun budget hb, conclude_finished hshown]
  · intro limit hn
    have hend := (hticks.limited hn).run (limit + 2 - n)
    rw [Session.run_of_finished h.2, Nat.add_sub_of_le (by omega)] at hend
    rw [run_limited, limited_of_load hm, hend, conclude_finished hshown]

/-- If stepping fails within the limit, so does the run under it. -/
theorem limited_of_fails
    (hm : Machine.load j.catalogue (j.catalogue.program j.text) j.options.memorySize = .ok m)
    {e : Fault} {v : World σ Unit} (h : (Host.silent d).FailsAfter ⟨m, s, ()⟩ n e v)
    (hn : n < limit) :
    (j.limited (some limit)).run patience d buffered s = .failed (.fault e) v.device := by
  have hstart : (Session.start m s).world = ⟨m, s, ()⟩ := rfl
  rw [← hstart] at h
  obtain ⟨b, hsteps, hf, hstep⟩ := h
  obtain ⟨z, hticks, rfl⟩ := Session.ticks_of_steps
    (o := ⟨j.options.memorySize, none, j.options.trace⟩) rfl hsteps
  obtain ⟨z', ht, rfl⟩ := Session.tick_of_silent_error
    (o := ⟨j.options.memorySize, none, j.options.trace⟩) rfl hstep
  have hcount : z.steps = 0 + n := hticks.steps_of_unfinished hf
  have hallowed : z.steps < limit := by omega
  rw [← Session.tick_limited hallowed] at ht
  have hrun := (hticks.limited (Nat.le_of_lt hn)).run (limit + 1 - n + 1)
  rw [Session.run_of_error hf ht, show n + (limit + 1 - n + 1) = limit + 2 by omega] at hrun
  rw [run_limited, limited_of_load hm, hrun]
  rfl

/-- If as many steps as the limit allows are not the last, the run under it makes them and stops. -/
theorem limited_of_steps
    (hm : Machine.load j.catalogue (j.catalogue.program j.text) j.options.memorySize = .ok m)
    {v : World σ Unit} (h : (Host.silent d).Steps ⟨m, s, ()⟩ limit v)
    (hf : v.machine.finished = false) :
    (j.limited (some limit)).run patience d buffered s = .failed (.stepLimit limit) v.device := by
  have hstart : (Session.start m s).world = ⟨m, s, ()⟩ := rfl
  rw [← hstart] at h
  obtain ⟨z, hticks, rfl⟩ := Session.ticks_of_steps
    (o := ⟨j.options.memorySize, none, j.options.trace⟩) rfl h
  have hcount : z.steps = 0 + limit := hticks.steps_of_unfinished hf
  have hexhausted :
      Options.exhaustedAt ⟨j.options.memorySize, some limit, j.options.trace⟩ z.steps = true := by
    rw [Session.exhaustedAt_some]
    exact decide_eq_true (by omega)
  have hrun := (hticks.limited (Nat.le_refl limit)).run 2
  rw [Session.run_of_error hf (Session.tick_of_exhausted hexhausted)] at hrun
  rw [run_limited, limited_of_load hm, hrun]
  rfl

end Job

/-- A run under a step limit. If the program cannot be loaded, or the run without a limit ends or
fails within so many steps, it comes to the same. Otherwise it makes just so many steps, with all
that they read and write, and says that the limit was exceeded. A run that ends under a limit ends
with the same result under every larger one. -/
theorem step_limit_is_exact (patience : Nat) (d : Device σ) (buffered : Bool) (j : Job) (s : σ)
    (limit : Nat) :
    (∀ e, Machine.load j.catalogue (j.catalogue.program j.text) j.options.memorySize = .error e →
      (∀ budget, (j.limited none).runWithin budget d buffered s = .failed (.load e) s) ∧
      (j.limited (some limit)).run patience d buffered s = .failed (.load e) s) ∧
    (∀ m, Machine.load j.catalogue (j.catalogue.program j.text) j.options.memorySize = .ok m →
      (∀ n v, (Host.silent d).EndsAfter ⟨m, s, ()⟩ n v → n ≤ limit →
        ∃ r : Result σ, r.machine = v.machine ∧ r.device = v.device ∧
          (∀ budget, n ≤ budget → (j.limited none).runWithin budget d buffered s = .finished r) ∧
          (j.limited (some limit)).run patience d buffered s = .finished r) ∧
      (∀ n e v, (Host.silent d).FailsAfter ⟨m, s, ()⟩ n e v → n < limit →
        (∀ budget, n < budget →
          (j.limited none).runWithin budget d buffered s = .failed (.fault e) v.device) ∧
        (j.limited (some limit)).run patience d buffered s = .failed (.fault e) v.device) ∧
      ((∀ n v, (Host.silent d).EndsAfter ⟨m, s, ()⟩ n v → limit < n) →
        (∀ n e v, (Host.silent d).FailsAfter ⟨m, s, ()⟩ n e v → limit ≤ n) →
        ∃ v journal, (Host.silent d).Steps ⟨m, s, ()⟩ limit v ∧
          (Host.silent d.journaled).Steps ⟨m, (s, #[]), ()⟩ limit
            ⟨v.machine, (v.device, journal), ()⟩ ∧
          (j.limited (some limit)).run patience d buffered s = .failed (.stepLimit limit) v.device ∧
          (j.limited (some limit)).run patience d.journaled buffered (s, #[]) =
            .failed (.stepLimit limit) (v.device, journal))) ∧
    ∀ r, (j.limited (some limit)).run patience d buffered s = .finished r →
      ∀ limit' : Nat, limit ≤ limit' →
        (j.limited (some limit')).run patience d buffered s = .finished r := by
  refine ⟨?_, ?_, ?_⟩
  · intro e hm
    exact ⟨fun budget => Job.runWithin_of_error (j := j.limited none) hm budget d s,
      Job.runWithin_of_error (j := j.limited (some limit)) hm _ d s⟩
  · intro m hm
    refine ⟨?_, ?_, ?_⟩
    · intro n v hends hn
      obtain ⟨r, hmachine, hdevice, hfree, hlimited⟩ := Job.limited_of_ends buffered hm hends
      exact ⟨r, hmachine, hdevice, hfree, hlimited limit hn⟩
    · intro n e v hfails hn
      exact ⟨Job.unlimited_of_fails j.path buffered hm hfails j.options.trace j.stamp,
        Job.limited_of_fails hm hfails hn⟩
    · intro hends hfails
      obtain ⟨v, hv, hf⟩ | ⟨n, v, hn, hv⟩ | ⟨n, e, v, hn, hv⟩ :=
        (Host.silent d).steps_or_stops ⟨m, s, ()⟩ limit
      · obtain ⟨⟨s', journal⟩, rfl, hj⟩ :=
          Host.Steps.lift (Device.View.journaled d) (s := (s, #[])) hv
        exact ⟨v, journal, hv, hj, Job.limited_of_steps hm hv hf, Job.limited_of_steps hm hj hf⟩
      · exact absurd (hends n v hv) (by omega)
      · exact absurd (hfails n e v hv) (by omega)
  · intro r hr limit' hle
    cases hm : Machine.load j.catalogue (j.catalogue.program j.text) j.options.memorySize with
    | error e =>
      rw [Job.run, Job.runWithin_of_error (j := j.limited (some limit)) hm] at hr
      cases hr
    | ok m =>
      obtain ⟨v, hv, hf⟩ | ⟨n, v, hn, hv⟩ | ⟨n, e, v, hn, hv⟩ :=
        (Host.silent d).steps_or_stops ⟨m, s, ()⟩ limit
      · rw [Job.limited_of_steps hm hv hf] at hr
        cases hr
      · obtain ⟨r', -, -, -, hlimited⟩ := Job.limited_of_ends buffered hm hv
        rw [hlimited limit hn] at hr
        rw [hlimited limit' (Nat.le_trans hn hle), hr]
      · rw [Job.limited_of_fails hm hv hn] at hr
        cases hr

/-- Two steps are enough for two commands, and so are nine; after one step nothing is written
yet. -/
theorem step_limit_is_exact_boundary :
    let j : Job := ⟨"MoO OOM", none, .standard, ⟨1, none, false⟩, ⟨"", ""⟩⟩
    (∃ r, (j.limited (some (2 : Nat))).run 0 Buffer.device true (.ofInput "" []) = .finished r ∧
        r.device.output = #[⟨.byte, 1⟩] ∧
        (j.limited (some (9 : Nat))).run 0 Buffer.device true (.ofInput "" []) = .finished r) ∧
      (j.limited (some (1 : Nat))).run 0 Buffer.device true (.ofInput "" []) =
        .failed (.stepLimit 1) (.ofInput "" []) := by
  have hends : ∃ r, (Job.limited (some (2 : Nat))
      ⟨"MoO OOM", none, .standard, ⟨1, none, false⟩, ⟨"", ""⟩⟩).run 0 Buffer.device true
        (.ofInput "" []) = .finished r ∧ r.device.output = #[⟨.byte, 1⟩] := ⟨_, rfl, rfl⟩
  obtain ⟨r, hr, hout⟩ := hends
  exact ⟨⟨r, hr, hout, (step_limit_is_exact 0 Buffer.device true _ _ 2).2.2 r hr 9 (by decide)⟩, rfl⟩

end Moo.Run
