import Moo.Proofs.Run.Direct

/-!
# Runs are transparent

Running a text without a step limit, with or without entries, comes to what loading the program and
stepping the machine on the device comes to (`runs_are_transparent`). The receipts with and without
entries differ in nothing else, the steps reported are the steps made, the output reported is what
the device was asked to write, and the entries tell of the steps one by one.
-/

namespace Moo

variable {σ τ : Type}

/-- Stepping on a device that looks like another goes through the same machines. -/
theorem Host.Steps.lift {π : τ → σ} {d : Device τ} {d₀ : Device σ} (hv : d.View π d₀)
    {m : Machine} {s : τ} {n : Nat} {b : World σ Unit}
    (h : (silent d₀).Steps ⟨m, π s, ()⟩ n b) :
    ∃ s', π s' = b.device ∧ (silent d).Steps ⟨m, s, ()⟩ n ⟨b.machine, s', ()⟩ := by
  induction h with
  | none => exact ⟨s, rfl, .none⟩
  | @snoc n b c hs hf hstep ih =>
    obtain ⟨s', hs', hsteps⟩ := ih
    -- the device behind the view is asked for the same and answers alike
    obtain ⟨bm, bs, bu⟩ := b
    cases hs'
    rw [show (⟨bm, π s', bu⟩ : World σ Unit) = ⟨bm, π s', ()⟩ from rfl, silent_step, hv.on] at hstep
    cases hon : bm.turn.on d s' with
    | ok shift s'' =>
      rw [hon] at hstep
      cases hstep
      refine ⟨s'', rfl, hsteps.snoc hf ?_⟩
      rw [silent_step, hon]
    | error e s'' =>
      rw [hon] at hstep
      cases hstep

namespace Run

def Job.unlimited (text : String) (path : Option String) (t : Catalogue) (memorySize : Int)
    (trace : Bool) (stamp : Stamp) : Job :=
  ⟨text, path, t, ⟨memorySize, none, trace⟩, stamp⟩

variable {d : Device σ} {text : String} {t : Catalogue} {memorySize : Int} {m : Machine} {s : σ}

theorem load_alive {program : List Command} (h : Machine.load t program memorySize = .ok m)
    (hne : program.isEmpty = false) : m.Alive := by
  obtain ⟨-, rfl⟩ := Machine.load_eq h
  cases program with
  | nil => cases hne
  | cons c rest => exact .inr rfl

/-- What ticks from the start leave in the log: as many entries as steps were counted, which are all
of them unless the program has no commands. -/
theorem log_of_ticks {program : List Command} {o : Options}
    (hm : Machine.load t program memorySize = .ok m) (htrace : o.trace = true) {n : Nat}
    {z : Session σ} (h : Session.Ticks d o (.start m s) n z) :
    z.steps = (if program.isEmpty then 0 else n) ∧ z.entries.toList.length = z.steps ∧
      ∀ i e, z.entries.toList[i]? = some e → ∃ u u',
        (Host.silent d).Steps ⟨m, s, ()⟩ i u ∧ (Host.silent d).step u = .ok () u' ∧
          e.Tells d i u u' := by
  cases hp : program.isEmpty with
  | true =>
    rw [List.isEmpty_iff.mp hp] at hm
    obtain ⟨hsteps, hentries⟩ := h.of_empty (Session.Fit.of_start (Machine.Intact.of_load hm) s)
    rw [hsteps, hentries]
    exact ⟨rfl, rfl, fun i e he => by cases he⟩
  | false =>
    have hlog := h.logged htrace (load_alive hm hp)
    rw [Array.length_toList, hlog.size, hlog.steps]
    refine ⟨rfl, rfl, fun i e he => hlog.entries i e ?_⟩
    rw [← Array.getElem?_toList]
    exact he

/-- If stepping ends, so do the runs with and without entries, with the same summary. -/
theorem Job.unlimited_of_ends (path : Option String) (buffered : Bool)
    (hm : Machine.load t (t.program text) memorySize = .ok m) {n : Nat} {v : World σ Unit}
    (h : (Host.silent d).EndsAfter ⟨m, s, ()⟩ n v) :
    ∃ summary entries,
      (∀ trace stamp budget, n ≤ budget →
        (Job.unlimited text path t memorySize trace stamp).runWithin budget d buffered s =
          .finished ⟨v.machine, v.device,
            .ofSummary (.ofText text path stamp) summary (if trace then entries else [])⟩) ∧
      summary.steps = (if (t.program text).isEmpty then 0 else n) ∧
      entries.length = summary.steps ∧
      ∀ i e, entries[i]? = some e → ∃ u u',
        (Host.silent d).Steps ⟨m, s, ()⟩ i u ∧ (Host.silent d).step u = .ok () u' ∧
          e.Tells d i u u' := by
  have hstart : (Session.start m s).world = ⟨m, s, ()⟩ := rfl
  rw [← hstart] at h
  obtain ⟨z, hticks, rfl, hrun⟩ := Session.run_of_ends (o := ⟨memorySize, none, true⟩) rfl h
  have hfit := hticks.fit (Session.Fit.of_start (Machine.Intact.of_load hm) s)
  obtain ⟨shown, hshown⟩ := hfit.render
  obtain ⟨hsteps, hlength, hentries⟩ := log_of_ticks hm rfl hticks
  refine ⟨(Job.unlimited text path t memorySize true ⟨"", ""⟩).summaryWith
    (if buffered then some shown else none) z, z.entries.toList, ?_, hsteps, hlength, hentries⟩
  intro trace stamp budget hb
  rw [runWithin_of_load (j := .unlimited text path t memorySize trace stamp) hm]
  cases trace with
  | true =>
    show Job.conclude _ buffered (Session.run d ⟨memorySize, none, true⟩ budget _) = _
    rw [hrun budget hb, conclude_finished hshown]
    rfl
  | false =>
    -- without entries the session comes to the same, its entries left out
    obtain ⟨k, rfl⟩ := Nat.exists_eq_add_of_le hb
    have hfalse := hticks.untraced.run k
    rw [Session.run_of_finished (s := z.untraced) h.2] at hfalse
    show Job.conclude _ buffered
      (Session.run d (Options.untraced ⟨memorySize, none, true⟩) (n + k)
        (Session.start m s).untraced) = _
    rw [hfalse, conclude_finished (s := z.untraced) hshown]
    rfl

theorem Job.unlimited_of_fails (path : Option String) (buffered : Bool)
    (hm : Machine.load t (t.program text) memorySize = .ok m) {n : Nat} {e : Fault}
    {v : World σ Unit} (h : (Host.silent d).FailsAfter ⟨m, s, ()⟩ n e v) (trace : Bool)
    (stamp : Stamp) (budget : Nat) (hb : n < budget) :
    (Job.unlimited text path t memorySize trace stamp).runWithin budget d buffered s =
      .failed (.fault e) v.device := by
  have hstart : (Session.start m s).world = ⟨m, s, ()⟩ := rfl
  rw [← hstart] at h
  obtain ⟨z, hrun, rfl⟩ :=
    Session.run_of_fails (o := ⟨memorySize, none, trace⟩) rfl h budget hb
  rw [runWithin_of_load (j := .unlimited text path t memorySize trace stamp) hm]
  show Job.conclude _ buffered (Session.run d ⟨memorySize, none, trace⟩ budget _) = _
  rw [hrun]
  rfl

theorem Job.unlimited_of_diverges (path : Option String) (buffered : Bool)
    (hm : Machine.load t (t.program text) memorySize = .ok m)
    (h : (Host.silent d).Diverges ⟨m, s, ()⟩) (trace : Bool) (stamp : Stamp) (budget : Nat) :
    ∃ s', (Job.unlimited text path t memorySize trace stamp).runWithin budget d buffered s =
      .unfinished s' := by
  have hstart : (Session.start m s).world = ⟨m, s, ()⟩ := rfl
  rw [← hstart] at h
  obtain ⟨z, hrun⟩ := Session.run_of_diverges (o := ⟨memorySize, none, trace⟩) rfl h budget
  refine ⟨z.device.1, ?_⟩
  rw [runWithin_of_load (j := .unlimited text path t memorySize trace stamp) hm]
  show Job.conclude _ buffered (Session.run d ⟨memorySize, none, trace⟩ budget _) = _
  rw [hrun]
  rfl

/-- Running a text, with entries or without, and stepping its machine on the device come to the
same: none of them loads, or none of them ends, or all fail alike, or all end alike. -/
theorem runs_are_transparent (d : Device σ) (buffered : Bool) (text : String)
    (path : Option String) (t : Catalogue) (memorySize : Int) (s : σ) :
    (∃ e, Machine.load t (t.program text) memorySize = .error e ∧
      ∀ trace stamp budget,
        (Job.unlimited text path t memorySize trace stamp).runWithin budget d buffered s =
          .failed (.load e) s) ∨
    ∃ m, Machine.load t (t.program text) memorySize = .ok m ∧
      (((Host.silent d).Diverges ⟨m, s, ()⟩ ∧
          ∀ trace stamp budget, ∃ s',
            (Job.unlimited text path t memorySize trace stamp).runWithin budget d buffered s =
              .unfinished s') ∨
        (∃ n e v, (Host.silent d).FailsAfter ⟨m, s, ()⟩ n e v ∧
          ∀ trace stamp budget, n < budget →
            (Job.unlimited text path t memorySize trace stamp).runWithin budget d buffered s =
              .failed (.fault e) v.device) ∨
        ∃ n v journal summary entries,
          (Host.silent d).EndsAfter ⟨m, s, ()⟩ n v ∧
          (Host.silent d.journaled).EndsAfter ⟨m, (s, #[]), ()⟩ n
            ⟨v.machine, (v.device, journal), ()⟩ ∧
          (∀ trace stamp budget, n ≤ budget →
            (Job.unlimited text path t memorySize trace stamp).runWithin budget d buffered s =
              .finished ⟨v.machine, v.device,
                .ofSummary (.ofText text path stamp) summary (if trace then entries else [])⟩ ∧
            (Job.unlimited text path t memorySize trace stamp).runWithin budget d.journaled
                buffered (s, #[]) =
              .finished ⟨v.machine, (v.device, journal),
                .ofSummary (.ofText text path stamp) summary (if trace then entries else [])⟩) ∧
          summary.steps = (if (t.program text).isEmpty then 0 else n) ∧
          summary.output = Transfer.outputs journal.toList ∧
          entries.length = summary.steps ∧
          ∀ i e, entries[i]? = some e → ∃ u u',
            (Host.silent d).Steps ⟨m, s, ()⟩ i u ∧ (Host.silent d).step u = .ok () u' ∧
              e.Tells d i u u') := by
  cases hm : Machine.load t (t.program text) memorySize with
  | error e =>
    exact .inl ⟨e, rfl, fun trace stamp budget =>
      Job.runWithin_of_error (j := .unlimited text path t memorySize trace stamp) hm budget d s⟩
  | ok m =>
    refine .inr ⟨m, rfl, ?_⟩
    rcases (Host.silent d).ends_fails_or_diverges ⟨m, s, ()⟩ with
      ⟨n, v, hends⟩ | ⟨n, e, v, hfails⟩ | hdiv
    · obtain ⟨summary, entries, hruns, hsteps, hlength, hentries⟩ :=
        Job.unlimited_of_ends path buffered hm hends
      obtain ⟨⟨s', journal⟩, rfl, hj⟩ :=
        Host.Steps.lift (Device.View.journaled d) (s := (s, #[])) hends.1
      obtain ⟨summary', entries', hruns', -⟩ :=
        Job.unlimited_of_ends (d := d.journaled) path buffered hm ⟨hj, hends.2⟩
      -- the run with a journal leaves the same journal whatever else is chosen
      have hjournaled : ∀ trace stamp budget, n ≤ budget →
          (Job.unlimited text path t memorySize trace stamp).runWithin budget d.journaled buffered
              (s, #[]) =
            .finished ⟨v.machine, (v.device, journal),
              .ofSummary (.ofText text path stamp) summary (if trace then entries else [])⟩ ∧
          summary.output = Transfer.outputs journal.toList := by
        intro trace stamp budget hb
        obtain ⟨journal', hrun, hout⟩ := Job.runWithin_journaled (hruns trace stamp budget hb)
        have h := hruns' trace stamp budget hb
        rw [hrun] at h
        have hsame : journal' = journal := by
          injection h with h
          injection h with _ h
          injection h
        rw [hsame] at hrun hout
        exact ⟨hrun, hout summary rfl⟩
      refine .inr (.inr ⟨n, v, journal, summary, entries, hends, ⟨hj, hends.2⟩, ?_, hsteps, ?_,
        hlength, hentries⟩)
      · intro trace stamp budget hb
        exact ⟨hruns trace stamp budget hb, (hjournaled trace stamp budget hb).1⟩
      · exact (hjournaled true ⟨"", ""⟩ n (Nat.le_refl n)).2
    · exact .inr (.inl ⟨n, e, v, hfails, Job.unlimited_of_fails path buffered hm hfails⟩)
    · exact .inl ⟨hdiv, Job.unlimited_of_diverges path buffered hm hdiv⟩

end Run

end Moo
