import Moo.Proofs.Machine.Appended
import Moo.Proofs.Machine.Control
import Moo.Proofs.Machine.Loop
import Moo.Proofs.Run.Limit
import Moo.Proofs.Run.Shape

/-!
# Programs without loops

A program of the language is free of loops if no loop start is followed, right behind the next
command or later, by a command that may go back, be it by itself or by what the cell names. On such
a program no step goes back (`LoopFree.not_goesBack`), so after `k` steps the counter is `k`
(`Host.Steps.straight`), whatever the cells hold and whatever is skipped, and the machine ends with
the program if nothing ends it before (`loop_free_programs_end_in_time`).
-/

namespace Moo

variable {σ ω ω' : Type}

/-! ## Commands that may go back -/

/-- No loop start is followed, right behind the next command or later, by a command that may go
back: the one that looks for a loop start, or the one that runs a cell. -/
def LoopFree (program : List Command) : Prop :=
  ∀ i j : Fin program.length, program[i].name = "MOO" → i.val + 2 ≤ j.val →
    program[j].name ≠ "moo" ∧ program[j].name ≠ "mOO"

instance (program : List Command) : Decidable (LoopFree program) :=
  inferInstanceAs (Decidable (∀ i j : Fin program.length, program[i].name = "MOO" →
    i.val + 2 ≤ j.val → program[j].name ≠ "moo" ∧ program[j].name ≠ "mOO"))

theorem Catalogue.standard_name_of_loopBack {i : Int} {c : Command}
    (h : standard.at? i = some c) (hc : c.effect = .loopBack) : c.name = "moo" := by
  have hrows : ∀ row ∈ standardRows, row.2 = .loopBack → row.1 = "moo" := by decide
  exact hrows _ (standard_row h) hc

/-- In the language two commands may stand for going back. -/
theorem Machine.Means.name_of_loopBack {m : Machine} {c : Command} {e : Effect} (h : m.Means c e)
    (he : e = .loopBack) (hc : Catalogue.standard.at? c.id = some c) :
    c.name = "moo" ∨ c.name = "mOO" := by
  cases h with
  | own _ => exact .inl (Catalogue.standard_name_of_loopBack hc he)
  | cell hrun _ _ => exact .inr ((Catalogue.standard_effect_iff hc).mp hrun)

theorem LoopFree.not_goesBack {m : Machine} {c : Command} {program : List Command}
    {memorySize : Int} (h : LoopFree program) (hi : m.Intact .standard program memorySize)
    (hp : ∀ k ∈ program, Catalogue.standard.at? k.id = some k) (hc : m.command? = some c) :
    ¬ m.GoesBack c := by
  rintro ⟨-, hmeans, i, hbefore, k, hk, hstart⟩
  have hlist : ∀ j : Nat, m.program[j]? = program[j]? := fun j => by
    rw [hi.program, List.getElem?_toArray]
  rw [hi.catalogue] at hstart
  obtain rfl : Catalogue.standardStart = k :=
    Option.some.inj (Catalogue.standard_named?_start.symm.trans hstart)
  rw [hlist i] at hk
  have hback : program[m.counter]? = some c := (hlist m.counter).symm.trans hc
  obtain ⟨hlt, hfound⟩ := List.getElem?_eq_some_iff.mp hk
  obtain ⟨hlt', rfl⟩ := List.getElem?_eq_some_iff.mp hback
  obtain ⟨hmoo, hmOO⟩ := h ⟨i, hlt⟩ ⟨m.counter, hlt'⟩ (congrArg Command.name hfound) hbefore
  exact (hmeans.name_of_loopBack rfl (hp _ (List.getElem_mem hlt'))).elim hmoo hmOO

/-! ## Steps -/

namespace Host

/-- Where one host shows another, the steps of the one are those of the other. -/
theorem Shows.steps {π : ω → ω'} {h : Host σ ω} {h' : Host σ ω'} (H : h.Shows π h') {a : World σ ω}
    {n : Nat} {b' : World σ ω'} (hb : h'.Steps (a.heard π) n b') :
    ∃ b, h.Steps a n b ∧ b.heard π = b' := by
  induction hb with
  | none => exact ⟨a, .none, rfl⟩
  | snoc _ hf hstep ih =>
    obtain ⟨b, hb, rfl⟩ := ih
    rw [H.step b] at hstep
    cases hr : h.step b with
    | ok u c =>
      rw [hr] at hstep
      cases hstep
      exact ⟨c, hb.snoc hf hr, rfl⟩
    | error e c =>
      rw [hr] at hstep
      cases hstep

theorem watching_shows_silent {d : Device σ} {note : Event → World σ (Recorded ω) → ω} :
    (watching d note).Shows (fun _ => ()) (silent d) where
  device := rfl
  announce _ _ := rfl

variable {d : Device σ} {note : Event → World σ (Recorded ω) → ω} {m : Machine} {s : σ} {own : ω}
  {b : World σ (Recorded ω)} {program : List Command} {memorySize : Int} {k : Nat}

/-- After `k` steps on a program without loops the counter is `k`. -/
theorem Steps.straight (h : (watching d note).Steps ⟨m, s, .ofOwn own⟩ k b) (hne : program ≠ [])
    (hfree : LoopFree program) (hload : Machine.load .standard program memorySize = .ok m) :
    b.UnderWay ∧ b.machine.Intact .standard program memorySize ∧ b.machine.counter = k := by
  induction h with
  | none =>
    refine ⟨.of_load hne hload s own, .of_load hload, ?_⟩
    obtain ⟨-, rfl⟩ := Machine.load_eq hload
    rfl
  | @snoc k b c _ hf hstep ih =>
    obtain ⟨hu, hi, hcount⟩ := ih
    obtain ⟨e, he⟩ := hu.alive.command hf
    obtain ⟨fired, hon, -⟩ := turn_of_watching_step hstep
    have hback := hfree.not_goesBack hi (Machine.load_commands hload) he
    refine ⟨underWay_step hu hf hstep, (Calls.none.snoc hstep).intact hi, ?_⟩
    rw [← hcount]
    exact Machine.counter_of_turn hu.resting hf he hback (Turn.yields_of_on hon)

/-- So it has made fewer steps than the program has commands as long as it has not ended. -/
theorem Steps.unfinished (h : (watching d note).Steps ⟨m, s, .ofOwn own⟩ k b) (hne : program ≠ [])
    (hfree : LoopFree program) (hload : Machine.load .standard program memorySize = .ok m)
    (hf : b.machine.finished = false) : b.machine.counter = k ∧ k < program.length := by
  obtain ⟨hu, hi, hcount⟩ := h.straight hne hfree hload
  obtain ⟨c, hc⟩ := hu.alive.command hf
  have hlt := Machine.counter_lt hc
  rw [hi.program, List.size_toArray, hcount] at hlt
  exact ⟨hcount, hlt⟩

theorem EndsAfter.length_or_refused (h : (watching d note).EndsAfter ⟨m, s, .ofOwn own⟩ k b)
    (hne : program ≠ []) (hfree : LoopFree program)
    (hload : Machine.load .standard program memorySize = .ok m) :
    k ≤ program.length ∧ (k = program.length ∨ ∃ info, .badEval info ∈ b.audience.events) := by
  obtain ⟨hb, hend⟩ := h
  obtain ⟨hu, hi, hcount⟩ := hb.straight hne hfree hload
  have hle := hu.resting.counter
  rw [hi.program, List.size_toArray, hcount] at hle
  refine ⟨hle, ?_⟩
  cases hb with
  | none =>
    obtain ⟨-, rfl⟩ := Machine.load_eq hload
    cases hend
  | @snoc k v _ hv hf hstep =>
    obtain ⟨hu', hi', -⟩ := hv.straight hne hfree hload
    obtain ⟨fired, hs⟩ := shaped_of_step hu'.resting hi' (Machine.load_commands hload) hstep
    obtain ⟨info, hinfo⟩ | hlast := (hs.ends hf).mp hend
    · refine .inr ⟨info, ?_⟩
      rw [hs.events]
      exact Array.mem_append_right _ (List.mem_toArray.mpr hinfo)
    · exact .inl (hcount.symm.trans hlast)

end Host

/-! ## Main statement -/

/-- A program of the language that is not empty and free of loops, on any number of cells and any
device, before subscribers that only watch. As long as the machine has not ended, the counter is the
number of steps made, which is less than the length of the program. The machine ends after just as
many steps as the program has commands, or ends before with a refusal, or a step before is cut short
by the device. So a run of a text with this program under a limit of that many steps, or more, ends
or fails, and never because of the limit. -/
theorem Run.loop_free_programs_end_in_time {program : List Command} (hne : program ≠ [])
    (hfree : LoopFree program) (d : Device σ) (s : σ) :
    (∀ memorySize m, Machine.load .standard program memorySize = .ok m →
      ∀ (note : Event → World σ (Recorded ω) → ω) (own : ω),
        let h := Host.watching d note
        let start : World σ (Recorded ω) := ⟨m, s, .ofOwn own⟩
        (∀ k b, h.Steps start k b → b.machine.finished = false →
          b.machine.counter = k ∧ k < program.length) ∧
        ((∃ b, h.EndsAfter start program.length b) ∨
          (∃ n b info, n ≤ program.length ∧ h.EndsAfter start n b ∧
            .badEval info ∈ b.audience.events) ∨
          ∃ n b e c, n < program.length ∧ h.Steps start n b ∧ b.machine.finished = false ∧
            h.step b = .error e c ∧ d.Fails b.device e c.device)) ∧
    ∀ (patience : Nat) (j : Job) (buffered : Bool) (limit : Int), j.catalogue = .standard →
      j.catalogue.program j.text = program → j.options.maxSteps = some limit →
        program.length ≤ limit →
          (∃ r, j.run patience d buffered s = .finished r) ∨
            (∃ e s', j.run patience d buffered s = .failed (.fault e) s') ∨
            ∃ e, j.run patience d buffered s = .failed (.load e) s := by
  refine ⟨fun memorySize m hload note own => ⟨fun _ _ hb hf => hb.unfinished hne hfree hload hf, ?_⟩, ?_⟩
  · obtain ⟨b, hb, hf⟩ | ⟨n, b, -, hends⟩ | ⟨n, e, c, hn, b, hb, hf, hstep⟩ :=
      (Host.watching d note).steps_or_stops ⟨m, s, .ofOwn own⟩ program.length
    · exact absurd (hb.unfinished hne hfree hload hf).2 (Nat.lt_irrefl _)
    · obtain ⟨hn, rfl | ⟨info, hinfo⟩⟩ := hends.length_or_refused hne hfree hload
      · exact .inl ⟨b, hends⟩
      · exact .inr (.inl ⟨n, b, info, hn, hends, hinfo⟩)
    · obtain ⟨-, hi, -⟩ := hb.straight hne hfree hload
      obtain ⟨hon, -⟩ := Host.turn_of_watching_step_error hstep
      have hservable := hi.servable Catalogue.standard_soleRunner (Machine.load_commands hload)
      exact .inr (.inr ⟨n, b, e, c, hn, hb, hf, hstep, hservable.fails hon⟩)
  · rintro patience j buffered limit hj rfl hmax hle
    obtain ⟨bound, rfl⟩ := Int.eq_ofNat_of_zero_le (Int.le_trans (Int.natCast_nonneg _) hle)
    have hlimited : j.limited (some bound) = j := by
      unfold Job.limited
      rw [← hmax]
    rw [← hlimited]
    cases hm : Machine.load j.catalogue (j.catalogue.program j.text) j.options.memorySize with
    | error e => exact .inr (.inr ⟨e, Job.runWithin_of_error (j := j.limited (some bound)) hm _ d s⟩)
    | ok m =>
      have hload : Machine.load .standard (j.catalogue.program j.text) j.options.memorySize = .ok m :=
        hj ▸ hm
      obtain ⟨v, hv, hf⟩ | ⟨n, v, hn, hv⟩ | ⟨n, e, v, hn, hv⟩ :=
        (Host.silent d).steps_or_stops ⟨m, s, ()⟩ bound
      · -- so many steps cannot be made without an end
        let h : Host σ (Recorded Unit) := .watching d fun _ _ => ()
        have hshows : h.Shows (fun _ => ()) (.silent d) := Host.watching_shows_silent
        obtain ⟨b, hb, rfl⟩ := hshows.steps (a := ⟨m, s, .ofOwn ()⟩) hv
        have hlt := (hb.unfinished hne hfree hload hf).2
        omega
      · obtain ⟨r, -, -, -, hrun⟩ := Job.limited_of_ends buffered hm hv
        exact .inl ⟨r, hrun bound hn⟩
      · exact .inr (.inl ⟨e, v.device, Job.limited_of_fails hm hv hn⟩)

/-- A skip over the command that goes back: after two steps the counter is two, and a limit of three
steps is not exceeded. -/
theorem Run.loop_free_programs_end_in_time_skipped :
    let program : List Command :=
      [⟨0, 7, "MOO", .skipIfZero⟩, ⟨0, 0, "moo", .loopBack⟩, ⟨0, 6, "MoO", .increment⟩]
    let m : Machine := ⟨.standard, program.toArray, #[0], 0, 0, none, .none, false, false, false⟩
    let h : Host Buffer (Recorded Unit) := .watching Buffer.device fun _ _ => ()
    let b := h.step.final (h.step.final ⟨m, .ofInput "" [], .ofOwn ()⟩)
    let j : Job := ⟨"MOO moo MoO", none, .standard, ⟨1, some 3, false⟩, ⟨"", ""⟩⟩
    program ≠ [] ∧ LoopFree program ∧ Machine.load .standard program 1 = .ok m ∧
      h.Steps ⟨m, .ofInput "" [], .ofOwn ()⟩ 2 b ∧ b.machine.finished = false ∧
      b.machine.counter = 2 ∧ j.catalogue.program j.text = program ∧
      ∀ limit s, j.run 0 Buffer.device true (.ofInput "" []) ≠ .failed (.stepLimit limit) s := by
  intro program m h b j
  have hne : program ≠ [] := List.cons_ne_nil _ _
  have hfree : LoopFree program := by decide
  have hload : Machine.load .standard program 1 = .ok m := rfl
  have hsteps : h.Steps ⟨m, .ofInput "" [], .ofOwn ()⟩ 2 b := .snoc (.snoc .none rfl rfl) rfl rfl
  have hprogram : j.catalogue.program j.text = program := by decide +kernel
  obtain ⟨hmachine, hruns⟩ :=
    Run.loop_free_programs_end_in_time (ω := Unit) hne hfree Buffer.device (.ofInput "" [])
  obtain ⟨hcount, -⟩ := (hmachine 1 m hload (fun _ _ => ()) ()).1 2 b hsteps rfl
  refine ⟨hne, hfree, hload, hsteps, rfl, hcount, hprogram, fun limit s => ?_⟩
  obtain ⟨r, hr⟩ | ⟨e, s', hr⟩ | ⟨e, hr⟩ := hruns 0 j true 3 rfl hprogram rfl (by decide) <;>
    (rw [hr]; nofun)

end Moo
