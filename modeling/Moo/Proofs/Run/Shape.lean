import Moo.Proofs.Machine.Refusal
import Moo.Proofs.Run.View

/-!
# The shape of runs

A machine with a program of the language ends once, and tells so last. It ends when it refuses a
cell or comes right behind its program, and once it has ended nothing happens any more. The receipt
of a run reports a refusal just if there was one (`runs_have_their_shape`).
-/

namespace Moo

variable {σ ω : Type}

/-! ## Steps -/

/-- How a step of a program of the language, so many commands long, comes to refusals and to the
end. -/
structure Host.Shaped (length : Nat) (b c : World σ (Recorded ω)) (fired : List Event) : Prop where
  events : c.audience.events = b.audience.events ++ fired.toArray
  ended : b.machine.finished = true → c = b ∧ fired = []
  done : .done ∈ fired ↔ b.machine.finished = false ∧ c.machine.finished = true
  ends : b.machine.finished = false →
    (c.machine.finished = true ↔
      (∃ info, .badEval info ∈ fired) ∨ c.machine.counter = length)
  refuses : ∀ info, .badEval info ∈ fired ↔
    b.machine.finished = false ∧ b.machine.skip = .none ∧
      ∃ k, b.machine.command? = some k ∧ k.name = "mOO" ∧
        (b.machine.value = 3 ∧ info = .evalLoop ∨
          12 ≤ b.machine.value ∧ info = .invalidCommand b.machine.value)
  refused : ∀ info, .badEval info ∈ fired →
    fired = [.badEval info, .done] ∧ c.device = b.device ∧
      c.machine =
        { b.machine with counter := b.machine.counter + 1, broken := true, finished := true }

namespace Host

variable {d : Device σ} {note : Event → World σ (Recorded ω) → ω}
  {a b c : World σ (Recorded ω)} {program : List Command} {memorySize : Int}

theorem shaped_of_step (hr : b.machine.Resting)
    (hi : b.machine.Intact .standard program memorySize)
    (hp : ∀ k ∈ program, Catalogue.standard.at? k.id = some k)
    (hstep : (watching d note).step b = .ok () c) :
    ∃ fired, Shaped program.length b c fired := by
  obtain ⟨fired, hon, he⟩ := turn_of_watching_step hstep
  have hs := Machine.turn_stepped hr (Turn.yields_of_on hon)
  have hsize : b.machine.program.size = program.length := by rw [hi.program, List.size_toArray]
  have hfound : ∀ k, b.machine.command? = some k → Catalogue.standard.at? k.id = some k := by
    intro k hk
    have hmem := Array.mem_of_getElem? hk
    rw [hi.program] at hmem
    exact hp k (List.mem_toArray.mp hmem)
  refine ⟨fired, he, ?_, hs.done_mem_iff, ?_, ?_, ?_⟩
  · intro hf
    rw [step_of_finished _ hf] at hstep
    cases hstep
    rw [Machine.turn_of_finished hf] at hon
    injection hon with hx _
    injection hx with _ hfired
    exact ⟨rfl, hfired.symm⟩
  · intro hf
    rw [← hsize]
    exact hs.finished_iff hr hf
  · intro info
    rw [hs.badEval_mem_iff]
    refine and_congr_right fun _ => and_congr_right fun _ => exists_congr fun k => ?_
    exact and_congr_right fun hk => Machine.standard_refuses hi.catalogue (hfound k hk)
  · intro info hb
    have hx := hs.eq_of_badEval_mem hb
    injection hx with hm hfired
    refine ⟨hfired, ?_, hm⟩
    obtain ⟨hf, hskip, k, hk, hrefuses⟩ := hs.badEval_mem_iff.mp hb
    obtain ⟨x, hquiet⟩ := Machine.turn_of_refuses hf hk hskip hrefuses
    rw [hquiet] at hon
    injection hon with _ hdevice
    exact hdevice.symm

end Host

/-! ## Receipts -/

namespace Run

/-- The receipt reports the refusal in a log of events, if there is one. -/
structure Receipt.Reports (r : Receipt) (log : List Event) : Prop where
  heard : r.status = "badEval" ↔ ∃ info, .badEval info ∈ log
  field : r.status = "badEval" ↔ ∃ v, r.toJson.field? "badEval" = some v ∧ v ≠ .null
  logged : r.status = "badEval" ↔ ∃ e ∈ r.logs, e.level = "error" ∧ e.event = "badEval"
  refusal : ∀ info, .badEval info ∈ log →
    r.toJson.field? "badEval" = some info.toJson ∧
      ∃ last, last.level = "info" ∧ last.event = "done" ∧
        r.logs = [⟨"error", "badEval", Summary.refusalMessage info, [("info", info.toJson)]⟩, last]
  plain : (∀ info, .badEval info ∉ log) →
    r.status = "ok" ∧ r.toJson.field? "badEval" = some .null ∧
      ∃ last, last.level = "info" ∧ last.event = "done" ∧ r.logs = [last]

namespace Session

theorem refusalsOf_append (a b : List Event) :
    refusalsOf (a ++ b) = refusalsOf a ++ refusalsOf b := List.filterMap_append

theorem refusalsOf_ended (m : Machine) : refusalsOf m.ended.2 = [] := by
  unfold Machine.ended
  split <;> rfl

theorem refusalsOf_chronicle {finished : Bool} {log : List Event} (h : Chronicle finished log) :
    refusalsOf log = [] ∨ ∃ info, refusalsOf log = [info] := by
  obtain ⟨told, ending, rfl, htold, hending⟩ := h
  have hnone : refusalsOf told = [] := by
    rw [List.eq_nil_iff_forall_not_mem]
    exact fun info hi => htold _ (mem_refusalsOf.mp hi)
  rw [refusalsOf_append, hnone, List.nil_append]
  cases hending with
  | running => exact .inl rfl
  | finished => exact .inl rfl
  | refused info => exact .inr ⟨info, rfl⟩

variable {d : Device σ} {o : Options} {m : Machine} {device : σ} {n : Nat} {z : Session σ}

/-- The ticks of a session are calls before subscribers that only watch, and it keeps the refusals
that these hear of. -/
theorem Ticks.calls (h : Ticks d o (.start m device) n z)
    (note : Event → World σ (Recorded ω) → ω) (own : ω) :
    ∃ w, (Host.watching d note).Calls ⟨m, device, .ofOwn own⟩ n w ∧ w.machine = z.machine ∧
      w.device = z.device.1 ∧ z.refusals.toList = refusalsOf w.audience.events.toList := by
  induction h with
  | none => exact ⟨_, .none, rfl, rfl, rfl⟩
  | @snoc n s s' _ _ ht ih =>
    obtain ⟨w, hw, hm, hdevice, hrefusals⟩ := ih
    obtain ⟨-, x, device', hon, rfl⟩ := tick_turn ht
    have hview := (Device.View.recorded d).on s.machine.turn s.device
    rw [hon, ← hdevice, ← hm] at hview
    obtain ⟨v, hstep, hvm, hvd, hve⟩ := Host.watching_step_of_turn _ hview
    refine ⟨v, hw.snoc hstep, ?_, ?_, ?_⟩
    · rw [hvm, after_machine]
    · rw [hvd, after_device]
    · rw [hve, Array.toList_append, refusalsOf_append, ← hrefusals]
      cases hc : s.machine.command? with
      | none =>
        rw [Machine.turn_of_none hc] at hon
        cases hon
        rw [after_of_none hc, refusalsOf_ended, List.append_nil]
      | some c =>
        rw [after_of_some hc]
        exact Array.toList_appendList

end Session

theorem Job.result_field (j : Job) (stdout : Option String) (z : Session σ) :
    (j.result stdout z).receipt.toJson.field? "badEval" =
      some (.ofOption BadEval.toJson z.refusals.toList.head?) := by
  cases stdout <;> rfl

/-- The receipt of a session reports the refusal that the session has kept. -/
theorem Job.result_reports (j : Job) (stdout : Option String) {z : Session σ} {finished : Bool}
    {log : List Event} (h : Chronicle finished log)
    (hz : z.refusals.toList = Session.refusalsOf log) :
    (j.result stdout z).receipt.Reports log := by
  have hfield := j.result_field stdout z
  have hstatus : (j.result stdout z).receipt.status =
      if z.refusals.toList.isEmpty then "ok" else "badEval" := rfl
  have hlogs : (j.result stdout z).receipt.logs = (j.summaryWith stdout z).logs := rfl
  unfold Summary.logs at hlogs
  dsimp only [Job.summaryWith] at hlogs
  -- the session has kept none or one, and the receipt shows just that
  obtain hr | ⟨info, hr⟩ := Session.refusalsOf_chronicle h
  · have hno : ∀ info, .badEval info ∉ log := by
      intro info hb
      rw [← Session.mem_refusalsOf, hr] at hb
      cases hb
    rw [hz, hr] at hfield hstatus hlogs
    have hgood : (j.result stdout z).receipt.status ≠ "badEval" := by
      rw [hstatus]
      decide
    refine ⟨iff_of_false hgood ?_, iff_of_false hgood ?_, iff_of_false hgood ?_,
      fun info hb => absurd hb (hno info), fun _ => ⟨hstatus, hfield, _, rfl, rfl, hlogs⟩⟩
    · exact fun ⟨info, hb⟩ => hno info hb
    · rintro ⟨v, hv, hne⟩
      rw [hfield] at hv
      cases hv
      exact hne rfl
    · rintro ⟨e, he, hlevel, -⟩
      rw [hlogs] at he
      cases List.mem_singleton.mp he
      exact absurd hlevel (show "info" ≠ "error" by decide)
  · have honly : ∀ info', .badEval info' ∈ log ↔ info' = info := by
      intro info'
      rw [← Session.mem_refusalsOf, hr, List.mem_singleton]
    rw [hz, hr] at hfield hstatus hlogs
    refine ⟨iff_of_true hstatus ⟨info, (honly info).mpr rfl⟩,
      iff_of_true hstatus ⟨_, hfield, nofun⟩, iff_of_true hstatus ?_, ?_,
      fun hno => absurd ((honly info).mpr rfl) (hno info)⟩
    · rw [hlogs]
      exact ⟨_, List.mem_cons_self, rfl, rfl⟩
    · intro info' hb
      obtain rfl := (honly info').mp hb
      exact ⟨hfield, _, rfl, rfl, hlogs⟩

/-- In every run of steps of a program of the language, before subscribers that only watch and on a
device that serves: the end is told once and last, a refusal once and right before the end, and each
step comes to them as the language has it. The receipt of a run that ends reports a refusal just if
the steps of its machine tell of one. -/
theorem runs_have_their_shape {program : List Command} {memorySize : Int} {m : Machine}
    (hload : Machine.load .standard program memorySize = .ok m) (d : Device σ) (s : σ)
    (note : Event → World σ (Recorded ω) → ω) (own : ω) :
    (d.Reliable → ∀ n, ∃ b, (Host.watching d note).Calls ⟨m, s, .ofOwn own⟩ n b) ∧
    (∀ n b, (Host.watching d note).Calls ⟨m, s, .ofOwn own⟩ n b →
      Conclusive b.audience.events.toList ∧
      (.done ∈ b.audience.events.toList ↔ b.machine.finished = true) ∧
      ∀ c, (Host.watching d note).step b = .ok () c →
        ∃ fired, Host.Shaped program.length b c fired) ∧
    ∀ (buffered : Bool) (j : Job) (budget : Nat) (r : Result σ),
      Machine.load j.catalogue (j.catalogue.program j.text) j.options.memorySize = .ok m →
      j.runWithin budget d buffered s = .finished r →
        ∃ n w, (Host.watching d note).Calls ⟨m, s, .ofOwn own⟩ n w ∧
          w.machine = r.machine ∧ w.device = r.device ∧ w.machine.finished = true ∧
          r.receipt.Reports w.audience.events.toList := by
  have hr : m.Resting := .of_load hload
  have hi := Machine.Intact.of_load hload
  have hstart : Chronicle m.finished [] := by
    obtain ⟨-, rfl⟩ := Machine.load_eq hload
    exact .nil
  refine ⟨fun hd n => Host.calls_of_reliable hd Catalogue.standard_soleRunner hload rfl n, ?_, ?_⟩
  · intro n b hb
    have hlog := hb.chronicle hr hstart
    exact ⟨hlog.conclusive, hlog.done_mem_iff, fun c hstep =>
      Host.shaped_of_step (hb.resting hr) (hb.intact hi) (Machine.load_commands hload) hstep⟩
  · intro buffered j budget r hm h
    obtain ⟨m', z, shown, hm', hrun, -, rfl⟩ := Job.runWithin_finished h
    obtain rfl : m = m' := Except.ok.inj (hm.symm.trans hm')
    obtain ⟨n, -, hticks, hend⟩ := Session.ticks_of_run hrun
    obtain ⟨w, hw, hwm, hwd, hrefusals⟩ := hticks.calls note own
    refine ⟨n, w, hw, hwm, hwd, hwm ▸ hend, ?_⟩
    exact j.result_reports _ (hw.chronicle hr hstart) hrefusals

/-- Three increments, and then the cell names the command that runs it. -/
theorem runs_have_their_shape_refused :
    let d : Device Unit := ⟨fun _ s => .ok 0 s, fun _ _ s => .ok () s⟩
    let h := Host.watching d fun _ (_ : World Unit (Recorded Unit)) => ()
    let j : Job := ⟨"MoO MoO MoO mOO", none, .standard, ⟨1, none, false⟩, ⟨"", ""⟩⟩
    ∃ m r c fired, Machine.load .standard (j.catalogue.program j.text) 1 = .ok m ∧ d.Reliable ∧
      (∃ b, h.Calls ⟨m, (), .ofOwn ()⟩ 9 b) ∧
      h.step ⟨m, (), .ofOwn ()⟩ = .ok () c ∧ Host.Shaped 4 ⟨m, (), .ofOwn ()⟩ c fired ∧
      j.runWithin 9 d false () = .finished r ∧ r.receipt.status = "badEval" ∧
      ∃ info : BadEval, r.receipt.toJson.field? "badEval" = some info.toJson := by
  have hload : ∃ m, Machine.load .standard (Catalogue.standard.program "MoO MoO MoO mOO") 1 =
    .ok m := ⟨_, rfl⟩
  have hends : ∃ r, (⟨"MoO MoO MoO mOO", none, .standard, ⟨1, none, false⟩, ⟨"", ""⟩⟩ :
      Job).runWithin 9 (⟨fun _ s => .ok 0 s, fun _ _ s => .ok () s⟩ : Device Unit) false () =
        .finished r ∧ r.receipt.status = "badEval" := ⟨_, rfl, by decide⟩
  intro d h j
  obtain ⟨m, hm⟩ := hload
  obtain ⟨r, hrun, hstatus⟩ := hends
  have hd : d.Reliable := ⟨fun _ s => ⟨0, s, rfl⟩, fun _ _ s _ => ⟨s, rfl⟩⟩
  obtain ⟨calls, steps, receipts⟩ := runs_have_their_shape hm d () (fun _ _ => ()) ()
  obtain ⟨-, -, shaped⟩ := steps 0 _ .none
  have hstep : ∃ c, h.step ⟨m, (), .ofOwn ()⟩ = .ok () c := by
    cases hm
    exact ⟨_, rfl⟩
  obtain ⟨c, hc⟩ := hstep
  obtain ⟨fired, hfired⟩ := shaped c hc
  obtain ⟨n, w, -, -, -, -, hreports⟩ := receipts false j 9 r hm hrun
  obtain ⟨info, hinfo⟩ := hreports.heard.mp hstatus
  exact ⟨m, r, c, fired, hm, hd, calls hd 9, hc, hfired, hrun, hstatus, info,
    (hreports.refusal info hinfo).1⟩

end Run

end Moo
