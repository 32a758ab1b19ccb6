import Moo.Device.Buffer
import Moo.Proofs.Audience.Enacted

/-!
# The end of a machine is final

However deep deeds are nested and wherever they are cut short, a machine that has ended stays so,
and its end is announced once, when it has ended already. Between the moment at which a machine ends
and the announcement of it nothing else happens, so the two are one change to the diary
(`World.EndsOnce.ended`).
-/

namespace Moo

open Act

variable {σ ω : Type}

namespace Moment

def IsEnd : Moment → Prop
  | .told _ .done _ => True
  | _ => False

/-- What has ended stays so, and the end is not announced twice. -/
def EndsOnce (x y : Moment) : Prop :=
  (x.machine.finished = true → y.machine.finished = true) ∧ ¬ (x.IsEnd ∧ y.IsEnd)

/-- If the end is announced the machine has ended, and if it has it still has now. -/
def EndedBy (x : Moment) (m : Machine) : Prop :=
  (x.IsEnd → x.machine.finished = true) ∧ (x.machine.finished = true → m.finished = true)

theorem steady_endedBy : Steady EndedBy := fun _ _ _ hf h => ⟨h.1, fun hx => hf.trans (h.2 hx)⟩

theorem writable_of_not_isEnd {moment : Machine → Moment} (hm : ∀ m, (moment m).machine = m)
    (hend : ∀ m, ¬ (moment m).IsEnd) : Writable EndsOnce EndedBy moment := by
  intro m
  refine ⟨⟨fun h => absurd h (hend m), fun h => hm m ▸ h⟩, fun x hx => ⟨fun h => ?_, ?_⟩⟩
  · rw [hm]
    exact hx.2 h
  · exact fun h => hend m h.2

theorem writable_of_ofState {deed : Deed} {e : Event} (he : e.OfState) :
    Writable EndsOnce EndedBy (.told deed e) := by
  refine writable_of_not_isEnd (fun _ => rfl) fun m h => ?_
  cases e with
  | done => exact he
  | _ => exact h

end Moment

/-- So far the end was announced once at most, and was final. -/
abbrev World.EndsOnce (w : World σ (Diary ω)) : Prop := w.Orderly Moment.EndsOnce Moment.EndedBy

theorem World.EndsOnce.ended {w : World σ (Diary ω)} (h : w.EndsOnce) {deed : Deed}
    (hf : w.machine.finished = false) :
    EndsOnce (World.noted (.told deed .done)
      { w with machine := { w.machine with finished := true } }) := by
  -- no moment so far has a machine that has ended, so none announces the end
  have running : ∀ x ∈ w.audience.moments, x.machine.finished ≠ true := by
    intro x hx hend
    rw [(h.now x hx).2 hend] at hf
    cases hf
  have hended : EndsOnce { w with machine := { w.machine with finished := true } } :=
    h.machine (Machine.Change.finish.sound h.sound) fun x hx => ⟨(h.now x hx).1, fun _ => rfl⟩
  refine hended.noted_of ⟨fun _ => rfl, fun _ => rfl⟩ fun x hx => ⟨fun _ => rfl, fun hends => ?_⟩
  exact running x hx ((h.now x hx).1 hends.1)

namespace Host

variable {d : Device σ} {deed : Deed} {react : Event → Act σ (Diary ω) Unit}

theorem does_endsOnce (hreact : ∀ e, Keeps World.EndsOnce (react e)) :
    Keeps World.EndsOnce ((witnessed d deed react).does deed) := by
  have H : (witnessed d deed react).Bears World.EndsOnce :=
    World.Orderly.bears Moment.steady_endedBy (fun _ => Moment.writable_of_ofState) hreact
  have refusal : ∀ info, Keeps World.EndsOnce ((witnessed d deed react).announce (.badEval info)) :=
    fun info w h =>
      hreact _ _ (h.noted (Moment.writable_of_not_isEnd (fun _ => rfl) fun _ => id))
  have finish : Keeps World.EndsOnce (witnessed d deed react).finish :=
    finish_keeps fun w h hf => hreact .done _ (h.ended hf)
  refine H.does refusal fun _ => step_keeps finish fun w c h _ _ => ?_
  exact Keeps.bind (H.visit (fun info _ => refusal info) c)
    (fun _ => close_leads finish fun _ h => h.advance Moment.steady_endedBy) w h

/-- Whatever subscribers do, the end is announced once and is final. -/
theorem behaved_endsOnce {α : Type} {terms : Terms σ ω} {x : Act σ (Diary ω) α}
    (hx : Behaved d terms x) : Keeps World.EndsOnce x := by
  refine hx.keeps (fun f w h => h.own f) fun deed react _ _ hreact => ?_
  exact World.Orderly.carryOut (Moment.writable_of_not_isEnd (fun _ => rfl) fun _ => id)
    (Moment.writable_of_not_isEnd (fun _ => rfl) fun _ => id) (does_endsOnce hreact)

end Host

/-! ## Main statement -/

/-- Whatever is done to a loaded machine from outside, and whatever its subscribers do meanwhile,
also after faults: a machine that has ended stays so, its end is announced at most once, and only
when it has ended. The scheduled requests of an audience are such behaviour. A step of a machine
that has ended changes nothing at all. -/
theorem end_is_final {t : Catalogue} {program : List Command} {memorySize : Int} {m : Machine}
    (hload : Machine.load t program memorySize = .ok m) (d : Device σ) (s : σ) :
    (∀ {ω : Type} (own : ω) (x : Act σ (Diary ω) Unit) (w : World σ (Diary ω)), Behaved d .free x →
      x.final ⟨m, s, .blank own⟩ = w →
        w.audience.moments.Pairwise Moment.EndsOnce ∧
        ∀ y ∈ w.audience.moments, y.EndedBy w.machine) ∧
    (∀ (subscribers : Array Subscriber) (rs : List Request),
      ∃ x : Act σ (Diary Audience) Unit, Behaved d .free x ∧
        (x.final ⟨m, s, .blank ⟨subscribers, #[]⟩⟩).heard Diary.own =
          Request.serve d rs ⟨m, s, ⟨subscribers, #[]⟩⟩) ∧
    ∀ {ω : Type} (h : Host σ ω) (w : World σ ω), w.machine.finished = true → h.step w = .ok () w := by
  have hm := (Machine.Intact.of_load hload).toSound
  refine ⟨fun own x w hx hw => ?_, fun subscribers rs => ?_, fun h w hf => h.step_of_finished hf⟩
  · have h := Host.behaved_endsOnce hx _ (.blank hm s own)
    rw [hw] at h
    exact ⟨h.order, h.now⟩
  · obtain ⟨x, hx, hserve⟩ := Request.serve_enacted d rs
    exact ⟨x, hx, hserve _⟩

/-- A subscriber makes a step within the step. The inner one ends the machine, and another
subscriber raises then, so that the outer one is cut short before its close; the third one does
nothing. -/
theorem end_is_final_reentered :
    let plus : Command := ⟨0, 6, "MoO", .increment⟩
    let m : Machine := ⟨.standard, #[plus], #[0], 0, 0, none, .none, false, false, false⟩
    let fail : Event → Act Buffer (Diary Unit) Unit := fun e =>
      match e.kind with
      | .done => throw (.raised "enough")
      | _ => pure ()
    let again : Event → Act Buffer (Diary Unit) Unit := fun _ =>
      Host.carryOut Buffer.device .step fail
    let x : Act Buffer (Diary Unit) Unit :=
      (Host.carryOut Buffer.device .step again).attempt >>= fun _ =>
        Host.carryOut Buffer.device .step again
    Machine.load .standard [plus] 1 = .ok m ∧ Behaved Buffer.device .free x ∧
      ∃ w, x.final ⟨m, .ofInput "" [], .blank ()⟩ = w ∧ w.machine.finished = true ∧
        w.machine.cells = #[2] ∧ w.audience.moments.length = 9 ∧
        w.audience.moments.Pairwise Moment.EndsOnce := by
  intro plus m fail again x
  have hload : Machine.load .standard [plus] 1 = .ok m := rfl
  have hfail : ∀ e, Behaved Buffer.device .free (fail e) := fun e => by
    cases e with
    | done => exact .raise _
    | _ => exact .look fun _ => ()
  have hagain : ∀ e, Behaved Buffer.device .free (again e) := fun _ => .deed .step trivial hfail
  have hstep : Behaved Buffer.device .free (Host.carryOut Buffer.device .step again) :=
    .deed .step trivial hagain
  have hx : Behaved Buffer.device .free x := .bind hstep.attempt fun _ => hstep
  have final := end_is_final hload Buffer.device (.ofInput "" [])
  exact ⟨hload, hx, _, rfl, by decide, by decide, by decide, (final.1 () x _ hx rfl).1⟩

end Moo
