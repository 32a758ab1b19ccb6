import Moo.Device.Buffer
import Moo.Proofs.Audience.Diary
import Moo.Proofs.Audience.Requests
import Moo.Proofs.Machine.Course

/-!
# Refusals are fatal

A step that refuses a cell announces it first and breaks the machine then. If the announcement is
cut short the machine is not broken, and a step made in the course of it finds a machine that still
goes on. On the terms that nobody to whom a refusal is announced raises or steps (`Terms.composed`),
the step ends the machine. While the refusal is announced the diary has a refusal in it and the
machine has not ended yet, so there are two invariants: `Concluding` holds throughout, and
`Concluded` wherever no refusal is being announced.
-/

namespace Moo

open Act

variable {σ ω : Type}

namespace Moment

/-- A step announces that it refuses a cell. -/
def IsRefusal : Moment → Prop
  | .told deed e _ => deed = .step ∧ ∃ info, e = .badEval info
  | _ => False

/-- What may still happen after a refusal: steps of a machine that has ended, but no refusal. -/
def IsAftermath : Moment → Prop
  | .begun deed m => deed = .step → m.finished = true
  | .told deed e _ => deed = .step → ∀ info, e ≠ .badEval info
  | .ceased deed m => deed = .step → m.finished = true

/-- If a step refuses a cell, what happens next is the aftermath. -/
def Concludes (x y : Moment) : Prop := x.IsRefusal → y.IsAftermath

def ConcludedBy (x : Moment) (m : Machine) : Prop := x.IsRefusal → m.finished = true

theorem steady_concludedBy : Steady ConcludedBy := fun _ _ _ hf h hr => hf.trans (h hr)

/-- What is no refusal and may happen once the machine has ended can be written down. -/
theorem writable_of_not_isRefusal {moment : Machine → Moment} (hr : ∀ m, ¬ (moment m).IsRefusal)
    (ha : ∀ m, m.finished = true → (moment m).IsAftermath) :
    Writable Concludes ConcludedBy moment :=
  fun m => ⟨fun h => absurd h (hr m), fun _ hx h => ha m (hx h)⟩

theorem writable_told {deed : Deed} {e : Event} (h : deed = .step → ∀ info, e ≠ .badEval info) :
    Writable Concludes ConcludedBy (.told deed e) :=
  writable_of_not_isRefusal (fun _ hr => hr.2.elim (h hr.1)) fun _ _ => h

theorem writable_of_isAftermath {moment : Machine → Moment} (ha : ∀ m, (moment m).IsAftermath) :
    Writable Concludes (fun _ _ => True) moment :=
  fun m => ⟨trivial, fun _ _ _ => ha m⟩

end Moment

namespace World

/-- Refusals so far have had no steps but of a machine that had ended. -/
abbrev Concluding (w : World σ (Diary ω)) : Prop := w.Orderly Moment.Concludes fun _ _ => True

/-- The same, and if there was a refusal the machine has ended. -/
abbrev Concluded (w : World σ (Diary ω)) : Prop := w.Orderly Moment.Concludes Moment.ConcludedBy

end World

/-- The terms that nobody to whom a step announces a refusal raises, or steps meanwhile. -/
def Terms.composed (d : Device σ) : Terms σ ω := fun deed react =>
  deed = .step → ∀ info, (∀ w, ∃ v, react (.badEval info) w = .ok () v) ∧
    Behaved d .stepless (react (.badEval info))

namespace Host

variable {w : World σ (Diary ω)} {d : Device σ} {deed : Deed} {terms : Terms σ ω}
  {react : Event → Act σ (Diary ω) Unit}

/-! ## While a refusal is announced -/

theorem carryOut_concluding (hd : deed ≠ .step) (hreact : ∀ e, Keeps World.Concluding (react e)) :
    Keeps World.Concluding (carryOut d deed react) := by
  have H : (witnessed d deed react).Bears World.Concluding :=
    World.Orderly.bears (fun _ _ _ _ _ => trivial)
      (fun _ _ => Moment.writable_of_isAftermath fun _ h => absurd h hd) hreact
  have refusal : ∀ info, Keeps World.Concluding ((witnessed d deed react).announce (.badEval info)) :=
    fun info w h => hreact _ _ <| h.noted <|
      Moment.writable_of_isAftermath fun _ h => absurd h hd
  exact World.Orderly.carryOut (Moment.writable_of_isAftermath fun _ h => absurd h hd)
    (Moment.writable_of_isAftermath fun _ h => absurd h hd) (H.does refusal fun h => absurd h hd)

theorem stepless_concluding {α : Type} {x : Act σ (Diary ω) α} (hx : Behaved d .stepless x) :
    Keeps World.Concluding x :=
  hx.keeps (fun f _ h => h.own f) fun _ _ hd _ hreact => carryOut_concluding hd hreact

/-! ## The end -/

theorem finish_concluded (hreact : Keeps World.Concluded (react .done)) :
    Leads World.Concluding World.Concluded (witnessed d deed react).finish := by
  intro w h
  cases hf : w.machine.finished with
  | true =>
    rw [final_of_ok (finish_of_finished _ hf)]
    exact h.weaken fun _ _ _ => hf
  | false =>
    rw [final_congr (finish_of_unfinished _ hf)]
    have hended : World.Concluded { w with machine := { w.machine with finished := true } } :=
      ⟨Machine.Change.finish.sound h.sound, h.order, fun _ _ _ => rfl⟩
    exact hreact _ (hended.noted (Moment.writable_told nofun))

/-! ## Refusals -/

section

variable {ω : Type} {h : Host σ ω} {w v : World σ ω} {c : Command} {info : BadEval} {f : Fault}

theorem close_of_broken (hb : w.machine.broken = true) :
    h.close w = h.finish { w with machine := w.machine.advance } := by
  refine h.close_of_ends ?_
  rw [Machine.advance_broken, hb]
  rfl

/-- A refusal that is announced to the end ends the machine at the close of the step. -/
theorem refused_of_ok (ha : h.announce (.badEval info) w = .ok () v) :
    (h.badEval info >>= fun _ => h.close) w =
      h.finish { v with machine := Machine.advance { v.machine with broken := true } } := by
  have hbad : h.badEval info w = .ok () { v with machine := { v.machine with broken := true } } :=
    bind_of_ok ha _
  rw [bind_of_ok hbad]
  exact close_of_broken rfl

/-- A refusal whose announcement is cut short leaves the machine as its subscribers do. -/
theorem refused_of_error (ha : h.announce (.badEval info) w = .error f v) :
    (h.badEval info >>= fun _ => h.close) w = .error f v :=
  bind_of_error (bind_of_error ha _) _

theorem step_of_refuses (hf : w.machine.finished = false) (hc : w.machine.command? = some c)
    (hs : w.machine.skip = .none) (hr : w.machine.Refuses c info) :
    h.step w = (h.badEval info >>= fun _ => h.close) w := by
  have hvisit : h.visit c w = h.badEval info w := by
    obtain ⟨he, ⟨hnone, rfl⟩ | ⟨hself, rfl⟩⟩ := hr <;> rw [h.visit_of_none c hs, he]
    · exact h.runCell_of_none hnone
    · exact h.runCell_of_self hself hc
  rw [h.step_of_command hf hc, bind_congr_at hvisit]

end

/-- On these terms a step that refuses a cell ends the machine. -/
theorem refused_concluded (hterms : Terms.composed d .step react)
    (finish : Leads World.Concluding World.Concluded (witnessed d .step react).finish)
    (h : World.Concluded w) (hf : w.machine.finished = false) (info : BadEval) :
    World.Concluded (((witnessed d .step react).badEval info >>= fun _ =>
      (witnessed d .step react).close).final w) := by
  obtain ⟨hserves, hstepless⟩ := hterms rfl info
  obtain ⟨v, hv⟩ := hserves (w.noted (.told .step (.badEval info)))
  -- the machine has not ended, so this refusal is the first
  have hnoted : World.Concluding (w.noted (.told .step (.badEval info))) := by
    refine (h.weaken fun _ _ => trivial).noted_of trivial fun x hx hr => ?_
    rw [h.now x hx hr] at hf
    cases hf
  have hannounced := stepless_concluding hstepless _ hnoted
  rw [final_of_ok hv] at hannounced
  rw [final_congr (refused_of_ok (show (witnessed d .step react).announce _ w = _ from hv))]
  refine finish _ ?_
  exact hannounced.machine (Machine.advance_sound (Machine.Change.refuse.sound hannounced.sound))
    fun _ _ => trivial

theorem does_concluded (hterms : Terms.composed d deed react)
    (hreact : ∀ e, Keeps World.Concluded (react e)) :
    Keeps World.Concluded ((witnessed d deed react).does deed) := by
  have told : ∀ e : Event, e.OfState →
      Moment.Writable Moment.Concludes Moment.ConcludedBy (.told deed e) := fun e he =>
    Moment.writable_told fun _ info hi => by
      subst hi
      exact he
  have H : (witnessed d deed react).Bears World.Concluded :=
    World.Orderly.bears Moment.steady_concludedBy told hreact
  have concludes : Leads World.Concluding World.Concluded (witnessed d deed react).finish :=
    finish_concluded (hreact .done)
  have finish : Keeps World.Concluded (witnessed d deed react).finish := fun w h =>
    concludes w (h.weaken fun _ _ => trivial)
  by_cases hd : deed = .step
  · subst hd
    refine step_keeps finish fun w c h hf _ => ?_
    obtain ⟨info, -, hvisit⟩ | hvisit := H.visit_cases c h
    · rw [final_congr (bind_congr_at hvisit _)]
      exact refused_concluded hterms concludes h hf info
    · exact final_bind hvisit (fun _ => id) fun _ =>
        close_leads finish fun _ h => h.advance Moment.steady_concludedBy
  · refine H.does (fun info w h => ?_) fun h => absurd h hd
    exact hreact _ _ (h.noted (Moment.writable_told fun h => absurd h hd))

/-- On these terms every refusal is concluded, whatever else subscribers do. -/
theorem composed_concluded {α : Type} {x : Act σ (Diary ω) α} (hx : Behaved d (.composed d) x) :
    Keeps World.Concluded x := by
  refine hx.keeps (fun f _ h => h.own f) fun deed react hterms _ hreact => ?_
  exact World.Orderly.carryOut
    (Moment.writable_of_not_isRefusal (fun _ => id) fun _ hf _ => hf)
    (Moment.writable_of_not_isRefusal (fun _ => id) fun _ hf _ => hf) (does_concluded hterms hreact)

end Host

/-! ## Main statement -/

/-- Whatever is done to a loaded machine from outside, and whatever its subscribers do meanwhile,
also after faults, if nobody to whom a step announces a refusal raises, or steps meanwhile: after a
refusal steps begin and cease on a machine that has ended only, and do nothing then, and no step
refuses a cell again. For any subscribers, a step that refuses a cell breaks the machine and ends
it, but if the announcement is cut short, so is the step, and leaves the machine as its subscribers
do. -/
theorem refusals_are_fatal {t : Catalogue} {program : List Command} {memorySize : Int} {m : Machine}
    (hload : Machine.load t program memorySize = .ok m) (d : Device σ) (s : σ) :
    (∀ {ω : Type} (own : ω) (x : Act σ (Diary ω) Unit) (w : World σ (Diary ω)),
      Behaved d (.composed d) x → x.final ⟨m, s, .blank own⟩ = w →
        w.audience.moments.Pairwise Moment.Concludes ∧
        ∀ y ∈ w.audience.moments, y.ConcludedBy w.machine) ∧
    ∀ {ω : Type} (h : Host σ ω) (w : World σ ω),
      (w.machine.finished = true → h.step w = .ok () w) ∧
      ∀ c info, w.machine.finished = false → w.machine.command? = some c →
        w.machine.skip = .none → w.machine.Refuses c info →
          (∀ v, h.announce (.badEval info) w = .ok () v → h.step w =
            h.finish { v with machine := Machine.advance { v.machine with broken := true } }) ∧
          ∀ f v, h.announce (.badEval info) w = .error f v → h.step w = .error f v := by
  refine ⟨fun own x w hx hw => ?_, fun h w => ⟨h.step_of_finished, fun c info hf hc hs hr => ?_⟩⟩
  · have hm := (Machine.Intact.of_load hload).toSound
    have h := Host.composed_concluded hx _ (.blank hm s own)
    rw [hw] at h
    exact ⟨h.order, h.now⟩
  · rw [h.step_of_refuses hf hc hs hr]
    exact ⟨fun v => Host.refused_of_ok, fun f v => Host.refused_of_error⟩

/-- The cell holds the number of no command. The step that runs it is the last one; it is cut short
after that, when a subscriber raises at the end of the machine. -/
theorem refusals_are_fatal_below_zero :
    let minus : Command := ⟨0, 5, "MOo", .decrement⟩
    let runner : Command := ⟨0, 3, "mOO", .runCell⟩
    let plus : Command := ⟨0, 6, "MoO", .increment⟩
    let program : List Command := [minus, runner, plus]
    let m : Machine := ⟨.standard, program.toArray, #[0], 0, 0, none, .none, false, false, false⟩
    let react : Event → Act Buffer (Diary Unit) Unit := fun e =>
      match e.kind with
      | .done => throw (.raised "enough")
      | _ => pure ()
    let step := Host.carryOut Buffer.device .step react
    let x : Act Buffer (Diary Unit) Unit := step.attempt >>= fun _ => step.attempt >>= fun _ => step
    Machine.load .standard program 1 = .ok m ∧ Behaved Buffer.device (.composed Buffer.device) x ∧
      ∃ w, x.final ⟨m, .ofInput "" [], .blank ()⟩ = w ∧
        (∃ y ∈ w.audience.moments, y.IsRefusal) ∧ w.machine.finished = true ∧
        w.machine.cells = #[255] ∧ w.audience.moments.Pairwise Moment.Concludes := by
  intro minus runner plus program m react step x
  have hload : Machine.load .standard program 1 = .ok m := rfl
  have hreact : ∀ e, Behaved Buffer.device (.composed Buffer.device) (react e) := fun e => by
    cases e with
    | done => exact .raise _
    | _ => exact .look fun _ => ()
  have hcomposed : Terms.composed Buffer.device .step react := fun _ info =>
    ⟨fun w => ⟨w, rfl⟩, .look fun _ => ()⟩
  have hstep : Behaved Buffer.device (.composed Buffer.device) step :=
    .deed .step hcomposed hreact
  have hx : Behaved Buffer.device (.composed Buffer.device) x :=
    .bind hstep.attempt fun _ => .bind hstep.attempt fun _ => hstep
  have fatal := (refusals_are_fatal hload Buffer.device (.ofInput "" [])).1 () x _ hx rfl
  exact ⟨hload, hx, _, rfl, ⟨_, List.mem_of_getElem? (i := 4) rfl, rfl, _, rfl⟩, by decide, by decide,
    fatal.1⟩

/-- The cell holds the number of no command. If a subscriber raises when that is announced, the step
does not end the machine, and the next one refuses the cell again, or runs the command that is in
the cell by then. If a subscriber steps, the inner step runs the command that is in the cell by
then. -/
theorem refusals_survived :
    let minus : Command := ⟨0, 5, "MOo", .decrement⟩
    let runner : Command := ⟨0, 3, "mOO", .runCell⟩
    let plus : Command := ⟨0, 6, "MoO", .increment⟩
    let program : List Command := [minus, runner, plus]
    let m : Machine := ⟨.standard, program.toArray, #[0], 0, 0, none, .none, false, false, false⟩
    let after := fun (requests rs : List Request) => Request.serve Buffer.device rs
      ⟨m, .ofInput "" [], #[⟨.badEval, "x", [(1, requests)]⟩], #[]⟩
    let told : Note := ⟨"x", .badEval (.invalidCommand 255)⟩
    Machine.load .standard program 1 = .ok m ∧
      (after [.raise "no"] [.step, .step]).machine.finished = false ∧
      (after [.raise "no"] [.step, .step]).audience.notes = #[told] ∧
      (after [.raise "no"] [.step, .step, .step]).audience.notes = #[told, told] ∧
      (after [.raise "no"] [.step, .step, .setValue 6, .step]).machine.cells = #[7] ∧
      (after [.setValue 6, .step] [.step, .step]).audience.notes = #[told] ∧
      (after [.setValue 6, .step] [.step, .step]).machine.cells = #[7] := by
  intro minus runner plus program m after told
  exact ⟨rfl, by decide, by decide, by decide, by decide, by decide, by decide⟩

end Moo
