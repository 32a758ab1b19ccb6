import Moo.Audience.Dispatch
import Moo.Device.Buffer
import Moo.Proofs.Audience.Closure

/-!
# Requests uphold the machine

The subscribers of an audience answer with scheduled requests. Fulfilling requests one after the
other upholds what every conduct of subscribers upholds: a sound machine on the same program that
has written and announced bytes only, and the bound on its counter if no schedule holds a step.
-/

namespace Moo

open Act

variable {σ : Type} {α : Type}

/-! ## Requests without steps -/

mutual

def Request.stepless : Request → Bool
  | .step => false
  | .run _ => false
  | .trace _ => false
  | .subscribe _ _ schedule => Request.scheduleStepless schedule
  | _ => true

def Request.allStepless : List Request → Bool
  | [] => true
  | r :: rest => r.stepless && allStepless rest

def Request.scheduleStepless : List (Nat × List Request) → Bool
  | [] => true
  | (_, requests) :: rest => allStepless requests && scheduleStepless rest

end

/-- The subscribers that a request adds ask for no step. -/
def Request.addsStepless : Request → Bool
  | .subscribe _ _ schedule => Request.scheduleStepless schedule
  | _ => true

theorem Request.addsStepless_of_stepless {r : Request} (h : r.stepless = true) :
    r.addsStepless = true := by
  cases r <;> simp_all [stepless, addsStepless]

theorem Request.not_steps_of_stepless {r : Request} (h : r.stepless = true) : ¬ r.Steps := by
  cases r <;> simp_all [stepless, Steps]

theorem Request.stepless_of_mem {rs : List Request} (h : Request.allStepless rs = true) :
    ∀ r ∈ rs, r.stepless = true := by
  induction rs with
  | nil => exact fun _ hr => nomatch hr
  | cons r rest ih =>
    simp only [Request.allStepless, Bool.and_eq_true] at h
    intro x hx
    rcases List.mem_cons.mp hx with rfl | hx
    · exact h.1
    · exact ih h.2 x hx

theorem Request.next?_stepless {schedule left : List (Nat × List Request)} {requests : List Request}
    (h : Request.scheduleStepless schedule = true)
    (hn : Request.next? schedule = some (requests, left)) :
    Request.allStepless requests = true ∧ Request.scheduleStepless left = true := by
  induction schedule with
  | nil => cases hn
  | cons head rest ih =>
    obtain ⟨times, rs⟩ := head
    have hr := h
    simp only [Request.scheduleStepless, Bool.and_eq_true] at hr
    cases times with
    | zero => exact ih hr.2 hn
    | succ times =>
      cases hn
      exact ⟨hr.1, h⟩

/-! ## Audiences -/

/-- All that was taken down carries bytes, and no schedule asks for a step unless that is
allowed. -/
structure Audience.Proper (mayStep : Bool) (a : Audience) : Prop where
  notes : ∀ n ∈ a.notes, n.event.InRange
  schedules : mayStep = false → ∀ s ∈ a.subscribers, Request.scheduleStepless s.schedule = true

theorem Audience.Proper.add {mayStep : Bool} {a : Audience} (h : a.Proper mayStep) {s : Subscriber}
    (hs : mayStep = false → Request.scheduleStepless s.schedule = true) :
    (a.add s).Proper mayStep := by
  refine ⟨h.notes, fun hb x hx => ?_⟩
  rcases Array.mem_push.mp hx with hx | rfl
  · exact h.schedules hb x hx
  · exact hs hb

/-- A call leaves a proper audience and asks for no step unless that is allowed. -/
theorem Audience.Proper.call {mayStep : Bool} {a : Audience} (h : a.Proper mayStep) (i : Nat)
    {e : Event} (he : e.InRange) :
    (a.call i e).2.Proper mayStep ∧
      (mayStep = false → Request.allStepless (a.call i e).1 = true) := by
  unfold Audience.call
  cases hi : a.subscribers[i]? with
  | none => exact ⟨h, fun _ => rfl⟩
  | some s =>
    have hmem : s ∈ a.subscribers := Array.mem_of_getElem? hi
    have hnotes : ∀ n ∈ a.notes.push ⟨s.tag, e⟩, n.event.InRange := by
      intro n hn
      rcases Array.mem_push.mp hn with hn | rfl
      · exact h.notes n hn
      · exact he
    cases hs : Request.next? s.schedule with
    | none =>
      simp only [hs]
      exact ⟨⟨hnotes, h.schedules⟩, fun _ => rfl⟩
    | some p =>
      simp only [hs]
      refine ⟨⟨hnotes, fun hb x hx => ?_⟩, fun hb => ?_⟩
      · rcases Array.mem_or_eq_of_mem_setIfInBounds hx with hx | rfl
        · exact h.schedules hb x hx
        · exact (Request.next?_stepless (h.schedules hb s hmem) hs).2
      · exact (Request.next?_stepless (h.schedules hb s hmem) hs).1

/-! ## Fulfilling requests -/

/-- A request keeps an invariant that the host bears, if the steps that it asks for do and so does
adding the subscriber that it brings. -/
theorem Request.perform_keeps {I : World σ Audience → Prop} {h : Host σ Audience} (H : h.Bears I)
    (refusal : ∀ info, Keeps I (h.announce (.badEval info))) (r : Request)
    (hstep : r.Steps → Keeps I h.step)
    (hadd : ∀ event tag schedule kind, r = .subscribe event tag schedule →
      ∀ w, I w → I { w with audience := w.audience.add ⟨kind, tag, schedule⟩ }) :
    Keeps I (r.perform h) :=
  Keeps.closed.perform r (fun _ hd => H.does refusal fun hs => hstep (hd hs)) hadd

section

variable {t : Catalogue} {program : List Command} {memorySize : Int} {C : Machine → Prop}
  {d : Device σ} {mayStep : Bool}

/-- Subscribers that are called one after the other keep what is upheld if what each asks for
does. -/
theorem Audience.notify_keeps {react : List Request → Act (σ × Array Transfer) Audience Unit}
    (hr : ∀ rs, (mayStep = false → Request.allStepless rs = true) →
      Keeps (Upholds t program memorySize C (Audience.Proper mayStep)) (react rs)) {e : Event}
    (he : e.InRange) :
    Keeps (Upholds t program memorySize C (Audience.Proper mayStep)) (notify react e) := by
  intro w hw
  refine Keeps.closed.forM _ (fun i _ v hv => ?_) w hw
  obtain ⟨hp, hs⟩ := hv.audience.call i he
  exact hr _ hs _ ⟨hv.machine, hv.condition, hv.journal, hp⟩

theorem Request.subscribe_keeps {r : Request} (hs : mayStep = false → r.addsStepless = true)
    (event tag : String) (schedule : List (Nat × List Request)) (kind : EventKind)
    (hr : r = .subscribe event tag schedule) (w : World (σ × Array Transfer) Audience)
    (hw : Upholds t program memorySize C (Audience.Proper mayStep) w) :
    Upholds t program memorySize C (Audience.Proper mayStep)
      { w with audience := w.audience.add ⟨kind, tag, schedule⟩ } := by
  subst hr
  exact ⟨hw.machine, hw.condition, hw.journal, hw.audience.add hs⟩

/-- Announcing an event keeps what is upheld, however deep the subscribers' requests lead. -/
theorem Audience.dispatch_keeps (hC : Machine.Stable C)
    (hadv : mayStep = true → ∀ m : Machine, C m → C m.advance) (depth : Nat) :
    ∀ e : Event, e.InRange →
      Keeps (Upholds t program memorySize C (Audience.Proper mayStep))
        (dispatch d.journaled depth e) := by
  -- what is announced while subscribers react goes one level less deep
  induction depth with
  | zero => exact fun e he => notify_keeps (fun _ _ => .pure ()) he
  | succ depth ih =>
    intro e he
    have H := Upholds.admits (h := ⟨d.journaled, dispatch d.journaled depth⟩) hC rfl ih
    refine notify_keeps
      (fun rs hrs => Keeps.closed.forM rs fun r hr => .bind ?_ fun _ => .pure ()) he
    have hs : mayStep = false → r.stepless = true := fun hb =>
      Request.stepless_of_mem (hrs hb) r hr
    refine Request.perform_keeps H.bears (fun _ => ih _ trivial) r (fun hstep => ?_)
      (Request.subscribe_keeps fun hb => Request.addsStepless_of_stepless (hs hb))
    cases mayStep with
    | true => exact Upholds.step H (hadv rfl)
    | false => exact absurd hstep (Request.not_steps_of_stepless (hs rfl))

/-- Fulfilling a request upholds the machine, whatever subscribers request in turn. -/
theorem Request.fulfil_keeps (r : Request) :
    Keeps (Upholds t program memorySize (fun _ => True) (Audience.Proper true))
      (r.fulfil d.journaled) := by
  intro w hw
  have announce : ∀ e : Event, e.InRange →
      Keeps (Upholds t program memorySize (fun _ => True) (Audience.Proper true))
        (Audience.dispatch d.journaled (w.audience.calls + r.calls) e) :=
    Audience.dispatch_keeps Machine.stable_true (fun _ _ _ => trivial) _
  have H := Upholds.admits
    (h := ⟨d.journaled, Audience.dispatch d.journaled (w.audience.calls + r.calls)⟩)
    Machine.stable_true rfl announce
  have hstep := Upholds.step H fun _ _ => trivial
  exact Request.perform_keeps H.bears (fun _ => announce _ trivial) r (fun _ => hstep)
    (Request.subscribe_keeps nofun) w hw

/-- Fulfilling a request keeps the counter in the program or right behind it, if no subscriber
steps. -/
theorem Request.fulfil_keeps_counter (r : Request) (hr : r.addsStepless = true) :
    Keeps (Upholds t program memorySize Machine.Bounded (Audience.Proper false))
      (r.fulfil d.journaled) := by
  intro w hw
  have announce {C : Machine → Prop} (hC : Machine.Stable C) : ∀ e : Event, e.InRange →
      Keeps (Upholds t program memorySize C (Audience.Proper false))
        (Audience.dispatch d.journaled (w.audience.calls + r.calls) e) :=
    Audience.dispatch_keeps hC (fun h => absurd h Bool.false_ne_true) _
  have H {C : Machine → Prop} (hC : Machine.Stable C) := Upholds.admits
    (h := ⟨d.journaled, Audience.dispatch d.journaled (w.audience.calls + r.calls)⟩) hC rfl
    (announce hC)
  have hstep := Upholds.step_bounded (H Machine.stable_bounded) (H Machine.stable_pointing)
  exact Request.perform_keeps (H Machine.stable_bounded).bears
    (fun _ => announce Machine.stable_bounded _ trivial) r (fun _ => hstep)
    (Request.subscribe_keeps fun _ => hr) w hw

end

/-- Fulfil one request after the other, going on after a fault. -/
def Request.serve (d : Device σ) (rs : List Request) (w : World σ Audience) : World σ Audience :=
  rs.foldl (fun w r => (r.fulfil d).final w) w

theorem Request.serve_keeps {d : Device σ} {I : World σ Audience → Prop} {rs : List Request}
    (h : ∀ r ∈ rs, Keeps I (r.fulfil d)) {w : World σ Audience} (hw : I w) : I (serve d rs w) := by
  induction rs generalizing w with
  | nil => exact hw
  | cons r rest ih =>
    exact ih (fun x hx => h x (List.mem_cons_of_mem r hx)) (h r List.mem_cons_self w hw)

/-- What holds of every request that is fulfilled holds of an action that serves them. -/
theorem Act.Closed.serve {P : (α : Type) → Act σ Audience α → Prop} (hP : Closed P) {d : Device σ}
    (h : ∀ r : Request, P Reply (r.fulfil d)) (rs : List Request) :
    ∃ x, P Unit x ∧ ∀ w, x.final w = Request.serve d rs w := by
  induction rs with
  | nil => exact ⟨Pure.pure (), hP.pure (), fun _ => rfl⟩
  | cons r rest ih =>
    obtain ⟨x, hx, hrest⟩ := ih
    refine ⟨(r.fulfil d).attempt >>= fun _ => x, hP.bind (hP.attempt (h r)) fun _ => hx, fun w => ?_⟩
    rw [final_attempt_bind, hrest]
    rfl

/-! ## Main statement -/

/-- Whatever is done to a loaded machine from outside, and whatever its subscribers do meanwhile,
also after faults: the machine is sound and on the same program, catalogue and number of cells, it
has written bytes only, as characters none that is zero, and announced bytes only. If no subscriber
steps, the counter is in the program or right behind it. This holds of every conduct of subscribers,
at the end and after every deed within, and of the scheduled requests of an audience. -/
theorem deeds_uphold_machine {t : Catalogue} {program : List Command} {memorySize : Int} {m : Machine}
    (hload : Machine.load t program memorySize = .ok m) (d : Device σ) (s : σ) :
    (∀ {ω : Type} (own : ω) (mayStep : Bool) (w : World (σ × Array Transfer) (Recorded ω)),
      Reached d.journaled mayStep ⟨m, (s, #[]), .ofOwn own⟩ w →
        (∀ n ∈ w.audience.machines.push w.machine, n.Intact t program memorySize ∧
          (mayStep = false → n.counter ≤ program.length)) ∧
        (∀ x ∈ w.device.2, x.Carried) ∧ ∀ e ∈ w.audience.events, e.InRange) ∧
    ∀ (subscribers : Array Subscriber) (rs : List Request) (w : World (σ × Array Transfer) Audience),
      Request.serve d.journaled rs ⟨m, (s, #[]), ⟨subscribers, #[]⟩⟩ = w →
        w.machine.Intact t program memorySize ∧
        (∀ x ∈ w.device.2, x.Carried) ∧ (∀ n ∈ w.audience.notes, n.event.InRange) ∧
        ((∀ x ∈ subscribers, Request.scheduleStepless x.schedule = true) →
          (∀ r ∈ rs, r.addsStepless = true) → w.machine.counter ≤ program.length) := by
  have hm := Machine.Intact.of_load hload
  have hc : m.Bounded := by
    obtain ⟨-, rfl⟩ := Machine.load_eq hload
    exact Nat.zero_le _
  constructor
  · intro ω own mayStep w hw
    have h : Upholds t program memorySize (fun _ => True)
        (Recorded.Proper (Machine.Intact t program memorySize)) w :=
      hw.upholds_intact ⟨hm, trivial, nofun, nofun, nofun⟩
    have intact : ∀ n ∈ w.audience.machines.push w.machine, n.Intact t program memorySize := by
      intro n hn
      rcases Array.mem_push.mp hn with hn | rfl
      · exact h.audience.machines n hn
      · exact h.machine
    refine ⟨fun n hn => ⟨intact n hn, fun hb => ?_⟩, h.journal, h.audience.events⟩
    subst hb
    have hle : Upholds t program memorySize Machine.Bounded (Recorded.Proper Machine.Bounded) w :=
      hw.upholds_counter ⟨hm, hc, nofun, nofun, nofun⟩
    have hbound : n.counter ≤ n.program.size := by
      rcases Array.mem_push.mp hn with hn | rfl
      · exact hle.audience.machines n hn
      · exact hle.condition
    rwa [(intact n hn).program, List.size_toArray] at hbound
  · rintro subscribers rs w rfl
    have h : Upholds t program memorySize (fun _ => True) (Audience.Proper true)
        (Request.serve d.journaled rs ⟨m, (s, #[]), ⟨subscribers, #[]⟩⟩) :=
      Request.serve_keeps (fun r _ => r.fulfil_keeps) ⟨hm, trivial, nofun, nofun, nofun⟩
    refine ⟨h.machine, h.journal, h.audience.notes, fun hs hr => ?_⟩
    have hle : Upholds t program memorySize Machine.Bounded (Audience.Proper false)
        (Request.serve d.journaled rs ⟨m, (s, #[]), ⟨subscribers, #[]⟩⟩) :=
      Request.serve_keeps (fun r hmem => r.fulfil_keeps_counter (hr r hmem))
        ⟨hm, hc, nofun, nofun, fun _ => hs⟩
    have hbound : Machine.Bounded _ := hle.condition
    unfold Machine.Bounded at hbound
    rwa [hle.machine.program, List.size_toArray] at hbound

/-- A subscriber moves the cursor back whenever it is called, in the middle of a step and at its
end. Another one raises then; the value set next is reduced, and the step is made again. -/
theorem deeds_uphold_machine_reentered :
    let right : Command := ⟨0, 2, "moO", .right⟩
    let m : Machine := ⟨.standard, #[right], #[0, 0], 0, 0, none, .none, false, false, false⟩
    let back : Event → Act (Buffer × Array Transfer) (Recorded Unit) Unit := fun _ =>
      ((Host.telling Buffer.device.journaled fun _ => pure ()).does (.setCursor (-7))).recorded
    let subscribers : Array Subscriber :=
      #[⟨.cursorChanged, "", [(1, [.setCursor (-7), .raise "enough"])]⟩]
    Machine.load .standard [right] 2 = .ok m ∧
      (∃ w, Reached Buffer.device.journaled false ⟨m, (.ofInput "" [], #[]), .ofOwn ()⟩ w ∧
        ((Host.telling Buffer.device.journaled back).does .step).recorded.final
          ⟨m, (.ofInput "" [], #[]), .ofOwn ()⟩ = w ∧
        w.audience.machines.size = 3 ∧
        ∀ n ∈ w.audience.machines.push w.machine, n.Intact .standard [right] 2 ∧ n.counter ≤ 1) ∧
      (∀ x ∈ subscribers, Request.scheduleStepless x.schedule = true) ∧
      ∃ w, Request.serve Buffer.device.journaled [.step, .setValue 300, .step]
          ⟨m, (.ofInput "" [], #[]), ⟨subscribers, #[]⟩⟩ = w ∧
        w.machine.cells = #[0, 44] ∧ w.machine.Intact .standard [right] 2 ∧
        (∀ n ∈ w.audience.notes, n.event.InRange) ∧ w.machine.counter ≤ 1 := by
  intro right m back subscribers
  have hload : Machine.load .standard [right] 2 = .ok m := rfl
  have hback : ∀ e, Conduct Buffer.device.journaled false (back e) := fun _ =>
    .deed _ nofun fun _ => .look fun _ => ()
  have hs : ∀ x ∈ subscribers, Request.scheduleStepless x.schedule = true := by
    simp [subscribers, Request.scheduleStepless, Request.allStepless, Request.stepless]
  have hcells : (Request.serve Buffer.device.journaled [.step, .setValue 300, .step]
      ⟨m, (.ofInput "" [], #[]), ⟨subscribers, #[]⟩⟩).machine.cells = #[0, 44] := by decide
  have upheld := deeds_uphold_machine hload Buffer.device (.ofInput "" [])
  have deed := fun w (h : Reached Buffer.device.journaled false w w) => Reached.deed .step h hback
  have reached := deed ⟨m, (.ofInput "" [], #[]), .ofOwn ()⟩ .start
  obtain ⟨hm, -, hn, hc⟩ := upheld.2 subscribers [.step, .setValue 300, .step] _ rfl
  refine ⟨hload, ⟨_, reached, rfl, by decide, fun n hn => ?_⟩, hs, _, rfl, hcells, hm, hn,
    hc hs (by simp [Request.addsStepless])⟩
  have h := (upheld.1 () false _ reached).1 n hn
  exact ⟨h.1, h.2 rfl⟩

end Moo
