import Mathlib.Data.List.Induction
import Moo.Proofs.Machine.Control
import Moo.Proofs.Machine.Picture

/-!
# Commands called outside steps

A command that is called outside steps and goes back (`Machine.CallReturns`) sets the counter and
leaves a mark that only a step takes away. So the next step runs the command that the counter was
set to and leaves the counter there, and the step after it finds the same command again. After any
steps and calls this is the only thing that holds the counter (`steps_among_calls`).
-/

namespace Moo

open Act

variable {σ ω : Type}

namespace Machine

variable {m : Machine} {c k : Command} {e : Effect} {x : Shift}

/-! ## One call -/

/-- Outside a step the command goes back: it does so itself or runs a cell that names another
command that does, and there is a loop start to go back to. -/
def CallReturns (m : Machine) (c : Command) : Prop :=
  (c.effect = .loopBack ∨ c.effect = .runCell ∧
    ∃ k, m.catalogue.at? m.value = some k ∧ m.command? ≠ some k ∧ k.effect = .loopBack) ∧
  ∃ i, i + 1 < m.counter ∧ m.StartsLoop i

/-- Such a call goes to the nearest loop start and leaves the mark of a jump. -/
theorem CallReturns.effectTurn (h : m.CallReturns c) :
    ∃ i, m.NearestStart i ∧
      m.effectTurn c.effect = .quiet ({ m with counter := i, jumped := true }, []) := by
  obtain ⟨he, j, hj, hstart⟩ := h
  obtain ⟨i, hi, hback⟩ := loopBack_of_starts hj hstart
  refine ⟨i, hi, ?_⟩
  rw [← hback]
  obtain he | ⟨he, k, hk, hother, hke⟩ := he
  · rw [he]
    rfl
  · rw [he]
    show m.cellTurn = _
    unfold cellTurn
    rw [hk]
    dsimp only
    rw [if_neg hother, hke]
    rfl

theorem effectTurn_stays (h : ¬ m.CallReturns c) (hx : (m.effectTurn c.effect).Yields x) :
    x.1.counter = m.counter ∧ x.1.jumped = m.jumped := by
  by_cases he : c.effect = .runCell
  · rw [he] at hx
    have hcell : m.cellTurn.Yields x := hx
    unfold cellTurn at hcell
    cases hk : m.catalogue.at? m.value with
    | none =>
      simp only [hk] at hcell
      cases hcell
      exact ⟨rfl, rfl⟩
    | some k =>
      simp only [hk] at hcell
      split at hcell
      · cases hcell
        exact ⟨rfl, rfl⟩
      · next hother =>
        exact (plainTurn_ran hcell).unmoved fun hke i hi hstart =>
          h ⟨.inr ⟨he, k, hk, hother, hke⟩, i, hi, hstart⟩
  · rw [effectTurn_of_ne m he] at hx
    exact (plainTurn_ran hx).unmoved fun hb i hi hstart => h ⟨.inl hb, i, hi, hstart⟩

theorem effectTurn_finished (hx : (m.effectTurn e).Yields x) : x.1.finished = m.finished := by
  by_cases he : e = .runCell
  · subst he
    have hcell : m.cellTurn.Yields x := hx
    unfold cellTurn at hcell
    split at hcell
    · cases hcell
      rfl
    · split at hcell
      · cases hcell
        rfl
      · exact (plainTurn_ran hcell).finished
  · rw [effectTurn_of_ne m he] at hx
    exact (plainTurn_ran hx).finished

/-! ## One step -/

theorem unjumped_of_turn (hx : m.turn.Yields x) (hgo : x.1.finished = false) :
    x.1.jumped = false := by
  have hf : m.finished = false := by
    by_contra hf
    rw [turn_of_finished (Bool.not_eq_false _ ▸ hf)] at hx
    cases hx
    exact hf hgo
  cases hc : m.command? with
  | none =>
    rw [turn_of_no_command hf hc] at hx
    cases hx
    unfold ended at hgo
    rw [hf] at hgo
    cases hgo
  | some c =>
    rw [turn_of_command hf hc] at hx
    obtain ⟨y, -, rfl⟩ := Turn.yields_map hx
    obtain ⟨finished, hm⟩ := y.1.closed_machine
    show y.1.closed.1.jumped = false
    rw [hm]

/-- A step that finds a command and does not go back moves the counter on, but where a jump has set
it before; and it ends the machine just if a cell was refused or there is no command any more. -/
structure Moved (m : Machine) (x : Shift) : Prop where
  counter : x.1.counter = if m.jumped then m.counter else m.counter + 1
  jumped : x.1.jumped = false
  program : x.1.program = m.program
  finished : x.1.finished = (x.1.broken || x.1.command?.isNone)

theorem turn_moved (hf : m.finished = false) (hc : m.command? = some c) (h : ¬ m.GoesBack c)
    (hx : m.turn.Yields x) : m.Moved x := by
  rw [turn_of_command hf hc] at hx
  obtain ⟨y, hy, rfl⟩ := Turn.yields_map hx
  have hvisited := visitTurn_visited hc hy
  obtain ⟨hcounter, hjumped⟩ := visitTurn_stays hc h hy
  have hclosed := closed_of_unfinished (y.1.advance_finished.trans (hvisited.finished.trans hf))
  have hadvance : y.1.advance.counter = if m.jumped then m.counter else m.counter + 1 := by
    unfold advance
    rw [hjumped]
    split
    · exact hcounter
    · exact congrArg (· + 1) hcounter
  unfold Shift.andThen
  rw [hclosed]
  refine ⟨hadvance, ?_, ?_, rfl⟩
  · show y.1.advance.jumped = false
    rw [y.1.advance_machine]
  · show y.1.advance.program = m.program
    rw [y.1.advance_machine]
    exact hvisited.program

end Machine

/-! ## Steps and calls -/

namespace Host

/-- Since the last step a command that was called has gone back. -/
def WentBack (h : Host σ ω) (a : World σ ω) (deeds : List Deed) : Prop :=
  ∃ before c after, deeds = before ++ .call c :: after ∧
    (h.doesAll before a).machine.CallReturns c ∧ .step ∉ after

section

variable {h : Host σ ω} {a : World σ ω} {deeds : List Deed} {c : Command}

theorem doesAll_snoc (h : Host σ ω) (a : World σ ω) (deeds : List Deed) (deed : Deed) :
    h.doesAll (deeds ++ [deed]) a = (h.does deed).final (h.doesAll deeds a) := by
  unfold doesAll
  rw [List.foldl_append]
  rfl

theorem not_wentBack_nil : ¬ h.WentBack a [] := by
  rintro ⟨before, c, after, he, -⟩
  exact List.append_ne_nil_of_right_ne_nil before (List.cons_ne_nil _ after) he.symm

theorem not_wentBack_step : ¬ h.WentBack a (deeds ++ [.step]) := by
  rintro ⟨before, c, after, he, -, hafter⟩
  rcases List.eq_nil_or_concat after with rfl | ⟨after, last, rfl⟩
  · cases (List.append_inj' he rfl).2
  · rw [List.concat_eq_append, ← List.cons_append, ← List.append_assoc] at he
    cases (List.append_inj' he rfl).2
    exact hafter (by simp)

/-- A call goes back itself or comes after one that does. -/
theorem wentBack_call : h.WentBack a (deeds ++ [.call c]) ↔
    (h.doesAll deeds a).machine.CallReturns c ∨ h.WentBack a deeds := by
  constructor
  · rintro ⟨before, k, after, he, hback, hafter⟩
    rcases List.eq_nil_or_concat after with rfl | ⟨after, last, rfl⟩
    · obtain ⟨rfl, hk⟩ := List.append_inj' he rfl
      cases hk
      exact .inl hback
    · rw [List.concat_eq_append] at he hafter
      rw [← List.cons_append, ← List.append_assoc] at he
      obtain ⟨rfl, -⟩ := List.append_inj' he rfl
      exact .inr ⟨before, k, after, rfl, hback, fun hmem => hafter (List.mem_append_left _ hmem)⟩
  · rintro (hback | ⟨before, k, after, rfl, hback, hafter⟩)
    · exact ⟨deeds, c, [], rfl, hback, List.not_mem_nil⟩
    · refine ⟨before, k, after ++ [.call c], by simp, hback, fun hmem => ?_⟩
      rcases List.mem_append.mp hmem with hmem | hmem
      · exact hafter hmem
      · cases List.mem_singleton.mp hmem

end

section

variable {d : Device σ} {note : Event → World σ (Recorded ω) → ω} {a w : World σ (Recorded ω)}
  {deeds : List Deed} {t : Catalogue} {program : List Command} {memorySize : Int}

theorem watching_call (d : Device σ) (note : Event → World σ (Recorded ω) → ω)
    (w : World σ (Recorded ω)) (c : Command) :
    let v := ((watching d note).does (.call c)).final w
    v.machine.finished = w.machine.finished ∧
      (v.machine.jumped = true ↔ w.machine.CallReturns c ∨ w.machine.jumped = true) ∧
      (¬ w.machine.CallReturns c → v.machine.counter = w.machine.counter) := by
  intro v
  obtain ⟨x, s, v', hon, hdone, hm, -⟩ | ⟨e, s, v', hon, hdone, hm, -⟩ :=
    watching_does_cases d note w (.call c)
  · have hv : v.machine = x.1 := by rw [← hm, ← final_of_ok hdone]
    have hx : (w.machine.effectTurn c.effect).Yields x := Turn.yields_of_on hon
    rw [hv]
    refine ⟨Machine.effectTurn_finished hx, ?_, fun h => (Machine.effectTurn_stays h hx).1⟩
    by_cases h : w.machine.CallReturns c
    · obtain ⟨i, -, hturn⟩ := h.effectTurn
      rw [hturn] at hx
      cases hx
      exact iff_of_true rfl (.inl h)
    · rw [(Machine.effectTurn_stays h hx).2]
      exact (or_iff_right h).symm
  · have hv : v.machine = w.machine := by rw [← hm, ← final_of_error hdone]
    -- going back asks for nothing, so it is not cut short
    have h : ¬ w.machine.CallReturns c := by
      intro h
      obtain ⟨i, -, hturn⟩ := h.effectTurn
      have hquiet : (w.machine.effectTurn c.effect).on d w.device = .error e s := hon
      rw [hturn] at hquiet
      cases hquiet
    rw [hv]
    exact ⟨rfl, (or_iff_right h).symm, fun _ => rfl⟩

/-- Calls of which none goes back leave the counter and the mark of a jump alone. -/
theorem doesAll_calls (calls : List Command)
    (h : ¬ (watching d note).WentBack w (calls.map .call)) :
    let v := (watching d note).doesAll (calls.map .call) w
    v.machine.counter = w.machine.counter ∧ (v.machine.jumped = true ↔ w.machine.jumped = true) := by
  induction calls using List.reverseRecOn with
  | nil => exact ⟨rfl, Iff.rfl⟩
  | append_singleton calls c ih =>
    rw [List.map_append, List.map_singleton] at h ⊢
    rw [wentBack_call, not_or] at h
    obtain ⟨hcounter, hjumped⟩ := ih h.2
    obtain ⟨-, hmark, hstays⟩ := watching_call d note ((watching d note).doesAll (calls.map .call) w) c
    rw [doesAll_snoc]
    exact ⟨(hstays h.1).trans hcounter, hmark.trans ((or_iff_right h.1).trans hjumped)⟩

theorem doesAll_intact (ha : a.machine.Intact t program memorySize) (deeds : List Deed) :
    ((watching d note).doesAll deeds a).machine.Intact t program memorySize := by
  induction deeds using List.reverseRecOn with
  | nil => exact ha
  | append_singleton deeds deed ih =>
    rw [doesAll_snoc]
    have hstep : Keeps (fun w => w.machine.Intact t program memorySize) (watching d note).step :=
      watching_admits.step fun _ hw => Machine.advance_intact hw
    exact watching_admits.bears.does (fun _ _ hw => hw) (fun _ => hstep) _ ih

/-- As long as the machine runs, the mark of a jump tells whether a call has gone back since the
last step. -/
theorem doesAll_jumped (hd : d.Reliable) (ht : t.SoleRunner) (hp : ∀ c ∈ program, t.at? c.id = some c)
    (ha : a.machine.Intact t program memorySize) (hj : a.machine.jumped = false)
    (hdeeds : ∀ deed ∈ deeds, deed = .step ∨ ∃ c, deed = .call c)
    (hf : ((watching d note).doesAll deeds a).machine.finished = false) :
    ((watching d note).doesAll deeds a).machine.jumped = true ↔
      (watching d note).WentBack a deeds := by
  induction deeds using List.reverseRecOn with
  | nil =>
    have hstart : ¬ a.machine.jumped = true := by
      rw [hj]
      exact Bool.false_ne_true
    exact iff_of_false hstart not_wentBack_nil
  | append_singleton deeds deed ih =>
    obtain ⟨hbefore, hlast⟩ := List.forall_mem_append.mp hdeeds
    rw [doesAll_snoc] at hf ⊢
    obtain rfl | ⟨c, rfl⟩ := List.forall_mem_singleton.mp hlast
    · have hi : ((watching d note).doesAll deeds a).machine.Intact t program memorySize :=
        doesAll_intact ha deeds
      obtain ⟨x, s, hon⟩ := hi.served ht hp hd ((watching d note).doesAll deeds a).device
      obtain ⟨v, hstep, hm, -⟩ := watching_step_of_turn note hon
      have hv : ((watching d note).does .step).final ((watching d note).doesAll deeds a) = v :=
        final_of_ok hstep
      have hx := Turn.yields_of_on hon
      rw [hv, hm] at hf ⊢
      have hjumped : x.1.jumped = false := Machine.unjumped_of_turn hx hf
      exact iff_of_false (by rw [hjumped]; exact Bool.false_ne_true) not_wentBack_step
    · obtain ⟨hfinished, hmark, -⟩ := watching_call d note ((watching d note).doesAll deeds a) c
      rw [hmark, wentBack_call, ih hbefore (hfinished.symm.trans hf)]

end

end Host

/-! ## Main statement -/

/-- After any steps and calls of a loaded machine, on a reliable device and before subscribers that
only watch, the next step finds a command, nothing is pending, and the step does not go back. It
runs the effect of the command and closes. The counter moves on by one, unless since the last step a
command that was called has gone back: then the counter stays where it is, and if no cell was
refused the step after it finds the same command. Either way calls of which none goes back leave the
counter there. -/
theorem steps_among_calls {t : Catalogue} {program : List Command} {memorySize : Int} {m : Machine}
    (ht : t.SoleRunner) (hload : Machine.load t program memorySize = .ok m) {d : Device σ}
    (hd : d.Reliable) (s : σ) (note : Event → World σ (Recorded ω) → ω) (own : ω)
    {deeds : List Deed} (hdeeds : ∀ deed ∈ deeds, deed = .step ∨ ∃ c, deed = .call c) :
    let h := Host.watching d note
    let w := h.doesAll deeds ⟨m, s, .ofOwn own⟩
    ∀ c, w.machine.finished = false → w.machine.command? = some c → w.machine.skip = .none →
      ¬ w.machine.GoesBack c →
      h.step w = (h.perform c.effect >>= fun _ => h.close) w ∧
      ∃ b, h.step w = .ok () b ∧ b.machine.jumped = false ∧
        (¬ h.WentBack ⟨m, s, .ofOwn own⟩ deeds →
          b.machine.counter = w.machine.counter + 1) ∧
        (h.WentBack ⟨m, s, .ofOwn own⟩ deeds →
          b.machine.counter = w.machine.counter ∧ b.machine.command? = some c ∧
            b.machine.finished = b.machine.broken) ∧
        ∀ calls : List Command, ¬ h.WentBack b (calls.map .call) →
          (h.doesAll (calls.map .call) b).machine.counter = b.machine.counter := by
  intro h w c hf hc hs hback
  have hm : m.Intact t program memorySize := .of_load hload
  have hj : m.jumped = false := (Machine.Resting.of_load hload).jumped
  have hi : w.machine.Intact t program memorySize :=
    Host.doesAll_intact (a := ⟨m, s, .ofOwn own⟩) hm deeds
  have hjumped : w.machine.jumped = true ↔ h.WentBack ⟨m, s, .ofOwn own⟩ deeds :=
    Host.doesAll_jumped hd ht (Machine.load_commands hload) hm hj hdeeds hf
  obtain ⟨x, s', hon⟩ := hi.served ht (Machine.load_commands hload) hd w.device
  obtain ⟨b, hstep, hb, -⟩ := Host.watching_step_of_turn note hon
  have hmoved := Machine.turn_moved hf hc hback (Turn.yields_of_on hon)
  have hcounter := hmoved.counter
  refine ⟨h.step_of_none_pending hf hc hs, b, hstep, ?_⟩
  rw [hb]
  refine ⟨hmoved.jumped, fun hno => ?_, fun hyes => ?_, fun calls hcalls => ?_⟩
  · rw [hcounter, if_neg (hjumped.not.mpr hno)]
  · rw [if_pos (hjumped.mpr hyes)] at hcounter
    have hsame : x.1.command? = some c := by
      unfold Machine.command?
      rw [hmoved.program, hcounter]
      exact hc
    refine ⟨hcounter, hsame, ?_⟩
    rw [hmoved.finished, hsame]
    exact Bool.or_false _
  · rw [← hb]
    exact (Host.doesAll_calls calls hcalls).1

/-- A command that counts up is called after a step. The next step moves on. -/
theorem steps_among_calls_of_increments :
    let plus : Command := ⟨0, 6, "MoO", .increment⟩
    let program : List Command := [plus, plus, plus]
    let m : Machine := ⟨.standard, program.toArray, #[0], 0, 0, none, .none, false, false, false⟩
    let d : Device Unit := ⟨fun _ s => .ok 0 s, fun _ _ s => .ok () s⟩
    let h : Host Unit (Recorded Unit) := .watching d fun _ _ => ()
    let w := h.doesAll [.step, .call plus] ⟨m, (), .ofOwn ()⟩
    Catalogue.standard.SoleRunner ∧ Machine.load .standard program 1 = .ok m ∧ d.Reliable ∧
      (∀ deed ∈ [Deed.step, .call plus], deed = .step ∨ ∃ c, deed = .call c) ∧
      w.machine = { m with cells := #[2], counter := 1 } ∧
      ∃ b, h.step w = .ok () b ∧ b.machine.counter = 2 := by
  intro plus program m d h w
  have hload : Machine.load .standard program 1 = .ok m := rfl
  have hd : d.Reliable := ⟨fun _ s => ⟨0, s, rfl⟩, fun _ _ s _ => ⟨s, rfl⟩⟩
  have hdeeds : ∀ deed ∈ [Deed.step, .call plus], deed = .step ∨ ∃ c, deed = .call c :=
    List.forall_mem_cons.mpr ⟨.inl rfl, List.forall_mem_singleton.mpr (.inr ⟨plus, rfl⟩)⟩
  have hw : w.machine = { m with cells := #[2], counter := 1 } := rfl
  have hplus : w.machine.Means plus .increment := .own nofun
  have hback : ¬ w.machine.GoesBack plus := fun ⟨_, hmeans, _⟩ => nomatch hplus.unique hmeans
  have hstay : ∀ m : Machine, ¬ m.CallReturns plus := by
    rintro m ⟨he | ⟨he, -⟩, -⟩ <;> cases he
  have hnone : ¬ h.WentBack ⟨m, (), .ofOwn ()⟩ ([] ++ [.step] ++ [.call plus]) := fun hw =>
    (Host.wentBack_call.mp hw).elim (hstay _) Host.not_wentBack_step
  obtain ⟨-, b, hstep, -, hmoves, -⟩ := steps_among_calls Catalogue.standard_soleRunner hload hd ()
    (fun _ _ => ()) () hdeeds plus rfl rfl rfl hback
  exact ⟨Catalogue.standard_soleRunner, hload, hd, hdeeds, hw, b, hstep, hmoves hnone⟩

/-- Called after three steps, the command that goes back sets the counter to the loop start at
position 1. The next step runs the loop start, with nothing to go back to, and leaves the counter
there. -/
theorem call_holds_counter :
    let plus : Command := ⟨0, 6, "MoO", .increment⟩
    let start : Command := ⟨0, 7, "MOO", .skipIfZero⟩
    let back : Command := ⟨0, 0, "moo", .loopBack⟩
    let program : List Command := [plus, start, plus, plus]
    let m : Machine := ⟨.standard, program.toArray, #[0], 0, 0, none, .none, false, false, false⟩
    let d : Device Unit := ⟨fun _ s => .ok 0 s, fun _ _ s => .ok () s⟩
    let h : Host Unit (Recorded Unit) := .watching d fun _ _ => ()
    let w := h.doesAll [.step, .step, .step, .call back] ⟨m, (), .ofOwn ()⟩
    Machine.load .standard program 1 = .ok m ∧ d.Reliable ∧
      w.machine.finished = false ∧ w.machine.command? = some start ∧ w.machine.skip = .none ∧
      ¬ w.machine.GoesBack start ∧
      ∃ b, h.step w = .ok () b ∧ w.machine.counter = 1 ∧ b.machine.counter = 1 ∧
        b.machine.command? = some start ∧ b.machine.finished = false := by
  intro plus start back program m d h w
  have hd : d.Reliable := ⟨fun _ s => ⟨0, s, rfl⟩, fun _ _ s _ => ⟨s, rfl⟩⟩
  let told : Recorded Unit := ⟨#[.valueChanged 1, .valueChanged 2], #[], ()⟩
  have hfirst : (h.does .step).final ⟨m, (), .ofOwn ()⟩ =
      ⟨{ m with cells := #[1], counter := 1 }, (), ⟨#[.valueChanged 1], #[], ()⟩⟩ :=
    final_of_ok rfl
  have hsecond : (h.does .step).final
      ⟨{ m with cells := #[1], counter := 1 }, (), ⟨#[.valueChanged 1], #[], ()⟩⟩ =
      ⟨{ m with cells := #[1], counter := 2 }, (), ⟨#[.valueChanged 1], #[], ()⟩⟩ :=
    final_of_ok rfl
  have hthird : (h.does .step).final
      ⟨{ m with cells := #[1], counter := 2 }, (), ⟨#[.valueChanged 1], #[], ()⟩⟩ =
      ⟨{ m with cells := #[2], counter := 3 }, (), told⟩ := final_of_ok rfl
  have hback : Machine.loopBack { m with cells := #[2], counter := 3 } =
      { m with cells := #[2], counter := 1, jumped := true } := by decide +kernel
  have hcall : (h.does (.call back)).final ⟨{ m with cells := #[2], counter := 3 }, (), told⟩ =
      ⟨{ m with cells := #[2], counter := 1, jumped := true }, (), told⟩ := by
    rw [← hback]
    exact final_of_ok rfl
  have hw : w = ⟨{ m with cells := #[2], counter := 1, jumped := true }, (), told⟩ := by
    unfold w Host.doesAll
    simp only [List.foldl_cons, List.foldl_nil, hfirst, hsecond, hthird, hcall]
  have hstep : h.step ⟨{ m with cells := #[2], counter := 1, jumped := true }, (), told⟩ =
      .ok () ⟨{ m with cells := #[2], counter := 1 }, (), told⟩ := rfl
  have hstart : Machine.Means { m with cells := #[2], counter := 1, jumped := true } start
      .skipIfZero := .own nofun
  have hno : ¬ Machine.GoesBack { m with cells := #[2], counter := 1, jumped := true } start :=
    fun ⟨_, hmeans, _⟩ => nomatch hstart.unique hmeans
  rw [hw]
  exact ⟨rfl, hd, rfl, rfl, rfl, hno, _, hstep, rfl, rfl, rfl, rfl⟩

end Moo
