import Moo.Device.Buffer
import Moo.Proofs.Machine.Failure

/-!
# Commands run by their number

`m.replaced q c` is the machine `m` with the command `c` at the position `q` of its program. A step
that finds the command `e` that runs a cell, with the number of another command `c` in the cell,
runs the effect of `c` and closes, and so does the step of the machine with `c` in the place of `e`.
Of the two programs only a jump reads anything, and it reads below the counter
(`Machine.loopBack_replaced`), so the two steps come out alike (`cell_runs_in_place`).
-/

namespace Moo

open Act

variable {σ ω : Type} {α β : Type}

namespace Machine

variable {m : Machine} {q : Nat} {c e : Command}

def replaced (q : Nat) (c : Command) (m : Machine) : Machine :=
  { m with program := m.program.setIfInBounds q c }

theorem command?_replaced_self (h : m.counter < m.program.size) :
    (m.replaced m.counter c).command? = some c := by
  show (m.program.setIfInBounds m.counter c)[m.counter]? = some c
  rw [Array.getElem?_setIfInBounds_self_of_lt h]

theorem isNone_replaced (q : Nat) (c : Command) (m : Machine) :
    (m.replaced q c).command?.isNone = m.command?.isNone := by
  show (m.program.setIfInBounds q c)[m.counter]?.isNone = m.program[m.counter]?.isNone
  rw [Bool.eq_iff_iff, Option.isNone_iff_eq_none, Option.isNone_iff_eq_none,
    Array.getElem?_eq_none_iff, Array.getElem?_eq_none_iff, Array.size_setIfInBounds]

theorem advance_replaced (q : Nat) (c : Command) (m : Machine) :
    (m.replaced q c).advance = m.advance.replaced q c := by
  have hj : (m.replaced q c).jumped = m.jumped := rfl
  unfold advance
  rw [hj]
  split <;> rfl

theorem lastBelow_replaced {program : Array Command} {p : Command → Nat → Bool}
    (hp : ∀ k, p k q = false) (bound : Nat) :
    lastBelow (program.setIfInBounds q c) p bound = lastBelow program p bound := by
  induction bound with
  | zero => rfl
  | succ i ih =>
    unfold lastBelow
    rw [ih]
    by_cases hi : q = i
    · -- both programs pass this position
      subst hi
      cases (program.setIfInBounds q c)[q]? <;> cases program[q]? <;> simp [hp]
    · rw [Array.getElem?_setIfInBounds_ne hi]

theorem jumpWhere_replaced {p : Command → Nat → Bool} (hp : ∀ k, p k q = false) :
    (m.replaced q c).jumpWhere p = (m.jumpWhere p).replaced q c := by
  have hlast : lastBelow (m.replaced q c).program p (m.replaced q c).program.size =
      lastBelow m.program p m.program.size := by
    show lastBelow (m.program.setIfInBounds q c) p (m.program.setIfInBounds q c).size = _
    rw [Array.size_setIfInBounds, lastBelow_replaced hp]
  unfold jumpWhere
  rw [hlast]
  cases lastBelow m.program p m.program.size <;> rfl

theorem loopBack_replaced (h : m.counter ≤ q + 1) :
    (m.replaced q c).loopBack = m.loopBack.replaced q c :=
  jumpWhere_replaced fun _ => Bool.and_eq_false_iff.mpr (.inl (decide_eq_false (Nat.not_lt_of_le h)))

end Machine

/-! ## Actions that do not look at the program -/

def World.replaced (q : Nat) (c : Command) (w : World σ ω) : World σ ω :=
  { w with machine := w.machine.replaced q c }

/-- The action does the same with another command at a position of the program. -/
def Act.Overlooks (q : Nat) (c : Command) (x : Act σ ω α) : Prop :=
  ∀ w, x (w.replaced q c) = viewed (World.replaced q c) (x w)

namespace Act

variable {q : Nat} {c : Command} {w : World σ ω}

theorem bind_replaced {x : Act σ ω α} {f : α → Act σ ω β}
    (hx : x (w.replaced q c) = viewed (World.replaced q c) (x w)) (hf : ∀ a, (f a).Overlooks q c) :
    (x >>= f) (w.replaced q c) = viewed (World.replaced q c) ((x >>= f) w) := by
  cases hr : x w with
  | ok a v =>
    rw [hr] at hx
    rw [bind_of_ok hr, bind_of_ok hx]
    exact hf a v
  | error e v =>
    rw [hr] at hx
    rw [bind_of_error hr, bind_of_error hx]
    rfl

namespace Overlooks

theorem bind {x : Act σ ω α} {f : α → Act σ ω β} (hx : x.Overlooks q c)
    (hf : ∀ a, (f a).Overlooks q c) : (x >>= f).Overlooks q c := fun w => bind_replaced (hx w) hf

theorem look {f : Machine → α} (hf : ∀ m, f (Machine.replaced q c m) = f m) :
    (Act.look f : Act σ ω α).Overlooks q c := by
  intro w
  show EStateM.Result.ok (f (w.machine.replaced q c)) _ = _
  rw [hf]
  rfl

theorem change {f : Machine → Machine}
    (hf : ∀ m, f (Machine.replaced q c m) = (f m).replaced q c) :
    (Act.change f : Act σ ω Unit).Overlooks q c := by
  intro w
  show EStateM.Result.ok () { w with machine := f (w.machine.replaced q c) } = _
  rw [hf]
  rfl

theorem useDevice (act : EStateM Fault σ α) :
    (Act.useDevice act : Act σ ω α).Overlooks q c := by
  intro w
  rw [useDevice_apply, useDevice_apply]
  dsimp only [World.replaced]
  cases act w.device <;> rfl

end Overlooks

end Act

namespace Host

variable {h : Host σ ω} {q : Nat} {c : Command}

def Overlooks (h : Host σ ω) (q : Nat) (c : Command) : Prop :=
  ∀ event, (h.announce event).Overlooks q c

namespace Overlooks

theorem setValue (H : h.Overlooks q c) (n : Int) : (h.setValue n).Overlooks q c :=
  .bind (.change fun _ => rfl) fun _ => H _

theorem setCursor (H : h.Overlooks q c) (position : Int) : (h.setCursor position).Overlooks q c :=
  .bind (.look fun _ => rfl) fun _ => .bind (.change fun _ => rfl) fun _ => H _

theorem setRegister (H : h.Overlooks q c) (n : Option Int) : (h.setRegister n).Overlooks q c :=
  .bind (.change fun _ => rfl) fun _ => H _

/-- The effects that read the cells, the cursor or the register do not look at the program. -/
theorem performPlain (H : h.Overlooks q c) {e : Effect} (he : e ≠ .loopBack) :
    (h.performPlain e).Overlooks q c := by
  intro w
  have hv : (w.replaced q c).machine.value = w.machine.value := rfl
  cases e with
  | loopBack => exact absurd rfl he
  | left => exact H.setCursor _ w
  | right => exact H.setCursor _ w
  | runCell => rfl
  | exchangeChar =>
    by_cases hz : w.machine.value = 0
    · rw [h.exchangeChar_of_zero hz, h.exchangeChar_of_zero (hv.trans hz)]
      exact Act.Overlooks.bind (.useDevice _) H.setValue w
    · rw [h.exchangeChar_of_ne_zero hz, h.exchangeChar_of_ne_zero (hv ▸ hz)]
      exact Act.Overlooks.useDevice _ w
  | decrement => exact H.setValue _ w
  | increment => exact H.setValue _ w
  | skipIfZero =>
    by_cases hz : w.machine.value = 0
    · rw [h.skipIfZero_of_zero hz, h.skipIfZero_of_zero (hv.trans hz)]
      rfl
    · rw [h.skipIfZero_of_ne_zero hz, h.skipIfZero_of_ne_zero (hv ▸ hz)]
      rfl
  | clear => exact H.setValue 0 w
  | swapRegister =>
    have hr : (w.replaced q c).machine.register = w.machine.register := rfl
    cases hn : w.machine.register with
    | none =>
      rw [h.swapRegister_of_none hn, h.swapRegister_of_none (hr.trans hn)]
      exact H.setRegister _ w
    | some n =>
      rw [h.swapRegister_of_some hn, h.swapRegister_of_some (hr.trans hn)]
      exact Act.Overlooks.bind (H.setValue n) (fun _ => H.setRegister none) w
  | writeNumber => exact Act.Overlooks.useDevice _ w
  | readNumber => exact Act.Overlooks.bind (.useDevice _) H.setValue w

theorem finish (H : h.Overlooks q c) : h.finish.Overlooks q c := by
  intro w
  cases hf : w.machine.finished with
  | true =>
    rw [h.finish_of_finished hf, h.finish_of_finished (w := w.replaced q c) hf]
    rfl
  | false =>
    rw [h.finish_of_unfinished hf, h.finish_of_unfinished (w := w.replaced q c) hf]
    exact H .done { w with machine := { w.machine with finished := true } }

theorem close (H : h.Overlooks q c) : h.close.Overlooks q c := by
  intro w
  have ha : (w.replaced q c).machine.advance = w.machine.advance.replaced q c :=
    Machine.advance_replaced q c w.machine
  have hends : ((w.replaced q c).machine.advance.broken ||
      (w.replaced q c).machine.advance.command?.isNone) =
        (w.machine.advance.broken || w.machine.advance.command?.isNone) := by
    rw [ha, Machine.isNone_replaced]
    rfl
  cases he : (w.machine.advance.broken || w.machine.advance.command?.isNone) with
  | true =>
    rw [h.close_of_ends he, h.close_of_ends (hends.trans he), ha]
    exact H.finish { w with machine := w.machine.advance }
  | false =>
    rw [h.close_of_continues he, h.close_of_continues (hends.trans he), ha]
    rfl

/-- With the counter there, or before, a jump does not look at the position either. -/
theorem performPlain_at (H : h.Overlooks q c) {w : World σ ω} (hq : w.machine.counter ≤ q + 1)
    (e : Effect) :
    h.performPlain e (w.replaced q c) = viewed (World.replaced q c) (h.performPlain e w) := by
  by_cases he : e = .loopBack
  · subst he
    show EStateM.Result.ok () { w with machine := (w.machine.replaced q c).loopBack } = _
    rw [Machine.loopBack_replaced hq]
    rfl
  · exact H.performPlain he w

end Overlooks

theorem observed_overlooks (d : Device σ) (q : Nat) (c : Command) : (observed d).Overlooks q c :=
  fun _ _ => rfl

end Host

/-! ## Steps that run a command by its number -/

/-- The next step runs the cell with the command `e`, and the cell holds the number of the other
command `c`. -/
structure Machine.Delegates (m : Machine) (e c : Command) : Prop where
  finished : m.finished = false
  skip : m.skip = .none
  command : m.command? = some e
  runner : e.effect = .runCell
  cell : m.catalogue.at? m.value = some c
  other : c ≠ e

namespace Machine.Delegates

variable {m : Machine} {e c : Command}

theorem effect_ne (hm : m.Delegates e c) (ht : m.catalogue.SoleRunner)
    (he : m.catalogue.at? e.id = some e) : c.effect ≠ .runCell :=
  fun hc => hm.other (ht.eq hm.cell he hc hm.runner)

theorem command?_replaced (hm : m.Delegates e c) : (m.replaced m.counter c).command? = some c :=
  command?_replaced_self (counter_lt hm.command)

theorem turn (hm : m.Delegates e c) : m.turn = (m.plainTurn c.effect).map (·.andThen closed) := by
  rw [turn_of_command hm.finished hm.command]
  have hmeans : m.Means e c.effect := .cell hm.runner hm.cell hm.other
  rw [hmeans.visitTurn hm.skip hm.command]

end Machine.Delegates

theorem Machine.plainTurn_ne_fails {e : Effect} (he : e ≠ .runCell) (m : Machine) (f : Fault) :
    m.plainTurn e ≠ .fails f := by
  cases e with
  | runCell => exact absurd rfl he
  | exchangeChar =>
    dsimp only [plainTurn]
    split <;> nofun
  | skipIfZero =>
    dsimp only [plainTurn]
    split <;> nofun
  | swapRegister =>
    dsimp only [plainTurn]
    split <;> nofun
  | _ => nofun

namespace Turn

variable {d : Device σ} {s s' : σ} {f : Fault}

theorem fails_of_on_error {x : Turn α} (hx : ∀ f, x ≠ .fails f) (h : x.on d s = .error f s') :
    d.Fails s f s' := by
  cases x with
  | quiet a => cases h
  | reads channel next => exact .inl ⟨channel, read_of_on_error h⟩
  | writes channel value a => exact .inr ⟨channel, value, write_of_on_error h⟩
  | fails f => exact absurd rfl (hx f)

theorem map_ne_fails {x : Turn α} (hx : ∀ f, x ≠ .fails f) (g : α → β) (f : Fault) :
    x.map g ≠ .fails f := by
  cases x with
  | fails f => exact absurd rfl (hx f)
  | _ => nofun

end Turn

namespace Host

variable {w : World σ ω} {e c : Command}

/-- A step that finds a command that runs no cell runs its effect and closes. -/
theorem step_of_plain (h : Host σ ω) (hf : w.machine.finished = false)
    (hs : w.machine.skip = .none) (hc : w.machine.command? = some c) (he : c.effect ≠ .runCell) :
    h.step w = (h.performPlain c.effect >>= fun _ => h.close) w := by
  rw [h.step_of_none_pending hf hc hs, h.perform_of_ne he]

/-- A step that runs a command by its number runs its effect and closes. -/
theorem step_of_delegates (h : Host σ ω) (hm : w.machine.Delegates e c) :
    h.step w = (h.performPlain c.effect >>= fun _ => h.close) w := by
  have hself : w.machine.command? ≠ some c := fun hc =>
    hm.other (Option.some.inj (hc.symm.trans hm.command))
  rw [h.step_of_none_pending hm.finished hm.command hm.skip, hm.runner]
  exact bind_congr_at (h.runCell_of_other hm.cell hself) _

/-- So does the step with the command named in the place of the one that runs the cell. -/
theorem step_of_replaced (h : Host σ ω) (hm : w.machine.Delegates e c) (hplain : c.effect ≠ .runCell) :
    h.step (w.replaced w.machine.counter c) =
      (h.performPlain c.effect >>= fun _ => h.close) (w.replaced w.machine.counter c) :=
  h.step_of_plain hm.finished hm.skip hm.command?_replaced hplain

/-- If nobody who is told looks at the program, the two steps come out alike. -/
theorem Overlooks.step_of_delegates {h : Host σ ω} (H : h.Overlooks w.machine.counter c)
    (hm : w.machine.Delegates e c) (hplain : c.effect ≠ .runCell) :
    h.step (w.replaced w.machine.counter c) =
      viewed (World.replaced w.machine.counter c) (h.step w) := by
  rw [h.step_of_delegates hm, h.step_of_replaced hm hplain]
  exact bind_replaced (H.performPlain_at (Nat.le_succ _) c.effect) fun _ => H.close

end Host

/-! ## Main statement -/

/-- A machine, in whatever state, is about to run the cell with the only command of its catalogue
that does so, and the cell holds the number of another command `c`. Whoever is subscribed, the step
runs the effect of `c`, which runs no cell in turn, and closes; and the same does the step with `c`
written in the place of the command. If the subscribers do not look at the program, the two steps
come out alike in everything but that command. Before subscribers that only watch, whatever they
look at, the two come out with the same machine, device and events, or the same fault, and only the
device can cut them short. -/
theorem cell_runs_in_place {m : Machine} {e c : Command} (hm : m.Delegates e c)
    (ht : m.catalogue.SoleRunner) (he : m.catalogue.at? e.id = some e) (d : Device σ) (s : σ) :
    let q := m.counter
    c.effect ≠ .runCell ∧ (m.replaced q c).command? = some c ∧
    (∀ (h : Host σ ω) (audience : ω),
      h.step ⟨m, s, audience⟩ =
        (h.performPlain c.effect >>= fun _ => h.close) ⟨m, s, audience⟩ ∧
      h.step ⟨m.replaced q c, s, audience⟩ =
        (h.performPlain c.effect >>= fun _ => h.close) ⟨m.replaced q c, s, audience⟩ ∧
      (h.Overlooks q c → h.step ⟨m.replaced q c, s, audience⟩ =
        viewed (World.replaced q c) (h.step ⟨m, s, audience⟩))) ∧
    ∀ (note : Event → World σ (Recorded ω) → ω) (kept kept' : Recorded ω),
      kept'.events = kept.events →
      let h := Host.watching d note
      viewed (World.heard Recorded.events) (h.step ⟨m.replaced q c, s, kept'⟩) =
        viewed (World.replaced q c)
          (viewed (World.heard Recorded.events) (h.step ⟨m, s, kept⟩)) ∧
      ∀ f v, h.step ⟨m, s, kept⟩ = .error f v → d.Fails s f v.device := by
  intro q
  have hplain : c.effect ≠ .runCell := hm.effect_ne ht he
  have hfound : (m.replaced q c).command? = some c := hm.command?_replaced
  refine ⟨hplain, hfound, fun h audience => ?_, fun note kept kept' hkept => ⟨?_, ?_⟩⟩
  · let w : World σ ω := ⟨m, s, audience⟩
    have hw : w.machine.Delegates e c := hm
    exact ⟨h.step_of_delegates hw, h.step_of_replaced hw hplain, fun H => H.step_of_delegates hw hplain⟩
  · have hobserved := (Host.observed_overlooks d q c).step_of_delegates (w := ⟨m, s, kept.events⟩) hm
      hplain
    have hshows : (Host.watching d note).Shows Recorded.events (.observed d) := Host.watching_shows
    rw [← hshows.step ⟨m, s, kept⟩, ← hshows.step ⟨m.replaced q c, s, kept'⟩]
    unfold World.heard
    rw [hkept]
    exact hobserved
  · intro f v hstep
    obtain ⟨hon, -⟩ := Host.turn_of_watching_step_error hstep
    rw [hm.turn] at hon
    exact Turn.fails_of_on_error (Turn.map_ne_fails (m.plainTurn_ne_fails hplain) _) hon

/-- The last command of a program runs the cell, which names the command that goes back. The step
goes back to the loop start, with the last command as it is and with the named one written in its
place. -/
theorem cell_runs_in_place_last :
    let start : Command := ⟨0, 7, "MOO", .skipIfZero⟩
    let right : Command := ⟨0, 2, "moO", .right⟩
    let runner : Command := ⟨0, 3, "mOO", .runCell⟩
    let back : Command := ⟨0, 0, "moo", .loopBack⟩
    let m : Machine := ⟨.standard, #[start, right, runner], #[1, 0], 1, 2, none, .none, false, false,
      false⟩
    let h : Host Buffer (Array Event) := .observed Buffer.device
    m.Delegates runner back ∧ Catalogue.standard.SoleRunner ∧
      m.catalogue.at? runner.id = some runner ∧
      (m.replaced 2 back).program = #[start, right, back] ∧
      h.step ⟨m, .ofInput "" [], #[]⟩ = .ok () ⟨{ m with counter := 0 }, .ofInput "" [], #[]⟩ ∧
      h.step ⟨m.replaced 2 back, .ofInput "" [], #[]⟩ =
        .ok () ⟨{ m.replaced 2 back with counter := 0 }, .ofInput "" [], #[]⟩ := by
  intro start right runner back m h
  have hm : m.Delegates runner back := ⟨rfl, rfl, rfl, rfl, rfl, by decide⟩
  have hrunner : m.catalogue.at? runner.id = some runner := rfl
  obtain ⟨-, -, hosts, -⟩ := cell_runs_in_place (ω := Array Event) hm Catalogue.standard_soleRunner
    hrunner Buffer.device (.ofInput "" [])
  obtain ⟨hplain, -, halike⟩ := hosts h #[]
  have hback : m.loopBack = { m with counter := 0, jumped := true } := by decide +kernel
  have hperform : h.performPlain back.effect ⟨m, .ofInput "" [], #[]⟩ =
      .ok () ⟨{ m with counter := 0, jumped := true }, .ofInput "" [], #[]⟩ := by
    show EStateM.Result.ok () (World.mk m.loopBack (Buffer.ofInput "" []) #[]) = _
    rw [hback]
  have hstep : h.step ⟨m, .ofInput "" [], #[]⟩ =
      .ok () ⟨{ m with counter := 0 }, .ofInput "" [], #[]⟩ := by
    rw [hplain, bind_of_ok hperform]
    rfl
  have hreplaced := halike (Host.observed_overlooks Buffer.device _ _)
  rw [hstep] at hreplaced
  exact ⟨hm, Catalogue.standard_soleRunner, hrunner, rfl, hstep, hreplaced⟩

end Moo
