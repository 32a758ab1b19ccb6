import Mathlib.Logic.Function.Iterate
import Mathlib.Logic.Relation
import Moo.Proofs.Device.Refill
import Moo.Proofs.Machine.Calls

/-!
# Steps that fail

A step asks its device before it changes anything, so a device that fails leaves the machine and its
subscribers as they were, whoever they are (`Host.step_of_turn_error`). Before subscribers that only
watch, a step can be made again after a refill of its device whenever every read and write can
(`Host.watching_step_refilled`), and then goes on like a run that had the refill from its start.
-/

namespace Moo

open Act

variable {σ ω : Type} {α : Type}

/-! ## A failing step changes nothing but the device -/

def Device.Fails (d : Device σ) (s : σ) (e : Fault) (s' : σ) : Prop :=
  (∃ channel, d.read channel s = .error e s') ∨
    ∃ channel value, d.write channel value s = .error e s'

namespace Turn

variable {d : Device σ} {s s' : σ} {e : Fault}

theorem read_of_on_error {channel : Channel} {next : Int → α}
    (h : (reads channel next).on d s = .error e s') : d.read channel s = .error e s' := by
  rw [on_reads] at h
  exact given_eq_error.mp h

theorem write_of_on_error {channel : Channel} {value : Int} {a : α}
    (h : (writes channel value a).on d s = .error e s') :
    d.write channel value s = .error e s' := by
  rw [on_writes] at h
  exact given_eq_error.mp h

theorem Servable.fails {x : Turn α} (hx : x.Servable) (h : x.on d s = .error e s') :
    d.Fails s e s' := by
  cases x with
  | quiet a => cases h
  | reads channel next => exact .inl ⟨channel, read_of_on_error h⟩
  | writes channel value a => exact .inr ⟨channel, value, write_of_on_error h⟩
  | fails e => exact hx.elim

end Turn

theorem Device.Unspoilt.of_fails {d : Device σ} {s s' : σ} {e : Fault} (hd : d.Unspoilt)
    (h : d.Fails s e s') : s' = s := by
  obtain ⟨channel, h⟩ | ⟨channel, value, h⟩ := h
  · exact hd.read h
  · exact hd.write h

namespace Host

variable {h : Host σ ω} {w : World σ ω} {e : Fault} {s : σ}

theorem useDevice_of_error {act : EStateM Fault σ α} (ha : act w.device = .error e s) :
    useDevice act w = .error e { w with device := s } := by
  rw [useDevice_apply, ha]

/-- An effect whose turn fails leaves all but the device alone: it asks first. -/
theorem performPlain_of_turn_error (effect : Effect)
    (hon : (w.machine.plainTurn effect).on h.device w.device = .error e s) :
    h.performPlain effect w = .error e { w with device := s } := by
  cases effect with
  | runCell =>
    cases hon
    rfl
  | exchangeChar =>
    dsimp only [Machine.plainTurn] at hon
    by_cases hv : w.machine.value = 0
    · rw [if_pos hv] at hon
      rw [exchangeChar_of_zero h hv]
      exact bind_of_error (useDevice_of_error (Turn.read_of_on_error hon)) _
    · rw [if_neg hv] at hon
      rw [exchangeChar_of_ne_zero h hv]
      exact useDevice_of_error (Turn.write_of_on_error hon)
  | skipIfZero =>
    dsimp only [Machine.plainTurn] at hon
    split at hon <;> cases hon
  | swapRegister =>
    dsimp only [Machine.plainTurn] at hon
    split at hon <;> cases hon
  | writeNumber => exact useDevice_of_error (Turn.write_of_on_error hon)
  | readNumber => exact bind_of_error (useDevice_of_error (Turn.read_of_on_error hon)) _
  | _ => cases hon

theorem perform_of_turn_error (effect : Effect)
    (hon : (w.machine.effectTurn effect).on h.device w.device = .error e s) :
    h.perform effect w = .error e { w with device := s } := by
  by_cases he : effect = .runCell
  · subst he
    dsimp only [Machine.effectTurn, Machine.cellTurn] at hon
    show h.runCell w = _
    cases hc : w.machine.catalogue.at? w.machine.value with
    | none =>
      rw [hc] at hon
      cases hon
    | some c =>
      rw [hc] at hon
      dsimp only at hon
      by_cases hs : w.machine.command? = some c
      · rw [if_pos hs] at hon
        cases hon
      · rw [if_neg hs] at hon
        rw [runCell_of_other h hc hs]
        exact performPlain_of_turn_error c.effect hon
  · rw [Machine.effectTurn_of_ne _ he] at hon
    rw [perform_of_ne h he]
    exact performPlain_of_turn_error effect hon

/-- A step whose turn fails leaves all but the device alone, whoever is subscribed. -/
theorem step_of_turn_error (hon : w.machine.turn.on h.device w.device = .error e s) :
    h.step w = .error e { w with device := s } := by
  cases hf : w.machine.finished with
  | true =>
    rw [Machine.turn_of_finished hf] at hon
    cases hon
  | false =>
    cases hc : w.machine.command? with
    | none =>
      rw [Machine.turn_of_no_command hf hc] at hon
      cases hon
    | some c =>
      rw [Machine.turn_of_command hf hc, Turn.on_map] at hon
      unfold Machine.visitTurn at hon
      by_cases hs : w.machine.skip = .none
      · rw [if_pos hs] at hon
        rw [step_of_none_pending h hf hc hs]
        cases hp : (w.machine.effectTurn c.effect).on h.device w.device with
        | ok x t =>
          rw [hp] at hon
          cases hon
        | error e' t =>
          rw [hp] at hon
          cases hon
          exact bind_of_error (perform_of_turn_error c.effect hp) _
      · rw [if_neg hs] at hon
        cases hon

end Host

/-! ## Steps made again after a refill -/

namespace World

/-- The same machine, the same events taken down, and related devices. -/
structure Like (R : σ → σ → Prop) (v w : World σ (Recorded ω)) : Prop where
  machine : v.machine = w.machine
  events : v.audience.events = w.audience.events
  device : R v.device w.device

def refilled (more : σ → σ) (w : World σ ω) : World σ ω := { w with device := more w.device }

variable {R : σ → σ → Prop}

theorem like_equivalence (hR : Equivalence R) :
    Equivalence (Like R : World σ (Recorded ω) → World σ (Recorded ω) → Prop) where
  refl _ := ⟨rfl, rfl, hR.refl _⟩
  symm h := ⟨h.machine.symm, h.events.symm, hR.symm h.device⟩
  trans h h' := ⟨h.machine.trans h'.machine, h.events.trans h'.events, hR.trans h.device h'.device⟩

end World

namespace Host

variable {d : Device σ} {note : Event → World σ (Recorded ω) → ω} {R : σ → σ → Prop}
  {more : σ → σ} {a b c : World σ (Recorded ω)} {n : Nat} {e : Fault}

theorem turn_of_watching_step_error (h : (watching d note).step b = .error e c) :
    b.machine.turn.on d b.device = .error e c.device ∧ c = { b with device := c.device } := by
  obtain ⟨x, s, v, -, hstep, -⟩ | ⟨e', s, v, hon, hstep, -, rfl, -⟩ :=
    watching_does_cases d note b .step
  · cases hstep.symm.trans h
  · cases hstep.symm.trans h
    have hstep' := step_of_turn_error (h := watching d note) hon
    rw [h] at hstep'
    injection hstep' with _ hc
    exact ⟨hon, hc⟩

theorem watching_step_agree (hm : b.machine = c.machine)
    (he : b.audience.events = c.audience.events)
    (hon : Agree R (b.machine.turn.on d b.device) (b.machine.turn.on d c.device)) :
    Agree (World.Like R) ((watching d note).step b) ((watching d note).step c) := by
  generalize hx : b.machine.turn.on d b.device = x at hon
  generalize hy : b.machine.turn.on d c.device = y at hon
  rw [hm] at hy
  cases hon with
  | ok hR =>
    obtain ⟨b', hb, hbm, hbs, hbe⟩ := @watching_step_of_turn σ ω d note b _ _ hx
    obtain ⟨c', hc, hcm, hcs, hce⟩ := @watching_step_of_turn σ ω d note c _ _ hy
    rw [hb, hc]
    refine .ok ⟨hbm.trans hcm.symm, ?_, ?_⟩
    · rw [hbe, hce, he]
    · rw [hbs, hcs]
      exact hR
  | error hR =>
    rw [step_of_turn_error (h := watching d note) hx, step_of_turn_error (h := watching d note) hy]
    exact .error ⟨hm, he, hR⟩

variable (note) in
theorem watching_step_refilled (hd : d.Refills R more) :
    Refilled (World.Like R) (World.refilled more) (watching d note).step where
  related {b c} h := watching_step_agree h.machine h.events ((hd.on _).related h.device)
  served {b u c} h := by
    obtain ⟨fired, hon, he⟩ := turn_of_watching_step h
    obtain ⟨s, hs, hR⟩ := ((hd.on _).served hon).exists_ok
    obtain ⟨c', hstep, hm, rfl, he'⟩ :=
      @watching_step_of_turn σ ω d note (b.refilled more) _ _ hs
    rw [hstep]
    exact .ok ⟨hm, he'.trans he.symm, hR⟩
  again {b e c} h := by
    obtain ⟨hon, hc⟩ := turn_of_watching_step_error h
    rw [hc]
    exact watching_step_agree rfl rfl ((hd.on _).again hon)

theorem Calls.refilled (hd : d.Refills R more) (h : (watching d note).Calls a n b) :
    ∃ u, (watching d note).Calls (a.refilled more) n u ∧ u.Like R (b.refilled more) := by
  have hstep := watching_step_refilled note hd
  induction h with
  | none => exact ⟨a.refilled more, .none, (World.like_equivalence hd.equivalence).refl _⟩
  | snoc _ hc ih =>
    obtain ⟨u, hu, hlike⟩ := ih
    have hagree := (hstep.related hlike).trans (World.like_equivalence hd.equivalence)
      (hstep.served hc)
    obtain ⟨v, hv, hvc⟩ := hagree.exists_ok
    exact ⟨v, hu.snoc hv, hvc⟩

end Host

/-! ## Any number of attempts -/

namespace Act

variable {R : World σ ω → World σ ω → Prop} {more : World σ ω → World σ ω} {x : Act σ ω Unit}
  {v w : World σ ω}

/-- The action was attempted some number of times, and was cut short each time. -/
def Attempted (x : Act σ ω Unit) : World σ ω → World σ ω → Prop :=
  Relation.ReflTransGen fun v w => ∃ e, x v = .error e w

/-- However often it has failed, the action comes to the same after the refill. -/
theorem Attempted.again (hR : Equivalence R) (hx : Refilled R more x) (h : x.Attempted w v) :
    Agree R (x (more v)) (x (more w)) := by
  induction h with
  | refl => exact .refl hR _
  | tail _ hfail ih =>
    obtain ⟨e, hfail⟩ := hfail
    exact (hx.again hfail).trans hR ih

/-- The result of the action after it was done `n` times, cut short or not. -/
def nth (x : Act σ ω Unit) (n : Nat) (w : World σ ω) : EStateM.Result Fault (World σ ω) Unit :=
  x (Nat.iterate x.final n w)

theorem final_related {y : Act σ ω Unit} (h : Agree R (x v) (y w)) : R (x.final v) (y.final w) := by
  unfold final
  revert h
  generalize x v = r, y w = r'
  rintro (h | h) <;> exact h

theorem nth_agree (hx : ∀ {v w}, R v w → Agree R (x v) (x w)) (h : Agree R (x v) (x w)) (n : Nat) :
    Agree R (x.nth n v) (x.nth n w) := by
  induction n generalizing v w with
  | zero => exact h
  | succ n ih => exact ih (hx (final_related h))

/-- Actions that agree from related worlds, as long as a condition holds in the one, agree as often
as it does. -/
theorem nth_agree_while {P : World σ ω → Prop} {n : Nat}
    (hx : ∀ {v w}, P v → R v w → Agree R (x v) (x w)) (h : R v w)
    (hP : ∀ k < n, P (Nat.iterate x.final k v)) :
    R (Nat.iterate x.final n v) (Nat.iterate x.final n w) ∧
      ∀ k < n, Agree R (x.nth k v) (x.nth k w) := by
  induction n with
  | zero => exact ⟨h, fun k hk => absurd hk (Nat.not_lt_zero k)⟩
  | succ n ih =>
    obtain ⟨hn, hbefore⟩ := ih fun k hk => hP k (Nat.lt_succ_of_lt hk)
    have hnext := hx (hP n (Nat.lt_succ_self n)) hn
    refine ⟨?_, fun k hk => ?_⟩
    · rw [Function.iterate_succ_apply', Function.iterate_succ_apply']
      exact final_related hnext
    · rcases Nat.lt_succ_iff_lt_or_eq.mp hk with hlt | rfl
      · exact hbefore k hlt
      · exact hnext

end Act

/-! ## Main statement -/

namespace Host

/-- The worlds that a host comes to step after step. A step may be cut short, and the device may be
changed between two steps. -/
inductive Driven (h : Host σ ω) (a : World σ ω) : World σ ω → Prop where
  | start : Driven h a a
  | step {b : World σ ω} : Driven h a b → Driven h a (h.step.final b)
  | device {b : World σ ω} (s : σ) : Driven h a b → Driven h a { b with device := s }

variable {d : Device σ} {note : Event → World σ (Recorded ω) → ω} {a b : World σ (Recorded ω)}
  {t : Catalogue} {program : List Command} {memorySize : Int}

theorem Driven.iterate {h : Host σ ω} {a b : World σ ω} (hb : h.Driven a b) (n : Nat) :
    h.Driven a (Nat.iterate h.step.final n b) := by
  induction n with
  | zero => exact hb
  | succ n ih =>
    rw [Function.iterate_succ_apply']
    exact ih.step

theorem Driven.intact (h : (watching d note).Driven a b)
    (ha : a.machine.Intact t program memorySize) : b.machine.Intact t program memorySize := by
  induction h with
  | start => exact ha
  | step _ ih => exact watching_admits.step (fun _ hw => Machine.advance_intact hw) _ ih
  | device s _ ih => exact ih

end Host

/-- A step of a loaded machine, before subscribers that only watch, that is cut short was cut short
by its device and has changed nothing but the device, and nothing at all if failures leave the
device alone. If the device is refilled after any number of such attempts, then what the machine
does from there on, step by step, is what it does on the device that was refilled before. -/
theorem failed_steps_leave_no_trace {t : Catalogue} {program : List Command} {memorySize : Int}
    {m : Machine} (ht : t.SoleRunner) (hload : Machine.load t program memorySize = .ok m)
    (d : Device σ) (s : σ) (note : Event → World σ (Recorded ω) → ω) (own : ω) :
    (∀ a, (Host.watching d note).Driven ⟨m, s, .ofOwn own⟩ a →
      (∀ e v, (Host.watching d note).step a = .error e v →
        v = { a with device := v.device } ∧ d.Fails a.device e v.device ∧ (d.Unspoilt → v = a)) ∧
      ∀ R more, d.Refills R more → ∀ n b v, (Host.watching d note).Calls a n b →
        (Host.watching d note).step.Attempted b v →
        ∃ u, (Host.watching d note).Calls (a.refilled more) n u ∧ u.Like R (b.refilled more) ∧
          ∀ k, Agree (World.Like R) ((Host.watching d note).step.nth k (v.refilled more))
            ((Host.watching d note).step.nth k u)) ∧
    Buffer.device.Unspoilt ∧
    (∀ chars numbers, Buffer.device.Refills Eq (Buffer.fill chars numbers)) ∧
    ∀ lines, Console.device.Refills Console.Alike (Console.fill lines) := by
  refine ⟨fun a ha => ⟨?_, ?_⟩, Buffer.unspoilt, Buffer.refills, Console.refills⟩
  · intro e v hstep
    obtain ⟨hon, hv⟩ := Host.turn_of_watching_step_error hstep
    have hi := ha.intact (.of_load hload)
    have hfails := (hi.servable ht (Machine.load_commands hload)).fails hon
    refine ⟨hv, hfails, fun hd => ?_⟩
    rw [hv, hd.of_fails hfails]
  · intro R more hd n b v hcalls hattempts
    have hstep := Host.watching_step_refilled note hd
    have hlike := World.like_equivalence (ω := ω) hd.equivalence
    obtain ⟨u, hu, hub⟩ := hcalls.refilled hd
    refine ⟨u, hu, hub, Act.nth_agree hstep.related ?_⟩
    exact (hattempts.again hlike hstep).trans hlike (hstep.related (hlike.symm hub))

/-- A number is read that is not there yet: the attempt changes nothing, and once the number is
queued the machine goes on as if it had been there from the start. -/
theorem failed_steps_leave_no_trace_starved :
    let program : List Command := [⟨0, 6, "MoO", .increment⟩, ⟨0, 11, "oom", .readNumber⟩]
    let m : Machine := ⟨.standard, program.toArray, #[0], 0, 0, none, .none, false, false, false⟩
    let h : Host Buffer (Recorded Unit) := .watching Buffer.device fun _ _ => ()
    let a : World Buffer (Recorded Unit) := ⟨m, .ofInput "" [], .ofOwn ()⟩
    let b := h.step.final a
    Catalogue.standard.SoleRunner ∧ Machine.load .standard program 1 = .ok m ∧
      h.step b = .error (.exhausted .integer) b ∧
      ∃ u, h.Calls ⟨m, .ofInput "" [7], .ofOwn ()⟩ 1 u ∧ ∀ k, Agree (World.Like Eq)
        (h.step.nth k (b.refilled (Buffer.fill [] [7]))) (h.step.nth k u) := by
  intro program m h a b
  have hload : Machine.load .standard program 1 = .ok m := rfl
  obtain ⟨hsteps, hunspoilt, hbuffer, -⟩ :=
    failed_steps_leave_no_trace Catalogue.standard_soleRunner hload Buffer.device
      (.ofInput "" []) (fun _ _ => ()) ()
  have hcalls : h.Calls a 1 b := .snoc .none rfl
  obtain ⟨hb, -⟩ := hsteps b (.step .start)
  obtain ⟨-, hrefill⟩ := hsteps a .start
  cases hfail : h.step b with
  | ok u v => cases hfail
  | error e v =>
    obtain ⟨-, -, hv⟩ := hb e v hfail
    obtain rfl := hv hunspoilt
    cases hfail
    obtain ⟨u, hu, -, hk⟩ := hrefill Eq _ (hbuffer [] [7]) 1 b b hcalls (.single ⟨_, rfl⟩)
    exact ⟨Catalogue.standard_soleRunner, hload, rfl, u, hu, hk⟩

end Moo
