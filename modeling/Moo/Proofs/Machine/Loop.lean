import Moo.Device.Buffer
import Moo.Proofs.Machine.Control
import Moo.Proofs.Machine.Failure
import Moo.Proofs.Machine.Skips

/-!
# Loops around one command

In the language, the three commands `MOO c moo` with a simple command `c` run `c` while the current
cell is not zero. `x.Loops w k u` is that loop by itself: the action `x`, done `k` times and each
time at a cell that is not zero, leads from `w` to `u`, where the cell is zero. A round of three
steps does what `c` does and comes back (`Host.round_of_nonzero`), three steps at a zero cell leave
the loop (`Host.leave_of_zero`), and so a machine leaves the loop just when the loop by itself ends.
-/

namespace Moo

open Act

variable {σ ω : Type}

namespace Catalogue

def simpleNames : List String :=
  ["mOo", "moO", "Moo", "MOo", "MoO", "OOO", "MMM", "OOM", "oom"]

instance (e : Effect) : Decidable e.IsSimple := inferInstanceAs (Decidable (_ ∧ _ ∧ _))

theorem standard_isSimple {name : String} {c : Command} (h : name ∈ simpleNames)
    (hc : standard.named? name = some c) : c.effect.IsSimple := by
  have simple : ∀ name ∈ simpleNames,
      (standard.named? name).all (fun c => decide c.effect.IsSimple) = true := by decide
  have hall := simple name h
  rw [hc] at hall
  exact of_decide_eq_true hall

def standardStart : Command := ⟨0, 7, "MOO", .skipIfZero⟩

def standardBack : Command := ⟨0, 0, "moo", .loopBack⟩

def standardMinus : Command := ⟨0, 5, "MOo", .decrement⟩

theorem standard_named?_start : standard.named? "MOO" = some standardStart := by decide

theorem standard_named?_back : standard.named? "moo" = some standardBack := by decide

theorem standard_named?_minus : standard.named? "MOo" = some standardMinus := by decide

end Catalogue

namespace Machine

variable {m : Machine} {c : Command} {x : Shift}

/-! ## Simple commands -/

theorem plainTurn_at {e : Effect} (he : e.IsSimple) (m : Machine) (position : Nat) :
    plainTurn { m with counter := position } e =
      (m.plainTurn e).map fun x => ({ x.1 with counter := position }, x.2) := by
  have hv : value { m with counter := position } = m.value := rfl
  cases e with
  | loopBack => exact absurd rfl he.1
  | exchangeChar =>
    dsimp only [plainTurn]
    rw [hv]
    split <;> rfl
  | skipIfZero => exact absurd rfl he.2.2
  | swapRegister =>
    dsimp only [plainTurn]
    cases m.register <;> rfl
  | _ => rfl

theorem turn_of_still (hr : m.Resting) (hf : m.finished = false) (hc : m.command? = some c)
    (hstill : ∀ x, (m.visitTurn c).Yields x → m.Still x) (hlt : m.counter + 1 < m.program.size) :
    m.turn = (m.visitTurn c).map fun x => ({ x.1 with counter := m.counter + 1 }, x.2) := by
  rw [turn_of_command hf hc]
  refine Turn.map_congr fun x hx => ?_
  obtain ⟨cells, cursor, register, hm⟩ := (hstill x hx).machine
  have hadvance : x.1.advance = { x.1 with counter := m.counter + 1 } := by
    rw [advance_of_unjumped] <;> rw [hm]
    exact hr.jumped
  have hclosed : x.1.closed = ({ x.1 with counter := m.counter + 1 }, []) := by
    rw [closed_of_continues, hadvance]
    have hsome : ({ x.1 with counter := m.counter + 1 } : Machine).command?.isSome := by
      rw [command?_isSome_iff, hm]
      exact hlt
    rw [hadvance, Bool.or_eq_false_iff]
    exact ⟨by rw [hm]; exact hr.unbroken hf, Option.isNone_eq_false_iff.mpr hsome⟩
  unfold Shift.andThen
  rw [hclosed, List.append_nil]

/-! ## At a loop -/

/-- Between two steps, at the start of a loop of the language around one simple command. -/
structure AtLoop (m : Machine) (c : Command) : Prop where
  catalogue : m.catalogue = .standard
  start : m.program[m.counter]? = Catalogue.standard.named? "MOO"
  body : m.program[m.counter + 1]? = some c
  back : m.program[m.counter + 2]? = Catalogue.standard.named? "moo"
  finished : m.finished = false
  skip : m.skip = .none
  broken : m.broken = false
  jumped : m.jumped = false

theorem AtLoop.lt (h : m.AtLoop c) : m.counter + 2 < m.program.size :=
  (Array.getElem?_eq_some_iff.mp (h.back.trans Catalogue.standard_named?_back)).1

theorem AtLoop.resting_at (h : m.AtLoop c) {position : Nat} (hle : position ≤ m.counter + 2) :
    Resting { m with counter := position } :=
  ⟨h.jumped, fun _ => h.broken, Nat.le_trans hle (Nat.le_of_lt h.lt)⟩

theorem AtLoop.resting (h : m.AtLoop c) : m.Resting := h.resting_at (Nat.le_add_right _ _)

theorem AtLoop.finds_start (h : m.AtLoop c) : m.command? = some Catalogue.standardStart :=
  h.start.trans Catalogue.standard_named?_start

theorem AtLoop.still (h : m.AtLoop c) (hx : m.Still x) : x.1.AtLoop c := by
  obtain ⟨cells, cursor, register, hm⟩ := hx.machine
  rw [hm]
  exact ⟨h.catalogue, h.start, h.body, h.back, h.finished, h.skip, h.broken, h.jumped⟩

theorem AtLoop.turn_start (h : m.AtLoop c) (hv : m.value ≠ 0) :
    m.turn = .quiet ({ m with counter := m.counter + 1 }, []) := by
  have hmeans : m.Means Catalogue.standardStart .skipIfZero := .own nofun
  have hvisit : m.visitTurn Catalogue.standardStart = .quiet (m, []) :=
    (hmeans.visitTurn h.skip h.finds_start).trans (if_neg hv)
  have hstill : ∀ x, (m.visitTurn Catalogue.standardStart).Yields x → m.Still x := by
    rw [hvisit]
    rintro x rfl
    exact .refl m
  have hlt := h.lt
  rw [turn_of_still h.resting h.finished h.finds_start hstill (by omega), hvisit]
  rfl

theorem AtLoop.turn_body (h : m.AtLoop c) (he : c.effect.IsSimple) :
    turn { m with counter := m.counter + 1 } =
      (m.plainTurn c.effect).map fun x => ({ x.1 with counter := m.counter + 2 }, x.2) := by
  have hmeans : Means { m with counter := m.counter + 1 } c c.effect := .own he.2.1
  have hvisit := hmeans.visitTurn h.skip h.body
  have hr := h.resting_at (Nat.le_succ (m.counter + 1))
  rw [turn_of_still hr h.finished h.body (fun x hx => plainTurn_still he (hvisit ▸ hx)) h.lt, hvisit,
    plainTurn_at he, Turn.map_map]

theorem AtLoop.turn_back (h : m.AtLoop c) :
    turn { m with counter := m.counter + 2 } = .quiet (m, []) := by
  have hr := h.resting_at (Nat.le_refl (m.counter + 2))
  have hback : command? { m with counter := m.counter + 2 } = some Catalogue.standardBack :=
    h.back.trans Catalogue.standard_named?_back
  have hstart : StartsLoop { m with counter := m.counter + 2 } m.counter :=
    ⟨_, h.finds_start, by rw [h.catalogue]; exact Catalogue.standard_named?_start⟩
  have hnearest : NearestStart { m with counter := m.counter + 2 } m.counter :=
    ⟨Nat.lt_succ_self _, hstart, fun j hj _ => by dsimp only at hj; omega⟩
  have hmeans : Means { m with counter := m.counter + 2 } Catalogue.standardBack .loopBack :=
    .own nofun
  obtain ⟨i, hi, hturn⟩ :=
    turn_of_goesBack hr h.finished hback ⟨h.skip, hmeans, _, hnearest.before, hstart⟩
  rw [hturn, hi.unique hnearest]

theorem turn_of_skip_inside {skip : Skip} (hr : m.Resting) (hf : m.finished = false)
    (hc : m.command? = some c) (h : m.visitTurn c = .quiet ({ m with skip }, []))
    (hlt : m.counter + 1 < m.program.size) :
    m.turn = .quiet ({ m with counter := m.counter + 1, skip }, []) := by
  obtain ⟨finished, hfin, hturn⟩ := turn_of_skip hr hf hc h
  have hrunning : finished = false := by
    rw [← Bool.not_eq_true, hfin]
    omega
  simp [hturn, hrunning, hf]

theorem AtLoop.turn_start_of_zero (h : m.AtLoop c) (hv : m.value = 0) :
    m.turn = .quiet ({ m with counter := m.counter + 1, skip := .nextThenAfter }, []) := by
  have harms : m.Arms := ⟨h.finished, h.skip, hv, _, h.finds_start, .own nofun⟩
  have hlt := h.lt
  exact turn_of_skip_inside h.resting h.finished h.finds_start (harms.visitTurn h.finds_start)
    (by omega)

theorem AtLoop.turn_body_passed (h : m.AtLoop c) :
    turn { m with counter := m.counter + 1, skip := .nextThenAfter } =
      .quiet ({ m with counter := m.counter + 2, skip := .after }, []) := by
  have hr := h.resting_at (Nat.le_succ (m.counter + 1))
  exact turn_of_skip_inside ⟨hr.jumped, hr.unbroken, hr.counter⟩ h.finished h.body
    (visitTurn_of_pending nofun) h.lt

theorem AtLoop.turn_back_passed (h : m.AtLoop c) :
    ∃ finished, (finished = true ↔ m.counter + 3 = m.program.size) ∧
      turn { m with counter := m.counter + 2, skip := .after } =
        .quiet ({ m with counter := m.counter + 3, finished }, if finished then [.done] else []) := by
  have hr := h.resting_at (Nat.le_refl (m.counter + 2))
  obtain ⟨finished, hfin, hturn⟩ :=
    turn_of_skip (m := { m with counter := m.counter + 2, skip := .after })
      ⟨hr.jumped, hr.unbroken, hr.counter⟩ h.finished
      (h.back.trans Catalogue.standard_named?_back) (visitTurn_of_pending nofun)
  exact ⟨finished, hfin, by simp [hturn, h.skip, Skip.next]⟩

end Machine

/-! ## Rounds -/

/-- The action done so many times, each time at a cell that is not zero, until the cell is zero. -/
inductive Act.Loops (x : Act σ ω Unit) : World σ ω → Nat → World σ ω → Prop where
  | stop {w : World σ ω} : w.machine.value = 0 → Loops x w 0 w
  | again {w u v : World σ ω} {k : Nat} :
      w.machine.value ≠ 0 → x w = .ok () u → Loops x u k v → Loops x w (k + 1) v

/-- The machine has left the loop at whose start the world `u` is, the command behind it next, and
has ended if there is none. Nothing else has changed. -/
structure World.LeavesLoop (u : World σ (Array Event)) (v : World σ (Recorded ω)) : Prop where
  machine : v.machine = { u.machine with
    counter := u.machine.counter + 3, finished := v.machine.finished }
  finished : v.machine.finished = true ↔ u.machine.counter + 3 = u.machine.program.size
  device : v.device = u.device
  events : v.audience.events = u.audience ++ if v.machine.finished then #[Event.done] else #[]

namespace Host

variable {d : Device σ} {note : Event → World σ (Recorded ω) → ω} {a b v : World σ (Recorded ω)}
  {c : Command} {n k : Nat}

theorem observed_perform_simple {e : Effect} (he : e.IsSimple) (w : World σ (Array Event)) :
    (observed d).perform e w =
      match (w.machine.plainTurn e).on d w.device with
      | .ok x s => .ok () ⟨x.1, s, w.audience ++ x.2.toArray⟩
      | .error f s => .error f { w with device := s } := by
  rw [observed_eq, noting_perform, Machine.effectTurn_of_ne _ he.2.1]
  unfold Turn.carry
  cases (w.machine.plainTurn e).on d w.device with
  | ok x s => simp only [World.shifted, List.foldl_push_eq_append']
  | error f s => rfl

/-- Three steps from the start of a loop, the first two of which stay in it. -/
structure Round (h : Host σ ω) (b v : World σ ω) : Prop where
  calls : h.Calls b 3 v
  inside : ∀ n < 3, ∀ u, h.Calls b n u → u.machine.counter < b.machine.counter + 3

theorem Round.of_steps {h : Host σ ω} {b v₁ v₂ v : World σ ω} (h₁ : h.step b = .ok () v₁)
    (h₂ : h.step v₁ = .ok () v₂) (h₃ : h.step v₂ = .ok () v)
    (hc₁ : v₁.machine.counter = b.machine.counter + 1)
    (hc₂ : v₂.machine.counter = b.machine.counter + 2) : h.Round b v := by
  have one := Calls.none.snoc h₁
  have two := one.snoc h₂
  refine ⟨two.snoc h₃, fun n hn u hu => ?_⟩
  obtain rfl | rfl | rfl : n = 0 ∨ n = 1 ∨ n = 2 := by omega
  · rw [hu.unique .none]
    omega
  · rw [hu.unique one]
    omega
  · rw [hu.unique two]
    omega

variable (d note) in
/-- At a zero cell three steps leave the loop. -/
theorem leave_of_zero (hb : b.machine.AtLoop c) (hv : b.machine.value = 0) :
    ∃ v, (watching d note).Round b v ∧ (b.heard Recorded.events).LeavesLoop v := by
  obtain ⟨v₁, h₁, hm₁, hd₁, he₁⟩ := watching_step_of_quiet d note (hb.turn_start_of_zero hv)
  have hbody := hb.turn_body_passed
  dsimp only at hm₁
  rw [← hm₁] at hbody
  obtain ⟨v₂, h₂, hm₂, hd₂, he₂⟩ := watching_step_of_quiet d note hbody
  obtain ⟨finished, hfin, hback⟩ := hb.turn_back_passed
  dsimp only at hm₂
  rw [← hm₂] at hback
  obtain ⟨v, h₃, hm, hd, he⟩ := watching_step_of_quiet d note hback
  refine ⟨v, .of_steps h₁ h₂ h₃ (by rw [hm₁]) (by rw [hm₂]), ?_, ?_, ?_, ?_⟩
  · rw [hm]
    rfl
  · rw [hm]
    exact hfin
  · rw [hd, hd₂, hd₁]
    rfl
  · rw [he, he₂, he₁, hm]
    cases finished <;> simp [World.heard]

variable (note) in
/-- At any other cell a round of three steps does what the command does and comes back. -/
theorem round_of_nonzero (hb : b.machine.AtLoop c) (he : c.effect.IsSimple)
    (hv : b.machine.value ≠ 0) {u : World σ (Array Event)}
    (hu : (observed d).perform c.effect (b.heard Recorded.events) = .ok () u) :
    ∃ v, (watching d note).Round b v ∧ v.heard Recorded.events = u ∧ v.machine.AtLoop c ∧
      v.machine.counter = b.machine.counter := by
  rw [observed_perform_simple he] at hu
  cases hon : (b.machine.plainTurn c.effect).on d b.device with
  | error f s => simp [World.heard, hon] at hu
  | ok x s =>
    simp only [World.heard, hon, EStateM.Result.ok.injEq, true_and] at hu
    have hstill := Machine.plainTurn_still he (Turn.yields_of_on hon)
    have hloop := hb.still hstill
    have hcounter : x.1.counter = b.machine.counter := by
      obtain ⟨cells, cursor, register, hm⟩ := hstill.machine
      rw [hm]
    obtain ⟨v₁, h₁, hm₁, hd₁, he₁⟩ := watching_step_of_quiet d note (hb.turn_start hv)
    have hbody : v₁.machine.turn.on d v₁.device =
        .ok ({ x.1 with counter := b.machine.counter + 2 }, x.2) s := by
      rw [hm₁, hb.turn_body he, Turn.on_map, hd₁, hon]
    obtain ⟨v₂, h₂, hm₂, hd₂, he₂⟩ := watching_step_of_turn note hbody
    have hback : v₂.machine.turn = .quiet (x.1, []) := by
      rw [hm₂, ← hcounter]
      exact hloop.turn_back
    obtain ⟨v, h₃, hm, hd, he⟩ := watching_step_of_quiet d note hback
    refine ⟨v, .of_steps h₁ h₂ h₃ (by rw [hm₁]) (by rw [hm₂]), ?_, hm ▸ hloop, by rw [hm, hcounter]⟩
    rw [← hu, World.heard, hm, hd, hd₂, he, he₂, he₁]
    simp

variable (note) in
/-- If the command fails, so does the second step of the round, and changes nothing but the
device. -/
theorem round_of_failure (hb : b.machine.AtLoop c) (he : c.effect.IsSimple)
    (hv : b.machine.value ≠ 0) {f : Fault} {u : World σ (Array Event)}
    (hu : (observed d).perform c.effect (b.heard Recorded.events) = .error f u) :
    ∃ v, (watching d note).step b = .ok () v ∧
      v.machine = { b.machine with counter := b.machine.counter + 1 } ∧
      (watching d note).step v = .error f { v with device := u.device } := by
  rw [observed_perform_simple he] at hu
  cases hon : (b.machine.plainTurn c.effect).on d b.device with
  | ok x s => simp [World.heard, hon] at hu
  | error f' s =>
    simp only [World.heard, hon, EStateM.Result.error.injEq] at hu
    obtain ⟨rfl, rfl⟩ := hu
    obtain ⟨v, hstep, hm, hd, -⟩ := watching_step_of_quiet d note (hb.turn_start hv)
    have hbody : v.machine.turn.on d v.device = .error f' s := by
      rw [hm, hb.turn_body he, Turn.on_map, hd, hon]
    exact ⟨v, hstep, hm, step_of_turn_error hbody⟩

theorem fails_of_simple {e : Effect} (he : e.IsSimple) {w u : World σ (Array Event)} {f : Fault}
    (hu : (observed d).perform e w = .error f u) : d.Fails w.device f u.device := by
  rw [observed_perform_simple he] at hu
  cases hon : (w.machine.plainTurn e).on d w.device with
  | ok x s => simp [hon] at hu
  | error f' s =>
    simp only [hon, EStateM.Result.error.injEq] at hu
    obtain ⟨rfl, rfl⟩ := hu
    cases hturn : w.machine.plainTurn e with
    | quiet x => simp [hturn, Turn.on] at hon
    | reads channel next => exact .inl ⟨channel, Turn.read_of_on_error (hturn ▸ hon)⟩
    | writes channel value x => exact .inr ⟨channel, value, Turn.write_of_on_error (hturn ▸ hon)⟩
    | fails f =>
      cases e with
      | runCell => exact absurd rfl he.2.1
      | exchangeChar =>
        dsimp only [Machine.plainTurn] at hturn
        split at hturn <;> cases hturn
      | skipIfZero => exact absurd rfl he.2.2
      | swapRegister =>
        dsimp only [Machine.plainTurn] at hturn
        split at hturn <;> cases hturn
      | _ => cases hturn

/-! ## The whole loop -/

variable (note) in
/-- If the loop by itself ends, the machine leaves the loop after three steps for each time round
and three more, and not before. -/
theorem leaves_of_loops (he : c.effect.IsSimple) {w u : World σ (Array Event)}
    (hw : ((observed d).perform c.effect).Loops w k u) (hb : b.machine.AtLoop c)
    (hbw : b.heard Recorded.events = w) :
    (∃ v, (watching d note).Calls b (3 * k + 3) v ∧ v.machine.counter = b.machine.counter + 3 ∧
      u.LeavesLoop v) ∧
      ∀ n < 3 * k + 3, ∀ v, (watching d note).Calls b n v →
        v.machine.counter < b.machine.counter + 3 := by
  induction hw generalizing b with
  | stop hv =>
    subst hbw
    obtain ⟨v, hround, hleaves⟩ := leave_of_zero d note hb hv
    exact ⟨⟨v, hround.calls, by rw [hleaves.machine]; rfl, hleaves⟩, hround.inside⟩
  | @again w u' u k hv hx _ ih =>
    subst hbw
    obtain ⟨b', hround, hheard, hb', hcounter⟩ := round_of_nonzero note hb he hv hx
    obtain ⟨⟨v, hcalls, hbehind, hleaves⟩, hinside⟩ := ih hb' hheard
    refine ⟨⟨v, ?_, hcounter ▸ hbehind, hleaves⟩, fun n hn v' hv' => ?_⟩
    · have hall := hround.calls.append hcalls
      rwa [show 3 + (3 * k + 3) = 3 * (k + 1) + 3 by omega] at hall
    · rcases Nat.lt_or_ge n 3 with hlt | hge
      · exact hround.inside n hlt v' hv'
      · obtain ⟨n, rfl⟩ := Nat.exists_eq_add_of_le hge
        obtain ⟨b'', hfirst, hrest⟩ := hv'.split
        obtain rfl := hfirst.unique hround.calls
        rw [← hcounter]
        exact hinside n (by omega) v' hrest

/-- If the machine comes to the position behind the loop, the loop by itself ends. -/
theorem loops_of_leaves (he : c.effect.IsSimple) (hb : b.machine.AtLoop c)
    (hv : (watching d note).Calls b n v) (hcounter : v.machine.counter = b.machine.counter + 3) :
    ∃ k u, ((observed d).perform c.effect).Loops (b.heard Recorded.events) k u := by
  -- each time round takes three of the calls
  induction n using Nat.strongRecOn generalizing b with
  | ind n ih =>
    by_cases hzero : b.machine.value = 0
    · exact ⟨0, _, .stop hzero⟩
    · cases hx : (observed d).perform c.effect (b.heard Recorded.events) with
      | ok r u =>
        obtain ⟨b', hround, rfl, hb', hcounter'⟩ := round_of_nonzero note hb he hzero hx
        rcases Nat.lt_or_ge n 3 with hlt | hge
        · have := hround.inside n hlt v hv
          omega
        · obtain ⟨n, rfl⟩ := Nat.exists_eq_add_of_le hge
          obtain ⟨b'', hfirst, hrest⟩ := hv.split
          obtain rfl := hfirst.unique hround.calls
          obtain ⟨k, u, hloops⟩ := ih n (by omega) hb' hrest (by omega)
          exact ⟨k + 1, u, .again hzero hx hloops⟩
      | error f u =>
        -- the second of the calls would have been cut short
        obtain ⟨v₁, h₁, hm₁, h₂⟩ := round_of_failure note hb he hzero hx
        match n, hv with
        | 0, .none => omega
        | 1, hv =>
          obtain rfl := hv.unique (Calls.none.snoc h₁)
          rw [hm₁] at hcounter
          dsimp only at hcounter
          omega
        | n + 2, hv =>
          obtain ⟨v₂, htwo, -⟩ := (show n + 2 = 2 + n by omega) ▸ hv |>.split
          cases htwo with
          | snoc hone hstep =>
            rw [hone.unique (Calls.none.snoc h₁), h₂] at hstep
            cases hstep

end Host

/-! ## Counting down -/

namespace Machine

variable {m : Machine}

theorem cursor_lt_of_value (h : m.value ≠ 0) : m.cursor < m.cells.size := by
  rcases Nat.lt_or_ge m.cursor m.cells.size with hlt | hge
  · exact hlt
  · exact absurd (by simp [Machine.value, hge]) h

theorem value_store (h : m.cursor < m.cells.size) (value : Nat) :
    (m.store value).value = value := by
  unfold Machine.value store
  simp [h]

theorem store_store (m : Machine) (value value' : Nat) :
    (m.store value).store value' = m.store value' := by
  unfold store
  simp

theorem store_value (m : Machine) : m.store m.value = m := by
  have hcells : m.cells.setIfInBounds m.cursor m.value = m.cells := by
    unfold Machine.value
    apply Array.ext
    · simp
    · intro i hi hi'
      rw [Array.getElem_setIfInBounds hi']
      split
      · next h =>
        subst h
        simp [hi']
      · rfl
  show { m with cells := m.cells.setIfInBounds m.cursor m.value } = m
  rw [hcells]

end Machine

namespace Host

variable {d : Device σ}

theorem observed_decrement (w : World σ (Array Event)) :
    (observed d).perform .decrement w = .ok () ⟨w.machine.store (Machine.wrap (w.machine.value - 1)),
      w.device, w.audience.push (.valueChanged (Machine.wrap (w.machine.value - 1)))⟩ := rfl

/-- Counting down ends, with zero in the cell, after as many times as the value was. -/
theorem loops_decrement {w : World σ (Array Event)} {n : Nat} (hv : w.machine.value = n)
    (hn : n < 256) : ∃ u, ((observed d).perform .decrement).Loops w n u ∧
      u.machine = w.machine.store 0 ∧ u.device = w.device := by
  induction n generalizing w with
  | zero => exact ⟨w, .stop hv, by rw [← hv, Machine.store_value], rfl⟩
  | succ n ih =>
    have hne : w.machine.value ≠ 0 := by omega
    have hlt := Machine.cursor_lt_of_value hne
    have hwrap : Machine.wrap (w.machine.value - 1) = n := by
      unfold Machine.wrap
      omega
    have hstep := observed_decrement (d := d) w
    rw [hwrap] at hstep
    obtain ⟨u, hloops, hm, hd⟩ :=
      ih (w := ⟨w.machine.store n, w.device, w.audience.push (.valueChanged n)⟩)
        (Machine.value_store hlt n) (by omega)
    exact ⟨u, .again hne hstep hloops, hm.trans (Machine.store_store _ _ _), hd⟩

end Host

/-! ## Main statement -/

/-- A machine at the start of a loop of the language around one simple command, before subscribers
that only watch. At a zero cell three steps leave the loop. At any other cell three steps do what
the command does and come back, unless the command fails with its device. So the machine comes to
the position behind the loop just when the loop by itself ends, in three steps for each time round
and three more, and in the world in which the loop by itself ends. Counting down always ends. -/
theorem loop_runs_while_nonzero {name : String} {c : Command} (hname : name ∈ Catalogue.simpleNames)
    (hc : Catalogue.standard.named? name = some c) (d : Device σ)
    (note : Event → World σ (Recorded ω) → ω) (a : World σ (Recorded ω)) (ha : a.machine.AtLoop c) :
    let h := Host.watching d note
    let alone := (Host.observed d).perform c.effect
    let w := a.heard Recorded.events
    (a.machine.value = 0 → ∃ v, h.Calls a 3 v ∧ w.LeavesLoop v) ∧
    (a.machine.value ≠ 0 →
      (∀ u, alone w = .ok () u → ∃ v, h.Calls a 3 v ∧ v.heard Recorded.events = u ∧
        v.machine.AtLoop c ∧ v.machine.counter = a.machine.counter) ∧
      ∀ f u, alone w = .error f u → d.Fails a.device f u.device ∧
        ∃ v, h.step a = .ok () v ∧ v.machine = { a.machine with counter := a.machine.counter + 1 } ∧
          h.step v = .error f { v with device := u.device }) ∧
    ((∃ n v, h.Calls a n v ∧ v.machine.counter = a.machine.counter + 3) ↔
      ∃ k u, alone.Loops w k u) ∧
    (∀ k u, alone.Loops w k u →
      (∃ v, h.Calls a (3 * k + 3) v ∧ v.machine.counter = a.machine.counter + 3 ∧ u.LeavesLoop v) ∧
      ∀ n < 3 * k + 3, ∀ v, h.Calls a n v → v.machine.counter ≠ a.machine.counter + 3) ∧
    (name = "MOo" → a.machine.Sound → ∃ u, alone.Loops w a.machine.value u ∧
      u.machine = a.machine.store 0 ∧ u.device = a.device) := by
  intro h alone w
  have he := Catalogue.standard_isSimple hname hc
  refine ⟨fun hv => ?_, fun hv => ⟨fun u hu => ?_, fun f u hu => ?_⟩, ⟨?_, ?_⟩, fun k u hw => ?_,
    fun hdown hsound => ?_⟩
  · obtain ⟨v, hround, hleaves⟩ := Host.leave_of_zero d note ha hv
    exact ⟨v, hround.calls, hleaves⟩
  · obtain ⟨v, hround, hback⟩ := Host.round_of_nonzero note ha he hv hu
    exact ⟨v, hround.calls, hback⟩
  · exact ⟨Host.fails_of_simple he hu, Host.round_of_failure note ha he hv hu⟩
  · rintro ⟨n, v, hv, hcounter⟩
    exact Host.loops_of_leaves he ha hv hcounter
  · rintro ⟨k, u, hw⟩
    obtain ⟨⟨v, hcalls, hbehind, -⟩, -⟩ := Host.leaves_of_loops note he hw ha rfl
    exact ⟨_, v, hcalls, hbehind⟩
  · obtain ⟨hleaves, hinside⟩ := Host.leaves_of_loops note he hw ha rfl
    exact ⟨hleaves, fun n hn v hv => Nat.ne_of_lt (hinside n hn v hv)⟩
  · subst hdown
    obtain rfl : c = Catalogue.standardMinus :=
      Option.some.inj (hc.symm.trans Catalogue.standard_named?_minus)
    exact Host.loops_decrement rfl hsound.value_lt

/-- At a cell that holds two, the loop that counts down ends after nine steps, and the machine with
it. -/
theorem loop_runs_while_nonzero_from_two :
    let minus : Command := ⟨0, 5, "MOo", .decrement⟩
    let program : Array Command := #[⟨0, 7, "MOO", .skipIfZero⟩, minus, ⟨0, 0, "moo", .loopBack⟩]
    let m : Machine := ⟨.standard, program, #[2], 0, 0, none, .none, false, false, false⟩
    let h : Host Buffer (Recorded Unit) := .watching Buffer.device fun _ _ => ()
    let a : World Buffer (Recorded Unit) := ⟨m, .ofInput "" [], .ofOwn ()⟩
    "MOo" ∈ Catalogue.simpleNames ∧ Catalogue.standard.named? "MOo" = some minus ∧
      a.machine.AtLoop minus ∧
      ∃ v, h.Calls a 9 v ∧ v.machine = { m with cells := #[0], counter := 3, finished := true } ∧
        v.audience.events = #[.valueChanged 1, .valueChanged 0, .done] := by
  intro minus program m h a
  have hname : "MOo" ∈ Catalogue.simpleNames := by decide
  have hminus : Catalogue.standard.named? "MOo" = some minus := by decide
  have hloop : a.machine.AtLoop minus := ⟨rfl, Catalogue.standard_named?_start.symm, rfl,
    Catalogue.standard_named?_back.symm, rfl, rfl, rfl, rfl⟩
  have hdown : ((Host.observed Buffer.device).perform .decrement).Loops (a.heard Recorded.events) 2
      ⟨{ m with cells := #[0] }, .ofInput "" [], #[.valueChanged 1, .valueChanged 0]⟩ :=
    .again (by decide) rfl (.again (by decide) rfl (.stop rfl))
  obtain ⟨-, -, -, hleaves, -⟩ :=
    loop_runs_while_nonzero hname hminus Buffer.device (fun _ _ => ()) a hloop
  obtain ⟨⟨v, hcalls, -, hm, hfinished, -, hevents⟩, -⟩ := hleaves 2 _ hdown
  have hend : v.machine.finished = true := hfinished.mpr rfl
  rw [hend] at hm hevents
  exact ⟨hname, hminus, hloop, v, hcalls, hm, hevents⟩

end Moo
