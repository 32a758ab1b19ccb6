import Moo.Proofs.Machine.Sound
import Moo.Proofs.Machine.Turn

/-!
# The course of a machine

What a step does to the counter, the pending skip and the flags of a machine that rests between two
steps (`Machine.Resting`). `x.Yields a` says that `a` may come of the turn `x`, whatever the device
answers. A step that finds a command passes it, runs an effect or refuses a cell, and nothing else
(`Machine.visitTurn_visited`), and then advances and perhaps ends (`Machine.turn_stepped`).
-/

namespace Moo

variable {σ : Type} {α β : Type}

namespace Turn

def Yields : Turn α → α → Prop
  | .quiet a, b => b = a
  | .reads _ next, b => ∃ n, b = next n
  | .writes _ _ a, b => b = a
  | .fails _, _ => False

theorem yields_of_on {x : Turn α} {d : Device σ} {s s' : σ} {a : α} (h : x.on d s = .ok a s') :
    x.Yields a := by
  cases x with
  | quiet a =>
    cases h
    rfl
  | reads channel next =>
    unfold on at h
    cases hr : d.read channel s with
    | ok n s =>
      simp only [hr] at h
      cases h
      exact ⟨n, rfl⟩
    | error e s =>
      simp only [hr] at h
      cases h
  | writes channel value a =>
    unfold on at h
    cases hw : d.write channel value s with
    | ok u s =>
      simp only [hw] at h
      cases h
      rfl
    | error e s =>
      simp only [hw] at h
      cases h
  | fails e => cases h

theorem yields_map {x : Turn α} {f : α → β} {b : β} (h : (x.map f).Yields b) :
    ∃ a, x.Yields a ∧ b = f a := by
  cases x with
  | quiet a => exact ⟨a, rfl, h⟩
  | reads channel next =>
    obtain ⟨n, rfl⟩ := h
    exact ⟨next n, ⟨n, rfl⟩, rfl⟩
  | writes channel value a => exact ⟨a, rfl, h⟩
  | fails e => exact h.elim

/-- What is changed alike wherever it may come of the turn. -/
theorem map_congr {x : Turn α} {f g : α → β} (h : ∀ a, x.Yields a → f a = g a) :
    x.map f = x.map g := by
  cases x with
  | quiet a => exact congrArg quiet (h a rfl)
  | reads channel next => exact congrArg (reads channel) (funext fun n => h (next n) ⟨n, rfl⟩)
  | writes channel value a => exact congrArg (writes channel value) (h a rfl)
  | fails e => rfl

end Turn

/-- An effect is simple if it neither jumps, nor runs a cell, nor arms a skip. -/
def Effect.IsSimple (e : Effect) : Prop :=
  e ≠ .loopBack ∧ e ≠ .runCell ∧ e ≠ .skipIfZero

namespace Machine

variable {m n : Machine} {c : Command} {e : Effect} {x : Shift}

/-! ## Effects -/

theorem lastBelow_satisfies {program : Array Command} {p : Command → Nat → Bool} {bound i : Nat}
    (h : lastBelow program p bound = some i) : ∃ c, program[i]? = some c ∧ p c i = true := by
  induction bound with
  | zero => cases h
  | succ j ih =>
    unfold lastBelow at h
    split at h
    · next c hc =>
      split at h
      · next hp =>
        cases h
        exact ⟨c, hc, hp⟩
      · exact ih h
    · exact ih h

theorem lastBelow_unsatisfied {program : Array Command} {p : Command → Nat → Bool} {bound j : Nat}
    (hj : j < bound) (h : ∀ i, lastBelow program p bound = some i → i < j)
    (hc : program[j]? = some c) : p c j = false := by
  induction bound with
  | zero => omega
  | succ k ih =>
    unfold lastBelow at h
    by_cases hjk : j = k
    · -- a command that satisfies the condition right below the bound would have been found
      subst hjk
      rw [hc] at h
      cases hp : p c j with
      | false => rfl
      | true =>
        have hlt := h j (if_pos hp)
        omega
    · refine ih (by omega) fun i hi => ?_
      cases hk : program[k]? with
      | none => exact h i (by rw [hk]; exact hi)
      | some c' =>
        cases hp : p c' k with
        | false => exact h i (by rw [hk]; simpa [hp] using hi)
        | true =>
          have hlt := h k (by rw [hk]; exact if_pos hp)
          omega

theorem jumpWhere_last (p : Command → Nat → Bool) (m : Machine) :
    (∃ i c, m.program[i]? = some c ∧ p c i = true ∧
        (∀ j k, m.program[j]? = some k → p k j = true → j ≤ i) ∧
        m.jumpWhere p = { m with counter := i, jumped := true }) ∨
      ((∀ j k, m.program[j]? = some k → p k j = false) ∧ m.jumpWhere p = m) := by
  have size : ∀ {j : Nat} {k : Command}, m.program[j]? = some k → j < m.program.size :=
    fun hk => (Array.getElem?_eq_some_iff.mp hk).1
  unfold jumpWhere
  cases hl : lastBelow m.program p m.program.size with
  | none => exact .inr ⟨fun j k hk => lastBelow_unsatisfied (size hk) (by simp [hl]) hk, rfl⟩
  | some i =>
    obtain ⟨c, hc, hp⟩ := lastBelow_satisfies hl
    refine .inl ⟨i, c, hc, hp, fun j k hk hpk => ?_, rfl⟩
    rcases Nat.lt_or_ge i j with hlt | hle
    · have hno := lastBelow_unsatisfied (p := p) (size hk) (by simpa [hl] using hlt) hk
      simp [hno] at hpk
    · exact hle

def StartsLoop (m : Machine) (i : Nat) : Prop :=
  ∃ c, m.program[i]? = some c ∧ m.catalogue.named? Catalogue.loopStart = some c

/-- The loop start nearest to the counter, not counting one right before it. -/
structure NearestStart (m : Machine) (i : Nat) : Prop where
  before : i + 1 < m.counter
  starts : m.StartsLoop i
  nearest : ∀ j, j + 1 < m.counter → m.StartsLoop j → j ≤ i

theorem StartsLoop.lt {i : Nat} (h : m.StartsLoop i) : i < m.program.size := by
  obtain ⟨c, hc, -⟩ := h
  exact (Array.getElem?_eq_some_iff.mp hc).1

theorem NearestStart.unique {i j : Nat} (hi : m.NearestStart i) (hj : m.NearestStart j) : i = j := by
  have hle := hj.nearest i hi.before hi.starts
  have hge := hi.nearest j hj.before hj.starts
  omega

theorem loopBack_cases (m : Machine) :
    (∃ i, m.NearestStart i ∧ m.loopBack = { m with counter := i, jumped := true }) ∨
      ((∀ i, i + 1 < m.counter → ¬ m.StartsLoop i) ∧ m.loopBack = m) := by
  unfold loopBack
  obtain ⟨i, c, hc, hp, hlast, h⟩ | ⟨hnone, h⟩ := m.jumpWhere_last fun c i =>
      i + 1 < m.counter && decide (some c = m.catalogue.named? Catalogue.loopStart)
  · simp only [Bool.and_eq_true, decide_eq_true_eq] at hp hlast
    refine .inl ⟨i, ⟨hp.1, ⟨c, hc, hp.2.symm⟩, ?_⟩, h⟩
    rintro j hj ⟨k, hk, hstart⟩
    exact hlast j k hk ⟨hj, hstart.symm⟩
  · refine .inr ⟨?_, h⟩
    rintro j hj ⟨k, hk, hstart⟩
    simpa [hj, hstart] using hnone j k hk

theorem loopBack_of_starts {j : Nat} (hj : j + 1 < m.counter) (h : m.StartsLoop j) :
    ∃ i, m.NearestStart i ∧ m.loopBack = { m with counter := i, jumped := true } :=
  m.loopBack_cases.resolve_right fun hnone => hnone.1 j hj h

/-- The shift changes nothing but cells, cursor and register, and tells of nothing else. -/
structure Still (m : Machine) (x : Shift) : Prop where
  machine : ∃ cells cursor register, x.1 = { m with cells, cursor, register }
  events : ∀ event ∈ x.2, event.OfState

theorem Still.refl (m : Machine) : m.Still (m, []) := ⟨⟨_, _, _, rfl⟩, nofun⟩

theorem valueSet_still (m : Machine) (value : Int) : m.Still (m.valueSet value) :=
  ⟨⟨_, _, _, rfl⟩, List.forall_mem_singleton.mpr trivial⟩

theorem cursorSet_still (m : Machine) (position : Int) : m.Still (m.cursorSet position) :=
  ⟨⟨_, _, _, rfl⟩, List.forall_mem_singleton.mpr trivial⟩

theorem registerSet_still (m : Machine) (value : Option Int) : m.Still (m.registerSet value) :=
  ⟨⟨_, _, _, rfl⟩, List.forall_mem_singleton.mpr trivial⟩

theorem Still.andThen {f : Machine → Shift} (h : m.Still x) (hf : x.1.Still (f x.1)) :
    m.Still (x.andThen f) := by
  obtain ⟨cells, cursor, register, hx⟩ := h.machine
  obtain ⟨cells', cursor', register', hfx⟩ := hf.machine
  refine ⟨⟨cells', cursor', register', hfx.trans ?_⟩, List.forall_mem_append.mpr ⟨h.events, hf.events⟩⟩
  rw [hx]

/-- What an effect that runs no other command does to the course of a machine. -/
structure Ran (m : Machine) (e : Effect) (x : Shift) : Prop where
  catalogue : x.1.catalogue = m.catalogue
  program : x.1.program = m.program
  broken : x.1.broken = m.broken
  finished : x.1.finished = m.finished
  skip : x.1.skip = if e = .skipIfZero ∧ m.value = 0 then .nextThenAfter else m.skip
  jumps : e = .loopBack → x.1 = m.loopBack
  stays : e ≠ .loopBack → x.1.counter = m.counter ∧ x.1.jumped = m.jumped
  events : ∀ event ∈ x.2, event.OfState

theorem Still.ran (h : m.Still x) (hb : e ≠ .loopBack) (hs : e = .skipIfZero → m.value ≠ 0) :
    m.Ran e x := by
  have hskip : ¬ (e = .skipIfZero ∧ m.value = 0) := fun ⟨he, hv⟩ => hs he hv
  obtain ⟨cells, cursor, register, hx⟩ := h.machine
  refine ⟨?_, ?_, ?_, ?_, ?_, fun he => absurd he hb, fun _ => ?_, h.events⟩ <;> rw [hx]
  · rw [if_neg hskip]
  · exact ⟨rfl, rfl⟩

theorem loopBack_ran (m : Machine) : m.Ran .loopBack (m.loopBack, []) := by
  refine ⟨?_, ?_, ?_, ?_, ?_, fun _ => rfl, fun h => absurd rfl h, nofun⟩ <;>
    (obtain ⟨i, -, hi⟩ | ⟨-, hi⟩ := m.loopBack_cases <;> rw [hi])
  · rfl
  · rfl

theorem plainTurn_still (he : e.IsSimple) (h : (m.plainTurn e).Yields x) : m.Still x := by
  cases e with
  | loopBack => exact absurd rfl he.1
  | runCell => exact absurd rfl he.2.1
  | skipIfZero => exact absurd rfl he.2.2
  | left =>
    cases h
    exact m.cursorSet_still _
  | right =>
    cases h
    exact m.cursorSet_still _
  | exchangeChar =>
    dsimp only [plainTurn] at h
    split at h
    · obtain ⟨n, rfl⟩ := h
      exact m.valueSet_still n
    · cases h
      exact .refl m
  | decrement =>
    cases h
    exact m.valueSet_still _
  | increment =>
    cases h
    exact m.valueSet_still _
  | clear =>
    cases h
    exact m.valueSet_still _
  | swapRegister =>
    dsimp only [plainTurn] at h
    split at h
    · cases h
      exact m.registerSet_still _
    · cases h
      exact (m.valueSet_still _).andThen (registerSet_still _ _)
  | writeNumber =>
    cases h
    exact .refl m
  | readNumber =>
    obtain ⟨n, rfl⟩ := h
    exact m.valueSet_still n

theorem plainTurn_ran (h : (m.plainTurn e).Yields x) : m.Ran e x := by
  by_cases he : e.IsSimple
  · exact (plainTurn_still he h).ran he.1 fun hs => absurd hs he.2.2
  · cases e with
    | loopBack =>
      cases h
      exact m.loopBack_ran
    | runCell => exact h.elim
    | skipIfZero =>
      dsimp only [plainTurn] at h
      split at h
      · next hv =>
        cases h
        exact ⟨rfl, rfl, rfl, rfl, (if_pos ⟨rfl, hv⟩).symm, nofun, fun _ => ⟨rfl, rfl⟩, nofun⟩
      · next hv =>
        cases h
        exact (Still.refl m).ran nofun fun _ => hv
    | _ => exact absurd ⟨nofun, nofun, nofun⟩ he

/-! ## Visits -/

/-- Running the command refuses the cell: it holds the number of no command, or of this one. -/
def Refuses (m : Machine) (c : Command) (info : BadEval) : Prop :=
  c.effect = .runCell ∧
    (m.catalogue.at? m.value = none ∧ info = .invalidCommand m.value ∨
      m.catalogue.at? m.value = some c ∧ info = .evalLoop)

/-- The effect that a command stands for: its own, or that of the other command that the cell
names. -/
inductive Means (m : Machine) (c : Command) : Effect → Prop where
  | own : c.effect ≠ .runCell → Means m c c.effect
  | cell {k : Command} :
      c.effect = .runCell → m.catalogue.at? m.value = some k → k ≠ c → Means m c k.effect

theorem Means.not_refuses {info : BadEval} (h : m.Means c e) : ¬ m.Refuses c info := by
  rintro ⟨hc, hv⟩
  cases h with
  | own ho => exact ho hc
  | cell _ hk hne =>
    obtain ⟨hv, -⟩ | ⟨hv, -⟩ := hv
    · rw [hv] at hk
      cases hk
    · exact hne (Option.some.inj (hk.symm.trans hv))

/-- Running the command that the counter points at refuses the cell, or is what the command stands
for. -/
theorem effectTurn_cases (hc : m.command? = some c) :
    (∃ info, m.Refuses c info ∧ m.effectTurn c.effect = .quiet (m.refused info)) ∨
      ∃ e, m.Means c e ∧ m.effectTurn c.effect = m.plainTurn e := by
  by_cases he : c.effect = .runCell
  · rw [he]
    show (∃ info, _ ∧ m.cellTurn = _) ∨ ∃ e, _ ∧ m.cellTurn = _
    unfold cellTurn
    cases hk : m.catalogue.at? m.value with
    | none => exact .inl ⟨_, ⟨he, .inl ⟨hk, rfl⟩⟩, rfl⟩
    | some k =>
      -- the command found is refused if the counter points at it, so just if it is this one
      by_cases hs : k = c
      · subst hs
        exact .inl ⟨_, ⟨he, .inr ⟨hk, rfl⟩⟩, if_pos hc⟩
      · have hne : m.command? ≠ some k := fun h => hs (Option.some.inj (h.symm.trans hc))
        exact .inr ⟨_, .cell he hk hs, if_neg hne⟩
  · exact .inr ⟨_, .own he, m.effectTurn_of_ne he⟩

theorem Means.unique {e e' : Effect} (h : m.Means c e) (h' : m.Means c e') : e = e' := by
  cases h with
  | own he =>
    cases h' with
    | own => rfl
    | cell he' => exact absurd he' he
  | cell he hk =>
    cases h' with
    | own he' => exact absurd he he'
    | cell _ hk' =>
      rw [hk] at hk'
      cases hk'
      rfl

theorem Means.visitTurn (h : m.Means c e) (hs : m.skip = .none) (hc : m.command? = some c) :
    m.visitTurn c = m.plainTurn e := by
  unfold Machine.visitTurn
  rw [if_pos hs]
  obtain ⟨info, hi, -⟩ | ⟨e', he', ht⟩ := m.effectTurn_cases hc
  · exact absurd hi h.not_refuses
  · obtain rfl := he'.unique h
    exact ht

/-- What a step does with the command that it finds: pass it, run what it stands for, or refuse the
cell. -/
inductive Visited (m : Machine) (c : Command) : Shift → Prop where
  | passed : m.skip ≠ .none → Visited m c ({ m with skip := m.skip.next }, [])
  | ran {e : Effect} {x : Shift} : m.skip = .none → m.Means c e → m.Ran e x → Visited m c x
  | refused {info : BadEval} : m.skip = .none → m.Refuses c info → Visited m c (m.refused info)

theorem Visited.program (h : m.Visited c x) : x.1.program = m.program := by
  cases h with
  | passed _ => rfl
  | ran _ _ hran => exact hran.program
  | refused _ _ => rfl

theorem Visited.finished (h : m.Visited c x) : x.1.finished = m.finished := by
  cases h with
  | passed _ => rfl
  | ran _ _ hran => exact hran.finished
  | refused _ _ => rfl

theorem visitTurn_visited (hc : m.command? = some c) (h : (m.visitTurn c).Yields x) :
    m.Visited c x := by
  unfold visitTurn at h
  split at h
  · next hs =>
    obtain ⟨info, hr, ht⟩ | ⟨e, he, ht⟩ := m.effectTurn_cases hc
    · rw [ht] at h
      cases h
      exact .refused hs hr
    · rw [ht] at h
      exact .ran hs he (plainTurn_ran h)
  · next hs =>
    cases h
    exact .passed hs

/-! ## Steps -/

/-- Between two steps: no jump is under way, only an end follows a refusal, and the counter is in
the program or right behind it. -/
structure Resting (m : Machine) : Prop where
  jumped : m.jumped = false
  unbroken : m.finished = false → m.broken = false
  counter : m.counter ≤ m.program.size

theorem Resting.of_load {t : Catalogue} {program : List Command} {memorySize : Int}
    (h : load t program memorySize = .ok m) : m.Resting := by
  obtain ⟨-, rfl⟩ := load_eq h
  exact ⟨rfl, fun _ => rfl, Nat.zero_le _⟩

theorem counter_lt (hc : m.command? = some c) : m.counter < m.program.size :=
  command?_isSome_iff.mp (by rw [hc]; rfl)

theorem Resting.counter_eq (h : m.Resting) (hc : m.command? = none) :
    m.counter = m.program.size := by
  have hle := h.counter
  have hn : ¬ m.counter < m.program.size := by
    rw [← command?_isSome_iff, hc]
    exact Bool.false_ne_true
  omega

theorem closed_machine (m : Machine) : ∃ finished,
    m.closed.1 = { m with counter := m.advance.counter, jumped := false, finished } := by
  have ha := m.advance_machine
  unfold closed ended
  split
  · split
    · exact ⟨m.finished, ha⟩
    · refine ⟨true, ?_⟩
      dsimp only
      rw [ha]
  · exact ⟨m.finished, ha⟩

theorem closed_of_ends (he : (m.advance.broken || m.advance.command?.isNone) = true)
    (hf : m.advance.finished = false) :
    m.closed = ({ m.advance with finished := true }, [.done]) := by
  have hne : ¬ m.advance.finished = true := by rw [hf]; exact Bool.false_ne_true
  unfold closed ended
  rw [if_pos he, if_neg hne]

theorem closed_of_continues (he : (m.advance.broken || m.advance.command?.isNone) = false) :
    m.closed = (m.advance, []) := by
  unfold closed
  rw [he]
  rfl

theorem closed_of_unfinished (hf : m.advance.finished = false) :
    m.closed = ({ m.advance with finished := m.advance.broken || m.advance.command?.isNone },
      if m.advance.broken || m.advance.command?.isNone then [.done] else []) := by
  cases he : (m.advance.broken || m.advance.command?.isNone) with
  | true => exact closed_of_ends he hf
  | false =>
    rw [closed_of_continues he]
    exact congrArg (·, []) (by rw [← hf])

theorem closed_of_unbroken (hb : m.broken = false) (hf : m.finished = false)
    (hc : m.advance.counter ≤ m.program.size) :
    ∃ finished, (finished = true ↔ m.advance.counter = m.program.size) ∧
      m.closed = ({ m with counter := m.advance.counter, jumped := false, finished },
        if finished then [.done] else []) := by
  have ha := m.advance_machine
  have hb' : m.advance.broken = false := m.advance_broken.trans hb
  have hf' : m.advance.finished = false := m.advance_finished.trans hf
  have hp : m.advance.program = m.program := by rw [ha]
  cases he : (m.advance.broken || m.advance.command?.isNone) with
  | true =>
    have hn := he
    rw [hb', Bool.false_or, Option.isNone_iff_eq_none] at hn
    have hge : ¬ m.advance.counter < m.program.size := by
      rw [← hp, ← command?_isSome_iff, hn]
      exact Bool.false_ne_true
    refine ⟨true, iff_of_true rfl (by omega), ?_⟩
    rw [closed_of_ends he hf', ha]
    rfl
  | false =>
    have hs := he
    rw [hb', Bool.false_or, Option.isNone_eq_false_iff, command?_isSome_iff, hp] at hs
    refine ⟨false, iff_of_false Bool.false_ne_true (by omega), ?_⟩
    rw [closed_of_continues he]
    exact congrArg (·, []) (ha.trans (by rw [hf]))

/-- A step without a refusal: it tells of the state, and ends the machine just when the counter
comes right behind the program. -/
structure Went (m : Machine) (x : Shift) : Prop where
  catalogue : x.1.catalogue = m.catalogue
  program : x.1.program = m.program
  broken : x.1.broken = false
  jumped : x.1.jumped = false
  counter : x.1.counter ≤ m.program.size
  finished : x.1.finished = true ↔ x.1.counter = m.program.size
  events : ∃ told : List Event, (∀ event ∈ told, event.OfState) ∧
    x.2 = told ++ if x.1.finished then [.done] else []

inductive Stepped (m : Machine) : Shift → Prop where
  | ended : m.finished = true → Stepped m (m, [])
  /-- There is no command, and the machine ends. -/
  | past : m.finished = false → m.command? = none →
      Stepped m ({ m with finished := true }, [.done])
  /-- A cell is refused, and the machine ends. -/
  | refused {c : Command} {info : BadEval} :
      m.finished = false → m.command? = some c → m.skip = .none → m.Refuses c info →
      Stepped m
        ({ m with counter := m.counter + 1, broken := true, finished := true }, [.badEval info, .done])
  | went {c : Command} {x : Shift} :
      m.finished = false → m.command? = some c →
      (∀ info, m.skip = .none → ¬ m.Refuses c info) → m.Went x → Stepped m x

theorem went_of_unbroken {x : Shift} (hcat : x.1.catalogue = m.catalogue)
    (hp : x.1.program = m.program) (hb : x.1.broken = false) (hf : x.1.finished = false)
    (hc : x.1.advance.counter ≤ m.program.size) (he : ∀ event ∈ x.2, event.OfState) :
    m.Went (x.andThen closed) := by
  obtain ⟨finished, hfin, hx⟩ := closed_of_unbroken hb hf (by rw [hp]; exact hc)
  rw [hp] at hfin
  unfold Shift.andThen
  rw [hx]
  exact ⟨hcat, hp, hb, rfl, hc, hfin, x.2, he, rfl⟩

theorem Visited.stepped (hr : m.Resting) (hf : m.finished = false) (hc : m.command? = some c)
    (h : m.Visited c x) : m.Stepped (x.andThen closed) := by
  have hlt := counter_lt hc
  have hb := hr.unbroken hf
  cases h with
  | passed hs =>
    refine .went hf hc (fun _ h => absurd h hs) (went_of_unbroken rfl rfl hb hf ?_ nofun)
    rw [advance_of_unjumped]
    · exact hlt
    · exact hr.jumped
  | @ran e x hs he hx =>
    refine .went hf hc (fun _ _ => he.not_refuses) ?_
    refine went_of_unbroken hx.catalogue hx.program (hx.broken.trans hb) (hx.finished.trans hf) ?_
      hx.events
    -- a jump back stays below the counter and is not advanced; all else is advanced by one
    by_cases hb : e = .loopBack
    · rw [hx.jumps hb]
      obtain ⟨i, hi, hl⟩ | ⟨-, hl⟩ := m.loopBack_cases
      · rw [hl, advance_of_jumped rfl]
        exact Nat.le_of_lt hi.starts.lt
      · rw [hl, advance_of_unjumped hr.jumped]
        exact hlt
    · obtain ⟨hcount, hj⟩ := hx.stays hb
      rw [advance_of_unjumped (hj.trans hr.jumped)]
      show x.1.counter + 1 ≤ _
      omega
  | refused hs hrefuse =>
    have hclosed : closed { m with broken := true } =
        ({ m with counter := m.counter + 1, broken := true, finished := true }, [.done]) := by
      have ha : advance { m with broken := true } =
          { m with counter := m.counter + 1, broken := true } := advance_of_unjumped hr.jumped
      rw [closed_of_ends (by rw [ha]; rfl) (by rw [ha]; exact hf), ha]
    show Stepped m ((closed { m with broken := true }).1, _ ++ (closed { m with broken := true }).2)
    rw [hclosed]
    exact .refused hf hc hs hrefuse

/-- What comes of a step. -/
theorem turn_stepped (hr : m.Resting) (h : m.turn.Yields x) : m.Stepped x := by
  cases hf : m.finished with
  | true =>
    rw [turn_of_finished hf] at h
    cases h
    exact .ended hf
  | false =>
    cases hc : m.command? with
    | none =>
      rw [turn_of_no_command hf hc] at h
      unfold ended at h
      rw [hf] at h
      cases h
      exact .past hf hc
    | some c =>
      rw [turn_of_command hf hc] at h
      obtain ⟨y, hy, rfl⟩ := Turn.yields_map h
      exact (visitTurn_visited hc hy).stepped hr hf hc

theorem Stepped.resting (h : m.Stepped x) (hr : m.Resting) : x.1.Resting := by
  cases h with
  | ended _ => exact hr
  | past _ _ => exact ⟨hr.jumped, nofun, hr.counter⟩
  | refused _ hc _ _ => exact ⟨hr.jumped, nofun, counter_lt hc⟩
  | went _ _ _ h => exact ⟨h.jumped, fun _ => h.broken, by rw [h.program]; exact h.counter⟩

theorem Stepped.broken_iff (h : m.Stepped x) (hr : m.Resting) (hf : m.finished = false) :
    x.1.broken = true ↔ ∃ info, .badEval info ∈ x.2 := by
  have hb := hr.unbroken hf
  cases h with
  | ended h =>
    rw [hf] at h
    cases h
  | past _ _ => simp [hb]
  | refused _ _ _ _ => simp
  | went _ _ _ hw =>
    obtain ⟨told, htold, hx⟩ := hw.events
    have hnone : ∀ info, .badEval info ∉ x.2 := by
      intro info hmem
      rw [hx] at hmem
      rcases List.mem_append.mp hmem with hmem | hmem
      · exact htold _ hmem
      · split at hmem <;> simp at hmem
    simp [hw.broken, hnone]

end Machine

end Moo
