import Moo.Proofs.Machine.Chronicle
import Moo.Proofs.Machine.Failure
import Moo.Proofs.Machine.Stepping

/-!
# Code behind the program

`m.followedBy rest` is the machine `m` with more commands behind its program. A jump looks below the
counter only (`Machine.loopBack_followedBy`), so a step that finds a command in the program makes
the same turn with and without the code behind it; where the program ends, the code behind it comes
next instead of the end (`Machine.turn_followedBy`). A run on the longer program therefore copies
the run on the shorter one, step for step, as far as that one goes (`runs_ignore_code_behind`).
-/

namespace Moo

open Act

variable {σ ω : Type}

namespace Machine

variable {m : Machine} {c : Command} {rest : List Command} {x : Shift}

/-- The machine with more commands behind its program. -/
def followedBy (rest : List Command) (m : Machine) : Machine :=
  { m with program := m.program ++ rest.toArray }

/-! ## Looking for a command -/

theorem command?_followedBy (h : m.counter < m.program.size) :
    (m.followedBy rest).command? = m.command? := Array.getElem?_append_left h

theorem command?_followedBy_end (h : m.counter = m.program.size) :
    (m.followedBy rest).command? = rest.head? := by
  show (m.program ++ rest.toArray)[m.counter]? = _
  rw [Array.getElem?_append_right (Nat.le_of_eq h.symm), h, Nat.sub_self, List.getElem?_toArray,
    List.head?_eq_getElem?]

theorem lastBelow_congr {program program' : Array Command} {p : Command → Nat → Bool} {bound : Nat}
    (h : ∀ i < bound, program[i]? = program'[i]?) :
    lastBelow program p bound = lastBelow program' p bound := by
  induction bound with
  | zero => rfl
  | succ i ih =>
    unfold lastBelow
    rw [h i (Nat.lt_succ_self i), ih fun j hj => h j (Nat.lt_succ_of_lt hj)]

theorem lastBelow_of_unsatisfied {program : Array Command} {p : Command → Nat → Bool} {low : Nat}
    (h : ∀ i, low ≤ i → ∀ c, p c i = false) (k : Nat) :
    lastBelow program p (low + k) = lastBelow program p low := by
  induction k with
  | zero => rfl
  | succ k ih =>
    rw [← Nat.add_assoc, ← ih, lastBelow]
    split
    · next c _ => rw [if_neg (by rw [h (low + k) (by omega) c]; exact Bool.false_ne_true)]
    · rfl

theorem jumpWhere_followedBy {p : Command → Nat → Bool}
    (hp : ∀ i, m.program.size ≤ i → ∀ c, p c i = false) :
    (m.followedBy rest).jumpWhere p = (m.jumpWhere p).followedBy rest := by
  have hlast : lastBelow (m.followedBy rest).program p (m.followedBy rest).program.size =
      lastBelow m.program p m.program.size := by
    show lastBelow (m.program ++ rest.toArray) p (m.program ++ rest.toArray).size = _
    rw [Array.size_append, lastBelow_of_unsatisfied hp]
    exact lastBelow_congr fun i hi => Array.getElem?_append_left hi
  unfold jumpWhere
  rw [hlast]
  cases lastBelow m.program p m.program.size <;> rfl

theorem loopBack_followedBy (h : m.counter ≤ m.program.size) :
    (m.followedBy rest).loopBack = m.loopBack.followedBy rest := by
  refine jumpWhere_followedBy fun i hi c => Bool.and_eq_false_iff.mpr (.inl ?_)
  have hge : ¬ i + 1 < m.counter := by omega
  exact decide_eq_false hge

/-! ## One step -/

theorem plainTurn_followedBy (h : m.counter ≤ m.program.size) (e : Effect) :
    (m.followedBy rest).plainTurn e =
      (m.plainTurn e).map fun x => (x.1.followedBy rest, x.2) := by
  have hv : (m.followedBy rest).value = m.value := rfl
  cases e with
  | loopBack => exact congrArg (fun n => Turn.quiet (n, [])) (loopBack_followedBy h)
  | exchangeChar =>
    dsimp only [plainTurn]
    rw [hv]
    split <;> rfl
  | skipIfZero =>
    dsimp only [plainTurn]
    rw [hv]
    split <;> rfl
  | swapRegister =>
    have hr : (m.followedBy rest).register = m.register := rfl
    dsimp only [plainTurn]
    rw [hr]
    cases m.register <;> rfl
  | _ => rfl

theorem cellTurn_followedBy (h : m.counter < m.program.size) :
    (m.followedBy rest).cellTurn = m.cellTurn.map fun x => (x.1.followedBy rest, x.2) := by
  unfold cellTurn
  rw [command?_followedBy h, show (m.followedBy rest).catalogue.at? (m.followedBy rest).value =
    m.catalogue.at? m.value from rfl]
  cases m.catalogue.at? m.value with
  | none => rfl
  | some c =>
    dsimp only
    split
    · rfl
    · exact plainTurn_followedBy (Nat.le_of_lt h) c.effect

theorem effectTurn_followedBy (h : m.counter < m.program.size) (e : Effect) :
    (m.followedBy rest).effectTurn e =
      (m.effectTurn e).map fun x => (x.1.followedBy rest, x.2) := by
  by_cases he : e = .runCell
  · subst he
    exact cellTurn_followedBy h
  · rw [effectTurn_of_ne _ he, effectTurn_of_ne _ he]
    exact plainTurn_followedBy (Nat.le_of_lt h) e

theorem visitTurn_followedBy (h : m.counter < m.program.size) (c : Command) :
    (m.followedBy rest).visitTurn c = (m.visitTurn c).map fun x => (x.1.followedBy rest, x.2) := by
  unfold visitTurn
  show (if m.skip = .none then (m.followedBy rest).effectTurn c.effect else _) = _
  split
  · exact effectTurn_followedBy h c.effect
  · rfl

/-- What the longer program makes of a shift on the shorter one: where the shorter one comes to its
end, the machine goes on and does not tell of an end. -/
def Shift.followedBy (rest : List Command) (x : Shift) : Shift :=
  if x.1.finished = true ∧ x.1.broken = false ∧ rest ≠ [] then
    (Machine.followedBy rest { x.1 with finished := false }, x.2.dropLast)
  else (x.1.followedBy rest, x.2)

theorem Shift.followedBy_of_ended (hf : x.1.finished = true) (hb : x.1.broken = false)
    (hrest : rest ≠ []) :
    x.followedBy rest = (Machine.followedBy rest { x.1 with finished := false }, x.2.dropLast) :=
  if_pos ⟨hf, hb, hrest⟩

theorem Shift.followedBy_of_not_ended
    (h : x.1.finished = true → x.1.broken = true ∨ rest = []) :
    x.followedBy rest = (x.1.followedBy rest, x.2) := by
  refine if_neg ?_
  rintro ⟨hf, hb, hrest⟩
  rcases h hf with h | h
  · simp [h] at hb
  · exact hrest h

/-- What was told before a shift that tells of an end is told in the longer program as well. -/
theorem Shift.followedBy_append (told : List Event) (hx : x.1.finished = true → x.2 ≠ []) :
    Shift.followedBy rest (x.1, told ++ x.2) =
      ((x.followedBy rest).1, told ++ (x.followedBy rest).2) := by
  unfold followedBy
  split
  · next h => exact congrArg (_, ·) (List.dropLast_append_of_ne_nil (hx h.1))
  · rfl

theorem advance_followedBy (m : Machine) (rest : List Command) :
    (m.followedBy rest).advance = m.advance.followedBy rest := by
  have hj : (m.followedBy rest).jumped = m.jumped := rfl
  unfold advance
  rw [hj]
  split <;> rfl

theorem isNone_followedBy (h : m.counter ≤ m.program.size) :
    (m.followedBy rest).command?.isNone = (m.command?.isNone && rest.isEmpty) := by
  rcases Nat.lt_or_eq_of_le h with hlt | heq
  · have hs := command?_isSome_iff.mpr hlt
    rw [command?_followedBy hlt, Option.isNone_eq_false_iff.mpr hs, Bool.false_and]
  · have hn : m.command? = none := by
      show m.program[m.counter]? = none
      rw [heq, Array.getElem?_size]
    rw [command?_followedBy_end heq, hn]
    cases rest <;> rfl

/-- The close of a step ends the machine on the longer program only after a refusal, unless nothing
follows. -/
theorem closed_followedBy (hle : m.advance.counter ≤ m.advance.program.size)
    (hf : m.advance.finished = false) :
    (m.followedBy rest).closed = m.closed.followedBy rest := by
  have ha := advance_followedBy m rest
  have hf' : (m.followedBy rest).advance.finished = false := by
    rw [ha]
    exact hf
  rw [closed_of_unfinished hf, closed_of_unfinished hf', ha, isNone_followedBy hle]
  generalize m.advance = n
  have hb : (n.followedBy rest).broken = n.broken := rfl
  rw [hb]
  -- the two closes differ only where nothing was refused, no command is left and some follow
  cases hn : n.broken <;> cases n.command?.isNone <;> cases rest <;>
    simp [Shift.followedBy, followedBy, hn]

theorem closed_told (hf : m.advance.finished = false) (hend : m.closed.1.finished = true) :
    m.closed.2 ≠ [] := by
  rw [closed_of_unfinished hf] at hend ⊢
  have he : (m.advance.broken || m.advance.command?.isNone) = true := hend
  rw [he]
  exact List.cons_ne_nil _ _

/-- What is visited advances within the program or to its end. -/
theorem Visited.advance_le (h : m.Visited c x) (hr : m.Resting) (hf : m.finished = false)
    (hc : m.command? = some c) : x.1.advance.counter ≤ x.1.advance.program.size := by
  have hs := h.stepped hr hf hc
  have hrest := (hs.resting hr).counter
  obtain ⟨finished, hclosed⟩ := x.1.closed_machine
  have hp : x.1.advance.program = x.1.program := by rw [advance_machine]
  change x.1.closed.1.counter ≤ x.1.closed.1.program.size at hrest
  rw [hclosed] at hrest
  rw [hp]
  exact hrest

/-- A step that finds a command in the shorter program makes the same turn in the longer one, but
for the end of the shorter one. -/
theorem turn_followedBy (hr : m.Resting) (hf : m.finished = false) (hc : m.command? = some c) :
    (m.followedBy rest).turn = m.turn.map (Shift.followedBy rest) := by
  have hlt := counter_lt hc
  have hc' : (m.followedBy rest).command? = some c := (command?_followedBy hlt).trans hc
  have hf' : (m.followedBy rest).finished = false := hf
  rw [turn_of_command hf hc, turn_of_command hf' hc', visitTurn_followedBy hlt, Turn.map_map,
    Turn.map_map]
  refine Turn.map_congr fun x hx => ?_
  have hv := visitTurn_visited hc hx
  have hfin : x.1.advance.finished = false := by
    rw [advance_machine]
    exact hv.finished.trans hf
  calc Shift.andThen (x.1.followedBy rest, x.2) closed
      = ((x.1.closed.followedBy rest).1, x.2 ++ (x.1.closed.followedBy rest).2) := by
        rw [← closed_followedBy (hv.advance_le hr hf hc) hfin]
        rfl
    _ = (x.andThen closed).followedBy rest := (Shift.followedBy_append x.2 (closed_told hfin)).symm

end Machine

/-! ## Runs -/

namespace World

/-- The world `b'` is that of the longer program where the world of the shorter one is `b`. -/
structure Copies (rest : List Command) (b b' : World σ (Recorded ω)) : Prop where
  device : b'.device = b.device
  shift : (b'.machine, b'.audience.events.toList) =
    Machine.Shift.followedBy rest (b.machine, b.audience.events.toList)

variable {rest : List Command} {b b' : World σ (Recorded ω)}

theorem Copies.of_not_ended (h : b.Copies rest b')
    (he : b.machine.finished = true → b.machine.broken = true ∨ rest = []) :
    b'.machine = b.machine.followedBy rest ∧ b'.audience.events = b.audience.events := by
  have hs := h.shift
  rw [Machine.Shift.followedBy_of_not_ended he] at hs
  injection hs with hm hlog
  exact ⟨hm, Array.toList_inj.mp hlog⟩

theorem Copies.of_unfinished (h : b.Copies rest b') (hf : b.machine.finished = false) :
    b'.machine = b.machine.followedBy rest ∧ b'.audience.events = b.audience.events :=
  h.of_not_ended fun hend => by simp [hf] at hend

theorem Copies.machine (h : b.Copies rest b') : b'.machine = { b.machine with
    program := b.machine.program ++ rest.toArray, finished := b'.machine.finished } := by
  have hm : b'.machine =
      (Machine.Shift.followedBy rest (b.machine, b.audience.events.toList)).1 :=
    congrArg Prod.fst h.shift
  rw [hm]
  unfold Machine.Shift.followedBy
  split <;> rfl

/-- Between two steps of a run of a program that is not empty. -/
structure UnderWay (b : World σ (Recorded ω)) : Prop where
  resting : b.machine.Resting
  alive : b.machine.Alive
  chronicle : Chronicle b.machine.finished b.audience.events.toList
  broken_iff : b.machine.broken = true ↔ ∃ info, .badEval info ∈ b.audience.events

theorem UnderWay.of_load {t : Catalogue} {program : List Command} {memorySize : Int} {m : Machine}
    (hne : program ≠ []) (hload : Machine.load t program memorySize = .ok m) (s : σ) (own : ω) :
    UnderWay (⟨m, s, .ofOwn own⟩ : World σ (Recorded ω)) := by
  refine ⟨.of_load hload, .inr ?_, ?_, ?_⟩
  · rw [Machine.command?_isSome_iff, (Machine.Intact.of_load hload).program, List.size_toArray]
    obtain ⟨-, rfl⟩ := Machine.load_eq hload
    exact List.length_pos_iff.mpr hne
  · obtain ⟨-, rfl⟩ := Machine.load_eq hload
    exact .nil
  · obtain ⟨-, rfl⟩ := Machine.load_eq hload
    simp [Recorded.ofOwn]

end World

namespace Host

variable {d : Device σ} {note : Event → World σ (Recorded ω) → ω} {rest : List Command}
  {a a' b b' c : World σ (Recorded ω)} {e : Fault} {outcomes : List (Option Fault)}

/-- Steps, each of a machine that has not ended, by how they came out: with a fault, or with
none. -/
inductive Tries (h : Host σ ω) (a : World σ ω) : List (Option Fault) → World σ ω → Prop where
  | none : Tries h a [] a
  | made {outcomes : List (Option Fault)} {b c : World σ ω} : Tries h a outcomes b →
      b.machine.finished = false → h.step b = .ok () c → Tries h a (outcomes ++ [Option.none]) c
  | failed {outcomes : List (Option Fault)} {b c : World σ ω} {e : Fault} : Tries h a outcomes b →
      b.machine.finished = false → h.step b = .error e c → Tries h a (outcomes ++ [some e]) c

theorem Tries.driven {h : Host σ ω} {a b : World σ ω} (ht : h.Tries a outcomes b) :
    h.Driven a b := by
  induction ht with
  | none => exact .start
  | made _ _ hstep ih => exact final_of_ok hstep ▸ ih.step
  | failed _ _ hstep ih => exact final_of_error hstep ▸ ih.step

theorem underWay_step (hb : b.UnderWay) (hf : b.machine.finished = false)
    (h : (watching d note).step b = .ok () c) : c.UnderWay := by
  obtain ⟨fired, hs, he⟩ := stepped_of_watching_step hb.resting h
  obtain ⟨k, hk⟩ := hb.alive.command hf
  obtain ⟨fired', hon, -⟩ := turn_of_watching_step h
  refine ⟨hs.resting hb.resting, Machine.turn_alive hf hk hon, ?_, ?_⟩
  · rw [he, Array.toList_append]
    exact (hf ▸ hb.chronicle).append (hs.chronicle hf)
  · have hnone : ¬ ∃ info, .badEval info ∈ b.audience.events := by
      rw [← hb.broken_iff, hb.resting.unbroken hf]
      exact Bool.false_ne_true
    rw [hs.broken_iff hb.resting hf, he]
    simp only [Array.mem_append, List.mem_toArray]
    exact exists_congr fun info => ⟨.inr, fun h => h.resolve_left fun hmem => hnone ⟨info, hmem⟩⟩

theorem Tries.underWay (h : (watching d note).Tries a outcomes b) (ha : a.UnderWay) :
    b.UnderWay := by
  induction h with
  | none => exact ha
  | made _ hf hstep ih => exact underWay_step ih hf hstep
  | failed _ _ hstep ih =>
    rw [(turn_of_watching_step_error hstep).2]
    exact ⟨ih.resting, ih.alive, ih.chronicle, ih.broken_iff⟩

/-- A step on the longer program copies one on the shorter one. -/
theorem copies_step (hb : b.UnderWay) (hf : b.machine.finished = false) (hcopy : b.Copies rest b')
    (h : (watching d note).step b = .ok () c) :
    ∃ c', (watching d note).step b' = .ok () c' ∧ c.Copies rest c' := by
  obtain ⟨k, hk⟩ := hb.alive.command hf
  obtain ⟨fired, hon, he⟩ := turn_of_watching_step h
  have htold : c.machine.finished = true → fired ≠ [] := by
    intro hend hnil
    have hs := Machine.turn_stepped hb.resting (Turn.yields_of_on hon)
    have hdone := ((hs.chronicle hf).done_mem_iff).mpr hend
    rw [hnil] at hdone
    cases hdone
  obtain ⟨hm, hlog⟩ := hcopy.of_unfinished hf
  have hon' : b'.machine.turn.on d b'.device =
      .ok (Machine.Shift.followedBy rest (c.machine, fired)) c.device := by
    rw [hm, Machine.turn_followedBy hb.resting hf hk, Turn.on_map, hcopy.device, hon]
  obtain ⟨c', hstep, hcm, hcs, hce⟩ := @watching_step_of_turn σ ω d note b' _ _ hon'
  refine ⟨c', hstep, hcs, ?_⟩
  rw [he, Array.toList_append, hcm, hce, hlog, Array.toList_append]
  exact (Machine.Shift.followedBy_append (x := (c.machine, fired)) _ htold).symm

theorem copies_fail (hb : b.UnderWay) (hf : b.machine.finished = false) (hcopy : b.Copies rest b')
    (h : (watching d note).step b = .error e c) :
    ∃ c', (watching d note).step b' = .error e c' ∧ c.Copies rest c' := by
  obtain ⟨k, hk⟩ := hb.alive.command hf
  obtain ⟨hon, hc⟩ := turn_of_watching_step_error h
  obtain ⟨hm, -⟩ := hcopy.of_unfinished hf
  have hon' : b'.machine.turn.on (watching d note).device b'.device = .error e c.device := by
    show b'.machine.turn.on d b'.device = _
    rw [hm, Machine.turn_followedBy hb.resting hf hk, Turn.on_map, hcopy.device, hon]
  refine ⟨_, step_of_turn_error hon', rfl, ?_⟩
  rw [hc]
  exact hcopy.shift

/-- As far as the run on the shorter program goes, the one on the longer program copies it. -/
theorem Tries.copied (h : (watching d note).Tries a outcomes b) (ha : a.UnderWay)
    (hcopy : a.Copies rest a') :
    ∃ b', (watching d note).Tries a' outcomes b' ∧ b.Copies rest b' := by
  induction h with
  | none => exact ⟨a', .none, hcopy⟩
  | made hb hf hstep ih =>
    obtain ⟨b', hb', hcopied⟩ := ih
    have hu := hb.underWay ha
    obtain ⟨c', hstep', hc⟩ := copies_step hu hf hcopied hstep
    refine ⟨c', hb'.made ?_ hstep', hc⟩
    rw [(hcopied.of_unfinished hf).1]
    exact hf
  | failed hb hf hstep ih =>
    obtain ⟨b', hb', hcopied⟩ := ih
    have hu := hb.underWay ha
    obtain ⟨c', hstep', hc⟩ := copies_fail hu hf hcopied hstep
    refine ⟨c', hb'.failed ?_ hstep', hc⟩
    rw [(hcopied.of_unfinished hf).1]
    exact hf

end Host

/-! ## Main statement -/

/-- A program that is not empty, and the same program with more code behind it, are loaded under one
catalogue, with equally many cells and on equal devices. As long as the machine of the shorter
program has not ended, every step comes out alike and leaves both the same but for the program. If
it ends with a refusal, so does the longer one, after the same events. If it ends otherwise, and
there is code behind it, then both are the same but for the program and the end, which the longer
one has not come to and has not told of. -/
theorem runs_ignore_code_behind {t : Catalogue} {program rest : List Command} {memorySize : Int}
    {m m' : Machine} (hne : program ≠ []) (hload : Machine.load t program memorySize = .ok m)
    (hload' : Machine.load t (program ++ rest) memorySize = .ok m') (d : Device σ) (s : σ)
    (note : Event → World σ (Recorded ω) → ω) (own : ω) {outcomes : List (Option Fault)}
    {b : World σ (Recorded ω)} (h : (Host.watching d note).Tries ⟨m, s, .ofOwn own⟩ outcomes b) :
    ∃ b', (Host.watching d note).Tries ⟨m', s, .ofOwn own⟩ outcomes b' ∧ b'.device = b.device ∧
      b'.machine =
        { b.machine with program := m'.program, finished := b'.machine.finished } ∧
      (b.machine.finished = false →
        b'.machine.finished = false ∧ b'.audience.events = b.audience.events) ∧
      (b.machine.finished = true → (rest = [] ∨ ∃ info, .badEval info ∈ b.audience.events) →
        b'.machine.finished = true ∧ b'.audience.events = b.audience.events) ∧
      (b.machine.finished = true → rest ≠ [] → (∀ info, .badEval info ∉ b.audience.events) →
        b'.machine.finished = false ∧ b.audience.events = b'.audience.events.push .done) := by
  have hstart : World.UnderWay (⟨m, s, .ofOwn own⟩ : World σ (Recorded ω)) := .of_load hne hload s own
  have hfollowed : m' = m.followedBy rest := by
    obtain ⟨-, rfl⟩ := Machine.load_eq hload
    obtain ⟨-, rfl⟩ := Machine.load_eq hload'
    simp [Machine.followedBy]
  have hcopy : World.Copies rest (⟨m, s, .ofOwn own⟩ : World σ (Recorded ω))
      ⟨m', s, .ofOwn own⟩ := by
    refine ⟨rfl, ?_⟩
    rw [Machine.Shift.followedBy_of_not_ended, hfollowed]
    intro hf
    obtain ⟨-, rfl⟩ := Machine.load_eq hload
    cases hf
  obtain ⟨b', hb', hcopied⟩ := h.copied hstart hcopy
  have hu := h.underWay hstart
  have hprogram : m'.program = b.machine.program ++ rest.toArray := by
    rw [hfollowed, (h.driven.intact (.of_load hload)).program]
    exact congrArg (· ++ rest.toArray) (Machine.Intact.of_load hload).program
  have hmachine : b'.machine =
      { b.machine with program := m'.program, finished := b'.machine.finished } := by
    rw [hprogram]
    exact hcopied.machine
  refine ⟨b', hb', hcopied.device, hmachine, fun hf => ?_, fun hf hend => ?_,
    fun hf hrest hno => ?_⟩
  · obtain ⟨hm, he⟩ := hcopied.of_unfinished hf
    rw [hm]
    exact ⟨hf, he⟩
  · obtain ⟨hm, he⟩ := hcopied.of_not_ended fun _ => hend.symm.imp hu.broken_iff.mpr id
    rw [hm]
    exact ⟨hf, he⟩
  · have hbroken : b.machine.broken = false :=
      Bool.eq_false_iff.mpr (mt hu.broken_iff.mp (not_exists.mpr hno))
    have hs := hcopied.shift
    rw [Machine.Shift.followedBy_of_ended hf hbroken hrest] at hs
    injection hs with hm hlog
    rw [hm]
    refine ⟨rfl, Array.toList_inj.mp ?_⟩
    rw [Array.toList_push, hlog]
    exact (hf ▸ hu.chronicle).eq_append_done

/-- One increment, and one more behind it: after a step the shorter program has ended and the longer
one has not. -/
theorem runs_ignore_code_behind_increment :
    let plus : Command := ⟨0, 6, "MoO", .increment⟩
    let m : Machine := ⟨.standard, #[plus], #[0], 0, 0, none, .none, false, false, false⟩
    let m' : Machine := ⟨.standard, #[plus, plus], #[0], 0, 0, none, .none, false, false, false⟩
    let h : Host Buffer (Recorded Unit) := .watching Buffer.device fun _ _ => ()
    let b := h.step.final ⟨m, .ofInput "" [], .ofOwn ()⟩
    [plus] ≠ [] ∧ Machine.load .standard [plus] 1 = .ok m ∧
      Machine.load .standard ([plus] ++ [plus]) 1 = .ok m' ∧
      h.Tries ⟨m, .ofInput "" [], .ofOwn ()⟩ [none] b ∧ b.machine.finished = true ∧
      ∃ b', h.Tries ⟨m', .ofInput "" [], .ofOwn ()⟩ [none] b' ∧ b'.machine.finished = false ∧
        b.audience.events = b'.audience.events.push .done := by
  intro plus m m' h b
  have hne : [plus] ≠ [] := List.cons_ne_nil _ _
  have hload : Machine.load .standard [plus] 1 = .ok m := rfl
  have hload' : Machine.load .standard ([plus] ++ [plus]) 1 = .ok m' := rfl
  have htries : h.Tries ⟨m, .ofInput "" [], .ofOwn ()⟩ ([] ++ [none]) b := .made .none rfl rfl
  have hno : ∀ info, .badEval info ∉ b.audience.events := by
    intro info hmem
    have hevents : b.audience.events = #[.valueChanged 1, .done] := rfl
    simp [hevents] at hmem
  obtain ⟨b', hb', -, -, -, -, hend⟩ := runs_ignore_code_behind hne hload hload' Buffer.device
    (.ofInput "" []) (fun _ _ => ()) () htries
  exact ⟨hne, hload, hload', htries, rfl, b', hb', hend rfl hne hno⟩

end Moo
