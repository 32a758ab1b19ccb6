import Moo.Device.Buffer
import Moo.Proofs.Command.Names
import Moo.Proofs.Machine.Calls
import Moo.Proofs.Machine.Course
import Moo.Proofs.Machine.Ring
import Moo.Proofs.Machine.Stepping

/-!
# Arithmetic programs

An arithmetic program of the language only moves the cursor and counts cells up and down. What it
leaves behind can be read off its text: the cursor is where its moves lead (`netMove`), and a cell
holds the increments less the decrements made where the moves before them lead to it (`netChange`),
each around its ring. After any number of steps the machine is the one that the commands passed so
far count out (`Host.steps_counted`).
-/

namespace Moo

variable {σ ω : Type}

/-! ## What is counted -/

def arithmeticNames : List String := ["moO", "mOo", "MoO", "MOo"]

/-- A program of commands of the language that move the cursor or count a cell. -/
def Arithmetic (program : List Command) : Prop :=
  ∀ c ∈ program, ∃ name ∈ arithmeticNames, Catalogue.standard.named? name = some c

instance (program : List Command) : Decidable (Arithmetic program) :=
  inferInstanceAs (Decidable (∀ c ∈ program, ∃ name ∈ arithmeticNames,
    Catalogue.standard.named? name = some c))

def occurrences (name : String) (program : List Command) : Nat := program.countP (·.name == name)

/-- The moves to the right less those to the left. -/
def netMove (program : List Command) : Int := occurrences "moO" program - occurrences "mOo" program

/-- How often commands of this name stand where the moves before them lead to the cell `j` of a ring
of so many cells. -/
def occurrencesAt (size j : Int) (name : String) (program : List Command) : Nat :=
  (List.range program.length).countP fun i =>
    (program[i]?.any (·.name == name)) && netMove (program.take i) % size == j

/-- The increments of the cell `j` less its decrements. -/
def netChange (size j : Int) (program : List Command) : Int :=
  occurrencesAt size j "MoO" program - occurrencesAt size j "MOo" program

variable {past program : List Command} {name : String} {c : Command} {size j : Int}

theorem occurrences_concat (name : String) (past : List Command) (c : Command) :
    occurrences name (past ++ [c]) = occurrences name past + if c.name = name then 1 else 0 := by
  unfold occurrences
  rw [List.countP_append, List.countP_singleton]
  simp

theorem occurrencesAt_concat (size j : Int) (name : String) (past : List Command) (c : Command) :
    occurrencesAt size j name (past ++ [c]) =
      occurrencesAt size j name past +
        if c.name = name ∧ netMove past % size = j then 1 else 0 := by
  unfold occurrencesAt
  rw [List.length_append, List.length_singleton, List.range_succ, List.countP_append,
    List.countP_singleton]
  congr 1
  · -- the positions before see the same commands and the same moves
    refine List.countP_congr fun i hi => ?_
    have hlt : i < past.length := List.mem_range.mp hi
    rw [List.getElem?_append_left hlt, List.take_append_of_le_length (Nat.le_of_lt hlt)]
  · rw [List.getElem?_concat_length, List.take_left]
    simp

/-- How many places to the right the command moves the cursor. -/
def Command.places (c : Command) : Int :=
  (if c.name = "moO" then 1 else 0) - if c.name = "mOo" then 1 else 0

def Command.amount (c : Command) : Int :=
  (if c.name = "MoO" then 1 else 0) - if c.name = "MOo" then 1 else 0

theorem netMove_concat (past : List Command) (c : Command) :
    netMove (past ++ [c]) = netMove past + c.places := by
  unfold netMove Command.places
  rw [occurrences_concat, occurrences_concat, Int.natCast_add, Int.natCast_add]
  split <;> split <;> omega

theorem netChange_concat (size j : Int) (past : List Command) (c : Command) :
    netChange size j (past ++ [c]) =
      netChange size j past + if netMove past % size = j then c.amount else 0 := by
  unfold netChange Command.amount
  rw [occurrencesAt_concat, occurrencesAt_concat, Int.natCast_add, Int.natCast_add]
  by_cases hj : netMove past % size = j
  · simp only [hj, and_true, if_true]
    split <;> split <;> omega
  · simp only [hj, and_false, if_false]
    omega

/-! ## The machine that is counted out -/

def countedCells (size : Nat) (program : List Command) : Array Nat :=
  Array.ofFn fun j : Fin size => (netChange size j program % 256).toNat

namespace Machine

/-- The machine right behind these commands, as they move and count. -/
def counted (program : List Command) (m : Machine) : Machine :=
  { m with
    cells := countedCells m.cells.size program
    cursor := (netMove program % m.cells.size).toNat
    counter := program.length }

variable {m : Machine} {memorySize : Int}

theorem size_countedCells (size : Nat) (program : List Command) :
    (countedCells size program).size = size := Array.size_ofFn

theorem getElem_countedCells {size i : Nat} (h : i < (countedCells size program).size) :
    (countedCells size program)[i] = (netChange size i program % 256).toNat := Array.getElem_ofFn _

theorem counted_nil {t : Catalogue} (h : load t program memorySize = .ok m) :
    m.counted [] = m := by
  obtain ⟨-, rfl⟩ := load_eq h
  unfold counted
  congr
  · refine Array.ext (by rw [size_countedCells, Array.size_replicate]) fun j hj _ => ?_
    rw [getElem_countedCells, Array.getElem_replicate]
    rfl

theorem counted_unfinished {t : Catalogue} (h : load t program memorySize = .ok m)
    (past : List Command) : { m.counted past with finished := false } = m.counted past := by
  obtain ⟨-, rfl⟩ := load_eq h
  rfl

/-- What is counted out is told by the moves around the ring and the changes of each cell. -/
theorem counted_congr {t : Catalogue} {program program' : List Command} {m' : Machine}
    (h : load t program memorySize = .ok m) (h' : load t program' memorySize = .ok m')
    (hmove : netMove program' % memorySize = netMove program % memorySize)
    (hchange : ∀ j : Nat, j < memorySize →
      netChange memorySize j program' % 256 = netChange memorySize j program % 256) :
    m'.counted program' =
      { m.counted program with program := program'.toArray, counter := program'.length } := by
  obtain ⟨hsize, rfl⟩ := load_eq h
  obtain ⟨-, rfl⟩ := load_eq h'
  have hring : ((memorySize.toNat : Nat) : Int) = memorySize := Int.toNat_of_nonneg (by omega)
  have hcells : countedCells memorySize.toNat program' = countedCells memorySize.toNat program := by
    refine congrArg Array.ofFn (funext fun j => ?_)
    rw [hring, hchange j (by omega)]
  unfold counted
  dsimp only
  rw [Array.size_replicate, hcells, hring, hmove]

theorem onRing_counted (hpos : 0 < m.cells.size) (past : List Command) (c : Command) :
    (m.counted past).onRing ((m.counted past).cursor + c.places) =
      (m.counted (past ++ [c])).cursor := by
  show ((((netMove past % m.cells.size).toNat : Nat) + c.places) %
      ((countedCells m.cells.size past).size : Nat)).toNat =
    (netMove (past ++ [c]) % m.cells.size).toNat
  rw [size_countedCells, ring_add hpos, netMove_concat]

theorem value_counted (hpos : 0 < m.cells.size) (past : List Command) :
    (m.counted past).value = (netChange m.cells.size (m.counted past).cursor past % 256).toNat := by
  have hlt : (netMove past % m.cells.size).toNat < (countedCells m.cells.size past).size := by
    rw [size_countedCells]
    exact ring_lt hpos _
  show (countedCells m.cells.size past).getD (netMove past % m.cells.size).toNat 0 = _
  rw [Array.getD, dif_pos hlt]
  exact getElem_countedCells hlt

theorem store_counted (hpos : 0 < m.cells.size) (past : List Command) (c : Command) :
    (countedCells m.cells.size past).setIfInBounds (m.counted past).cursor
        (wrap ((m.counted past).value + c.amount)) =
      countedCells m.cells.size (past ++ [c]) := by
  refine Array.ext (by simp only [Array.size_setIfInBounds, size_countedCells]) fun j hj hj' => ?_
  have hcell : j < (countedCells m.cells.size past).size := by
    rwa [Array.size_setIfInBounds] at hj
  have hcursor : netMove past % m.cells.size = (m.counted past).cursor := (ring_cast hpos _).symm
  rw [Array.getElem_setIfInBounds hcell, getElem_countedCells, getElem_countedCells,
    netChange_concat, hcursor]
  by_cases heq : (m.counted past).cursor = j
  · subst heq
    rw [if_pos rfl, if_pos rfl, value_counted hpos]
    exact @ring_add 256 (by decide) _ _
  · rw [if_neg heq, if_neg (by omega), Int.add_zero]

/-! ## A step -/

theorem cursorSet_counted (hpos : 0 < m.cells.size) (past : List Command) (hamount : c.amount = 0) :
    ((m.counted past).cursorSet ((m.counted past).cursor + c.places)).1 =
      { m.counted (past ++ [c]) with counter := past.length } := by
  have hcells : countedCells m.cells.size (past ++ [c]) = countedCells m.cells.size past := by
    simp only [countedCells, netChange_concat, hamount, ite_self, Int.add_zero]
  show ({ m.counted past with cursor := (m.counted past).onRing _ } : Machine) = _
  rw [onRing_counted hpos]
  unfold counted
  rw [hcells]

theorem valueSet_counted (hpos : 0 < m.cells.size) (past : List Command) (hplaces : c.places = 0) :
    ((m.counted past).valueSet ((m.counted past).value + c.amount)).1 =
      { m.counted (past ++ [c]) with counter := past.length } := by
  have hmove : netMove (past ++ [c]) = netMove past := by
    rw [netMove_concat, hplaces, Int.add_zero]
  have hstore := store_counted hpos past c
  show ({ m.counted past with
    cells := (countedCells m.cells.size past).setIfInBounds (m.counted past).cursor
      (wrap ((m.counted past).value + c.amount)) } : Machine) = _
  rw [hstore]
  unfold counted
  rw [hmove]

/-- In the language an arithmetic command moves the cursor by its places or counts the cell by its
amount. -/
theorem effectTurn_arithmetic (m : Machine) (hname : name ∈ arithmeticNames)
    (hc : Catalogue.standard.named? name = some c) :
    (c.amount = 0 ∧ m.effectTurn c.effect = .quiet (m.cursorSet (m.cursor + c.places))) ∨
      c.places = 0 ∧ m.effectTurn c.effect = .quiet (m.valueSet (m.value + c.amount)) := by
  have commands : ∀ name ∈ arithmeticNames, ∀ c ∈ Catalogue.standard.named? name,
      c.effect = .right ∧ c.places = 1 ∧ c.amount = 0 ∨
        c.effect = .left ∧ c.places = -1 ∧ c.amount = 0 ∨
        c.effect = .increment ∧ c.places = 0 ∧ c.amount = 1 ∨
        c.effect = .decrement ∧ c.places = 0 ∧ c.amount = -1 := by decide
  obtain ⟨he, hplaces, hamount⟩ | ⟨he, hplaces, hamount⟩ | ⟨he, hplaces, hamount⟩ |
    ⟨he, hplaces, hamount⟩ := commands name hname c hc
  · exact .inl ⟨hamount, by rw [he, hplaces]; rfl⟩
  · exact .inl ⟨hamount, by rw [he, hplaces]; rfl⟩
  · exact .inr ⟨hplaces, by rw [he, hamount]; rfl⟩
  · exact .inr ⟨hplaces, by rw [he, hamount]; rfl⟩

theorem effectTurn_counted (hpos : 0 < m.cells.size) (past : List Command)
    (hname : name ∈ arithmeticNames) (hc : Catalogue.standard.named? name = some c) :
    ∃ told, (m.counted past).effectTurn c.effect =
      .quiet ({ m.counted (past ++ [c]) with counter := past.length }, told) := by
  obtain ⟨hamount, hturn⟩ | ⟨hplaces, hturn⟩ := (m.counted past).effectTurn_arithmetic hname hc
  · rw [hturn, ← cursorSet_counted hpos past hamount]
    exact ⟨_, rfl⟩
  · rw [hturn, ← valueSet_counted hpos past hplaces]
    exact ⟨_, rfl⟩

theorem closed_counted {k : Nat} (h : load .standard program memorySize = .ok m)
    (hk : k < program.length) (past : List Command) :
    ∃ told, closed { m.counted past with counter := k } =
      ({ m.counted past with
        counter := k + 1
        finished := decide (k + 1 = program.length) }, told) := by
  have hr := Resting.of_load h
  have hsize : m.program.size = program.length := by
    rw [(Intact.of_load h).program, List.size_toArray]
  have hunfinished : m.finished = false := by
    obtain ⟨-, rfl⟩ := load_eq h
    rfl
  have hadvance : (advance { m.counted past with counter := k }).counter = k + 1 :=
    congrArg counter (advance_of_unjumped (m := { m.counted past with counter := k }) hr.jumped)
  have hle : (advance { m.counted past with counter := k }).counter ≤ m.program.size := by omega
  obtain ⟨finished, hfinished, hclosed⟩ :=
    closed_of_unbroken (m := { m.counted past with counter := k }) (hr.unbroken hunfinished)
      hunfinished hle
  have hdecide : finished = decide (k + 1 = program.length) := by
    rw [Bool.eq_iff_iff, hfinished, hadvance, decide_eq_true_iff]
    show k + 1 = m.program.size ↔ _
    rw [hsize]
  refine ⟨_, hclosed.trans (congrArg (·, _) ?_)⟩
  rw [hadvance, hdecide]
  show _ = ({ m.counted past with
    counter := k + 1, jumped := m.jumped, finished := decide (k + 1 = program.length) } : Machine)
  rw [hr.jumped]

/-- So a step over it counts it out, and is the last one right behind the program. -/
theorem turn_counted (h : load .standard program memorySize = .ok m) (past : List Command)
    (hnext : program[past.length]? = some c) (hname : name ∈ arithmeticNames)
    (hc : Catalogue.standard.named? name = some c) :
    ∃ told, (m.counted past).turn = .quiet
      ({ m.counted (past ++ [c]) with finished := decide (past.length + 1 = program.length) },
        told) := by
  have hi := Intact.of_load h
  have hpos : 0 < m.cells.size := Nat.lt_of_le_of_lt (Nat.zero_le _) hi.cursor
  have hlt : past.length < program.length := (List.getElem?_eq_some_iff.mp hnext).1
  have hunfinished : (m.counted past).finished = false := by
    obtain ⟨-, rfl⟩ := load_eq h
    rfl
  have hskip : (m.counted past).skip = .none := by
    obtain ⟨-, rfl⟩ := load_eq h
    rfl
  have hcommand : (m.counted past).command? = some c := by
    show m.program[past.length]? = some c
    rw [hi.program, List.getElem?_toArray, hnext]
  obtain ⟨told, heffect⟩ := effectTurn_counted hpos past hname hc
  obtain ⟨closing, hclosed⟩ := closed_counted h hlt (past ++ [c])
  have hvisit : (m.counted past).visitTurn c =
      .quiet ({ m.counted (past ++ [c]) with counter := past.length }, told) := by
    unfold visitTurn
    rw [if_pos hskip, heffect]
  refine ⟨told ++ closing, ?_⟩
  rw [turn_of_command hunfinished hcommand, hvisit]
  show Turn.quiet ((closed { m.counted (past ++ [c]) with counter := past.length }).1,
    told ++ (closed { m.counted (past ++ [c]) with counter := past.length }).2) = _
  rw [hclosed]
  unfold counted
  rw [List.length_append, List.length_singleton]

end Machine

/-! ## Runs -/

section Runs

variable {m : Machine} {memorySize : Int} (d : Device σ) (s : σ)
  (note : Event → World σ (Recorded ω) → ω) (own : ω)

/-- After so many steps the machine is the one that so many commands count out, and the device has
not been asked. -/
theorem Host.steps_counted (hprogram : program ≠ []) (harith : Arithmetic program)
    (h : Machine.load .standard program memorySize = .ok m) {k : Nat} (hk : k ≤ program.length) :
    ∃ b, (watching d note).Steps ⟨m, s, .ofOwn own⟩ k b ∧ b.device = s ∧
      b.machine = { m.counted (program.take k) with finished := decide (k = program.length) } := by
  induction k with
  | zero =>
    have hlength : program.length ≠ 0 := fun h => hprogram (List.eq_nil_of_length_eq_zero h)
    refine ⟨_, .none, rfl, ?_⟩
    rw [List.take_zero, decide_eq_false (Ne.symm hlength), Machine.counted_unfinished h,
      Machine.counted_nil h]
  | succ k ih =>
    obtain ⟨b, hsteps, hdevice, hmachine⟩ := ih (by omega)
    have hlt : k < program.length := by omega
    have hunfinished : decide (k = program.length) = false := decide_eq_false (by omega)
    have hcounted : b.machine = m.counted (program.take k) := by
      rw [hmachine, hunfinished, Machine.counted_unfinished h]
    have htake : (program.take k).length = k := List.length_take_of_le (by omega)
    obtain ⟨name, hname, hc⟩ := harith program[k] (List.getElem_mem hlt)
    obtain ⟨told, hturn⟩ := Machine.turn_counted h (program.take k)
      (by rw [htake, List.getElem?_eq_getElem hlt]) hname hc
    rw [htake, List.take_append_getElem] at hturn
    obtain ⟨c, hstep, hm, hs, -⟩ := watching_step_of_quiet d note (hcounted ▸ hturn)
    refine ⟨c, hsteps.snoc (by rw [hmachine, hunfinished]) hstep, hs.trans hdevice, hm⟩

theorem Arithmetic.exists_load (harith : Arithmetic program) (hsize : 1 ≤ memorySize) :
    ∃ m, Machine.load .standard program memorySize = .ok m := by
  refine Machine.exists_load_of_commands hsize fun c hc => ?_
  obtain ⟨name, -, hnamed⟩ := harith c hc
  exact Catalogue.at?_of_named? hnamed

/-- Loaded and run, they end right behind the last command. -/
theorem Host.endsAfter_counted (hprogram : program ≠ []) (harith : Arithmetic program)
    (h : Machine.load .standard program memorySize = .ok m) :
    ∃ b, (watching d note).EndsAfter ⟨m, s, .ofOwn own⟩ program.length b ∧ b.device = s ∧
      b.machine = { m.counted program with finished := true } := by
  obtain ⟨b, hsteps, hdevice, hmachine⟩ :=
    Host.steps_counted d s note own hprogram harith h (Nat.le_refl _)
  rw [List.take_length, decide_eq_true rfl] at hmachine
  exact ⟨b, ⟨hsteps, by rw [hmachine]⟩, hdevice, hmachine⟩

end Runs

/-! ## Main statement -/

/-- Any arithmetic program that is not empty can be loaded into any number of cells. Step after step
it then ends after as many steps as it has commands, with the register empty, the cursor where its
moves lead and each cell at what its increments and decrements come to, whatever the device, which
is not asked. So two programs with the same moves around the ring and the same changes of each cell,
up to whole rounds of both, leave the same machine behind but for the program and its end. -/
theorem arithmetic_programs_count (hprogram : program ≠ []) (harith : Arithmetic program)
    {memorySize : Int} (hsize : 1 ≤ memorySize) (d : Device σ) (s : σ)
    (note : Event → World σ (Recorded ω) → ω) (own : ω) :
    let h := Host.watching d note
    ∃ m b, Machine.load .standard program memorySize = .ok m ∧
      h.EndsAfter ⟨m, s, .ofOwn own⟩ program.length b ∧ b.device = s ∧
      (b.machine.cursor : Int) = netMove program % memorySize ∧ b.machine.register = none ∧
      b.machine.cells.size = memorySize ∧
      (∀ (j : Nat) (hj : j < b.machine.cells.size),
        (b.machine.cells[j] : Int) = netChange memorySize j program % 256) ∧
      ∀ program', program' ≠ [] → Arithmetic program' →
        netMove program' % memorySize = netMove program % memorySize →
        (∀ j : Nat, j < memorySize →
          netChange memorySize j program' % 256 = netChange memorySize j program % 256) →
        ∃ m' b', Machine.load .standard program' memorySize = .ok m' ∧
          h.EndsAfter ⟨m', s, .ofOwn own⟩ program'.length b' ∧
          b'.machine =
            { b.machine with program := program'.toArray, counter := program'.length } := by
  intro h
  obtain ⟨m, hload⟩ := harith.exists_load hsize
  have hcells : (m.cells.size : Int) = memorySize := (Machine.Intact.of_load hload).size
  obtain ⟨b, hends, hdevice, hmachine⟩ :=
    Host.endsAfter_counted d s note own hprogram harith hload
  have hpos : 0 < m.cells.size := by omega
  refine ⟨m, b, hload, hends, hdevice, ?_, ?_, ?_, ?_, ?_⟩
  · rw [hmachine, ← hcells]
    exact ring_cast hpos _
  · rw [hmachine]
    obtain ⟨-, rfl⟩ := Machine.load_eq hload
    rfl
  · rw [hmachine, ← hcells]
    exact congrArg Nat.cast (Machine.size_countedCells _ _)
  · rw [hmachine, ← hcells]
    intro j hj
    show (((countedCells m.cells.size program)[j] : Nat) : Int) = _
    rw [Machine.getElem_countedCells hj]
    exact Int.toNat_of_nonneg (Int.emod_nonneg _ (by decide))
  · intro program' hprogram' harith' hmove hchange
    obtain ⟨m', hload'⟩ := harith'.exists_load hsize
    obtain ⟨b', hends', -, hmachine'⟩ :=
      Host.endsAfter_counted d s note own hprogram' harith' hload'
    refine ⟨m', b', hload', hends', ?_⟩
    rw [hmachine, hmachine', Machine.counted_congr hload hload' hmove hchange]

/-- Two cells, counted down one place to the left and up one place further, or the same to the
right: either way the second holds 255, the first holds 1 and the cursor is back on it. -/
theorem arithmetic_programs_count_either_way :
    let left : List Command := [⟨0, 1, "mOo", .left⟩, ⟨0, 5, "MOo", .decrement⟩,
      ⟨0, 1, "mOo", .left⟩, ⟨0, 6, "MoO", .increment⟩]
    let right : List Command := [⟨0, 2, "moO", .right⟩, ⟨0, 5, "MOo", .decrement⟩,
      ⟨0, 2, "moO", .right⟩, ⟨0, 6, "MoO", .increment⟩]
    let h : Host Buffer (Recorded Unit) := .watching Buffer.device fun _ _ => ()
    left ≠ [] ∧ Arithmetic left ∧ right ≠ [] ∧ Arithmetic right ∧ (1 : Int) ≤ 2 ∧
      ∃ m b m' b', Machine.load .standard left 2 = .ok m ∧
        Machine.load .standard right 2 = .ok m' ∧
        h.EndsAfter ⟨m, .ofInput "" [], .ofOwn ()⟩ 4 b ∧
        h.EndsAfter ⟨m', .ofInput "" [], .ofOwn ()⟩ 4 b' ∧
        b.machine.cursor = 0 ∧ b.machine.cells = #[1, 255] ∧
        b'.machine = { b.machine with program := right.toArray, counter := 4 } := by
  intro left right h
  have hleft : Arithmetic left := by decide
  have hright : Arithmetic right := by decide
  have hsize : (1 : Int) ≤ 2 := by decide
  obtain ⟨m, b, hload, hends, -, hcursor, -, hcells, hcell, hsame⟩ :=
    arithmetic_programs_count (List.cons_ne_nil _ _) hleft hsize Buffer.device (.ofInput "" [])
      (fun _ _ => ()) ()
  obtain ⟨m', b', hload', hends', hmachine'⟩ :=
    hsame right (List.cons_ne_nil _ _) hright (by decide) fun j hj => by
      obtain rfl | rfl : j = 0 ∨ j = 1 := by omega
      · decide
      · decide
  refine ⟨List.cons_ne_nil _ _, hleft, List.cons_ne_nil _ _, hright, hsize, m, b, m', b', hload,
    hload', hends, hends', ?_, ?_, hmachine'⟩
  · have hzero : netMove left % 2 = 0 := by decide
    exact Int.ofNat.inj (hcursor.trans hzero)
  · have hfirst : netChange 2 0 left % 256 = 1 := by decide
    have hsecond : netChange 2 1 left % 256 = 255 := by decide
    refine Array.ext (Int.ofNat.inj hcells) fun j hj hlt => ?_
    obtain rfl | rfl : j = 0 ∨ j = 1 := by
      simp only [List.size_toArray, List.length_cons, List.length_nil] at hlt
      omega
    · exact Int.ofNat.inj ((hcell 0 hj).trans hfirst)
    · exact Int.ofNat.inj ((hcell 1 hj).trans hsecond)

end Moo
