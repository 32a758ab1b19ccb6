import Moo.Device.Buffer
import Moo.Proofs.Machine.Layout
import Moo.Proofs.Run.Direct

/-!
# More cells

As long as the cursor does not go over an edge of the ring, further cells behind the last one make
no difference: the machine with more cells goes through the same steps, and the further cells stay
zero. So a run that ends without such a move has the same receipt with more cells, but for their
number (`cells_beyond_do_not_matter`).
-/

namespace Moo

variable {σ ω : Type}

/-! ## Machines with more cells -/

namespace Machine

variable {m : Machine} {more : Nat}

def widened (more : Nat) (m : Machine) : Machine :=
  { m with cells := m.cells ++ Array.replicate more 0 }

/-- The next step moves the cursor over an edge of the ring. -/
def Wraps (m : Machine) : Prop :=
  m.finished = false ∧ m.skip = .none ∧ ∃ c, m.command? = some c ∧
    (m.Means c .left ∧ m.cursor = 0 ∨ m.Means c .right ∧ m.cursor + 1 = m.cells.size)

theorem load_widened {t : Catalogue} {program : List Command} {memorySize memorySize' : Int}
    {m' : Machine} (hload : load t program memorySize = .ok m)
    (hload' : load t program memorySize' = .ok m') (hle : memorySize ≤ memorySize') :
    m' = m.widened (memorySize'.toNat - memorySize.toNat) := by
  obtain ⟨-, rfl⟩ := load_eq hload
  obtain ⟨-, rfl⟩ := load_eq hload'
  unfold widened
  dsimp only
  rw [Array.replicate_append_replicate, Nat.add_sub_of_le (Int.toNat_le_toNat hle)]

end Machine

namespace Layout

variable {size more : Nat} {m : Machine}

def widening (size more : Nat) : Layout size where
  cells old := old ++ Array.replicate more 0
  place i := i
  value {old i} hsize hi := by
    rw [Array.getD_eq_getD_getElem?, Array.getElem?_append_left (by omega),
      Array.getD_eq_getD_getElem?]
  store {old i} value hsize hi := (Array.setIfInBounds_append_left (by omega)).symm

theorem event_widening : (widening size more).event = id := by
  funext e
  cases e <;> rfl

theorem shift_widening (x : Machine.Shift) :
    (widening size more).shift x = (x.1.widened more, x.2) := by
  unfold shift
  rw [event_widening, List.map_id]
  rfl

/-- A move that does not go over an edge comes out at the same cell. -/
theorem widening_followsStep (hm : (widening size more).Fits m) (h : ¬ m.Wraps) :
    (widening size more).FollowsStep m := by
  have hcells := hm.cells
  have hcursor := hm.cursor
  have onRing : ∀ position : Int, 0 ≤ position → position < size →
      ((widening size more).machine m).onRing position = m.onRing position := by
    intro position hlo hhi
    show (position % ((m.cells ++ Array.replicate more 0).size : Nat)).toNat =
      (position % m.cells.size).toNat
    rw [Array.size_append, Array.size_replicate, Int.emod_eq_of_lt hlo (by omega),
      Int.emod_eq_of_lt hlo (by omega)]
  intro hf hs c e hc he
  refine ⟨?_, ?_⟩
  · rintro rfl
    have hne : m.cursor ≠ 0 := fun hz => h ⟨hf, hs, c, hc, .inl ⟨he, hz⟩⟩
    exact onRing ((m.cursor : Int) - 1) (by omega) (by omega)
  · rintro rfl
    have hne : m.cursor + 1 ≠ m.cells.size := fun hl => h ⟨hf, hs, c, hc, .inr ⟨he, hl⟩⟩
    exact onRing ((m.cursor : Int) + 1) (by omega) (by omega)

end Layout

structure World.Widened (more : Nat) (b b' : World σ (Recorded ω)) : Prop where
  machine : b'.machine = b.machine.widened more
  device : b'.device = b.device
  events : b'.audience.events = b.audience.events

theorem Layout.relates_widening (size more : Nat) :
    (Layout.widening size more).Relates = (World.Widened more : World σ (Recorded ω) → _ → Prop) := by
  funext b b'
  refine propext ⟨fun h => ⟨h.machine, h.device, ?_⟩, fun h => ⟨h.machine, h.device, ?_⟩⟩
  · rw [h.events, event_widening, Array.map_id]
  · rw [h.events, event_widening, Array.map_id]

theorem Snapshot.nonzero_append_zeros (position more : Nat) (cells : List Nat) :
    nonzero position (cells ++ List.replicate more 0) = nonzero position cells := by
  induction cells generalizing position with
  | nil =>
    induction more generalizing position with
    | zero => rfl
    | succ more ih => exact ih (position + 1)
  | cons v rest ih =>
    rw [List.cons_append, nonzero, nonzero, ih]

theorem Machine.snapshot_widened (more : Nat) (m : Machine) :
    (m.widened more).snapshot =
      { m.snapshot with memorySize := m.cells.size + more } := by
  unfold snapshot widened
  simp only [Array.size_append, Array.size_replicate, Array.toList_append, Array.toList_replicate,
    Snapshot.nonzero_append_zeros]

/-! ## Runs with more cells -/

namespace Run

namespace Session

variable {d : Device σ} {o o' : Options} {s s₀ s' : Session σ} {n more : Nat} {t : Catalogue}
  {program : List Command} {memorySize : Int}

def widened (more : Nat) (s : Session σ) : Session σ := { s with machine := s.machine.widened more }

theorem after_widened (htrace : o'.trace = o.trace)
    (w : World (σ × Array Output) (Array Event)) :
    (s.widened more).after o' { w with machine := w.machine.widened more } =
      (s.after o w).widened more := by
  unfold after
  rw [htrace, show (s.widened more).machine.command? = s.machine.command? from rfl]
  cases s.machine.command? <;> rfl

/-- A tick that does not go over an edge is the same with more cells. -/
theorem tick_widened (hmax : o'.maxSteps = o.maxSteps) (htrace : o'.trace = o.trace)
    (hm : s.machine.Intact t program memorySize) (hw : ¬ s.machine.Wraps)
    (ht : tick d o s = .ok () s') :
    tick d o' (s.widened more) = .ok () (s'.widened more) := by
  obtain ⟨hx, x, device, hon, rfl⟩ := tick_turn ht
  have hfits := Layout.Fits.of_intact hm (Layout.widening memorySize.toNat more)
  have hturn : (s.machine.widened more).turn =
      s.machine.turn.map (Layout.widening memorySize.toNat more).shift :=
    Layout.turn_laidOut hfits (Layout.widening_followsStep hfits hw)
  have hstep : stepOnce d (s.machine.widened more) s.device =
      .ok () ⟨x.1.widened more, device, x.2.toArray⟩ := by
    rw [stepOnce_eq, hturn, Turn.on_map, hon]
    simp only [Layout.shift_widening]
  have hx' : o'.exhaustedAt s.steps = false := by
    rw [← hx]
    unfold Options.exhaustedAt
    rw [hmax]
  rw [tick_of_ok (s := s.widened more) hx' hstep]
  exact congrArg _ (after_widened htrace ⟨x.1, device, x.2.toArray⟩)

theorem Ticks.widened (h : Ticks d o s₀ n s) (hmax : o'.maxSteps = o.maxSteps)
    (htrace : o'.trace = o.trace) (hs : s₀.Fit t program memorySize)
    (hw : ∀ k b, (Host.silent d).Steps s₀.world k b → ¬ b.machine.Wraps) :
    Ticks d o' (s₀.widened more) n (s.widened more) := by
  induction h with
  | none => exact .none
  | snoc hticks hf ht ih =>
    exact ih.snoc hf (tick_widened hmax htrace (hticks.fit hs).machine (hw _ _ hticks.steps) ht)

end Session

def Job.resized (memorySize : Int) (stamp : Stamp) (j : Job) : Job :=
  { j with options := { j.options with memorySize }, stamp }

def Summary.resized (memorySize : Nat) (s : Summary) : Summary :=
  { s with snapshot := { s.snapshot with memorySize } }

namespace Job

variable {j : Job} {memorySize' : Int} {stamp : Stamp}

theorem result_resized {more : Nat} {z : Session σ} (stdout : Option String)
    (h : z.machine.cells.size + more = memorySize'.toNat) :
    (j.resized memorySize' stamp).result stdout (z.widened more) =
      ⟨z.machine.widened more, z.device.1,
        .ofSummary (.ofText j.text j.path stamp)
          ((j.summaryWith stdout z).resized memorySize'.toNat) z.entries.toList⟩ := by
  unfold result summaryWith Session.widened Summary.resized
  dsimp only
  rw [Machine.snapshot_widened, h]
  rfl

variable {d : Device σ} {s : σ} {m m' : Machine} {budget : Nat} {buffered : Bool} {r : Result σ}

/-- With more cells a run that does not go over an edge ends alike. -/
theorem resized_finished
    (hload : Machine.load j.catalogue (j.catalogue.program j.text) j.options.memorySize = .ok m)
    (hload' : Machine.load j.catalogue (j.catalogue.program j.text) memorySize' = .ok m')
    (hle : j.options.memorySize ≤ memorySize') (stamp : Stamp)
    (hw : ∀ k b, (Host.silent d).Steps ⟨m, s, ()⟩ k b → ¬ b.machine.Wraps)
    (hr : j.runWithin budget d buffered s = .finished r) :
    ∃ summary entries,
      r.receipt = .ofSummary (.ofText j.text j.path j.stamp) summary entries ∧
      (j.resized memorySize' stamp).runWithin budget d buffered s = .finished
        ⟨r.machine.widened (memorySize'.toNat - j.options.memorySize.toNat), r.device,
          .ofSummary (.ofText j.text j.path stamp) (summary.resized memorySize'.toNat) entries⟩ := by
  obtain ⟨m₀, z, shown, hm₀, hrun, hshown, rfl⟩ := runWithin_finished hr
  obtain rfl : m₀ = m := Except.ok.inj (hm₀.symm.trans hload)
  refine ⟨_, _, rfl, ?_⟩
  obtain ⟨n, hn, hticks, hf⟩ := Session.ticks_of_run hrun
  have hstart := Session.Fit.of_start (.of_load hload) s
  have hsize := (hticks.fit hstart).machine.size
  let more := memorySize'.toNat - j.options.memorySize.toNat
  -- the same ticks are made on more cells, and lead to the end as well
  have hwide : Session.Ticks d (j.resized memorySize' stamp).options
      ((Session.start m₀ s).widened more) n (z.widened more) := hticks.widened rfl rfl hstart hw
  have hend := hwide.run (budget - n)
  rw [Nat.add_sub_of_le hn, Session.run_of_finished (s := z.widened _) hf] at hend
  rw [runWithin_of_load (j := j.resized memorySize' stamp) hload',
    Machine.load_widened hload hload' hle]
  show (j.resized memorySize' stamp).conclude buffered
    (Session.run d _ budget ((Session.start m₀ s).widened more)) = _
  rw [hend, conclude_finished (s := z.widened _) hshown, result_resized _ (by omega)]
  rfl

end Job

/-! ## Main statement -/

/-- A program is loaded on so many cells and on at least as many, on equal devices, before
subscribers that only watch. As long as no step on the fewer cells moves the cursor over an edge of
the ring, every step comes out alike on both, cut short or not, and leaves the same machine but for
further cells that are all zero, the same device and the same events. So if a run of a text with
this program ends without such a move, the run on more cells, under another stamp, ends in the same
machine with further cells that are zero, and its receipt has another number of cells and another
stamp and is otherwise the same. -/
theorem cells_beyond_do_not_matter {t : Catalogue} {program : List Command}
    {memorySize memorySize' : Int} {m m' : Machine}
    (hload : Machine.load t program memorySize = .ok m)
    (hload' : Machine.load t program memorySize' = .ok m') (hle : memorySize ≤ memorySize')
    (d : Device σ) (s : σ) (note : Event → World σ (Recorded ω) → ω) (own : ω) :
    let h := Host.watching d note
    let start : World σ (Recorded ω) := ⟨m, s, .ofOwn own⟩
    let start' : World σ (Recorded ω) := ⟨m', s, .ofOwn own⟩
    let more := memorySize'.toNat - memorySize.toNat
    (∀ n, (∀ k < n, ¬ (Nat.iterate h.step.final k start).machine.Wraps) →
      (Nat.iterate h.step.final n start).Widened more (Nat.iterate h.step.final n start') ∧
      ∀ k < n, Agree (World.Widened more) (h.step.nth k start) (h.step.nth k start')) ∧
    ∀ (j : Job) (stamp : Stamp) (budget : Nat) (buffered : Bool) (r : Result σ),
      j.catalogue = t → j.catalogue.program j.text = program →
      j.options.memorySize = memorySize →
      (∀ k b, (Host.silent d).Steps ⟨m, s, ()⟩ k b → ¬ b.machine.Wraps) →
      j.runWithin budget d buffered s = .finished r →
        ∃ summary entries,
          r.receipt = .ofSummary (.ofText j.text j.path j.stamp) summary entries ∧
          (j.resized memorySize' stamp).runWithin budget d buffered s =
            .finished ⟨r.machine.widened more, r.device,
              .ofSummary (.ofText j.text j.path stamp) (summary.resized memorySize'.toNat)
                entries⟩ := by
  intro h start start' more
  refine ⟨fun n hn => ?_, ?_⟩
  · have hstart : start.Widened more start' := ⟨Machine.load_widened hload hload' hle, rfl, rfl⟩
    have hi : m.Intact t program memorySize := .of_load hload
    rw [← Layout.relates_widening memorySize.toNat] at hstart ⊢
    refine Layout.watching_nth_laidOut hstart fun k hk => ?_
    have hdriven : h.Driven start (Nat.iterate h.step.final k start) := Host.Driven.start.iterate k
    have hfits := Layout.Fits.of_intact (hdriven.intact hi) (Layout.widening memorySize.toNat more)
    exact ⟨hfits, Layout.widening_followsStep hfits (hn k hk)⟩
  · rintro j stamp budget buffered r rfl rfl rfl hw hr
    exact Job.resized_finished hload hload' hle stamp hw hr

/-- A move to the right from the first of two cells, and the same on three cells. -/
theorem cells_beyond_do_not_matter_right :
    let program : List Command := [⟨0, 2, "moO", .right⟩]
    let m : Machine := ⟨.standard, program.toArray, #[0, 0], 0, 0, none, .none, false, false, false⟩
    let j : Job := ⟨"moO", none, .standard, ⟨2, some 5, true⟩, ⟨"", ""⟩⟩
    Machine.load .standard program 2 = .ok m ∧
      Machine.load .standard program 3 = .ok (m.widened 1) ∧ j.catalogue.program j.text = program ∧
      (∀ k b, (Host.silent Buffer.device).Steps ⟨m, .ofInput "" [], ()⟩ k b → ¬ b.machine.Wraps) ∧
      ∃ r r', j.runWithin 1 Buffer.device true (.ofInput "" []) = .finished r ∧
        (j.resized 3 ⟨"now", ""⟩).runWithin 1 Buffer.device true (.ofInput "" []) = .finished r' ∧
        r'.machine = r.machine.widened 1 := by
  intro program m j
  have hload : Machine.load .standard program 2 = .ok m := rfl
  have hload' : Machine.load .standard program 3 = .ok (m.widened 1) := rfl
  have hprogram : j.catalogue.program j.text = program := by decide +kernel
  have hstart : ¬ m.Wraps := by
    rintro ⟨-, -, c, hc, ⟨he, -⟩ | ⟨-, hlast⟩⟩
    · cases hc
      cases he.unique (.own nofun)
    · cases hlast
  -- the only step ends the machine
  have hsteps : ∀ k b, (Host.silent Buffer.device).Steps ⟨m, .ofInput "" [], ()⟩ k b →
      b.machine = m ∨ b.machine.finished = true := by
    intro k b hb
    induction hb with
    | none => exact .inl rfl
    | @snoc _ b _ _ hf hstep ih =>
      obtain hm | hend := ih
      · obtain ⟨n, device, _⟩ := b
        rw [show n = m from hm, Host.silent_step] at hstep
        cases hstep
        exact .inr rfl
      · exact absurd (hend.symm.trans hf) nofun
  have hw : ∀ k b, (Host.silent Buffer.device).Steps ⟨m, .ofInput "" [], ()⟩ k b →
      ¬ b.machine.Wraps := by
    intro k b hb hwraps
    obtain hm | hf := hsteps k b hb
    · exact hstart (hm ▸ hwraps)
    · exact absurd (hf.symm.trans hwraps.1) nofun
  have hends : ∃ r, (⟨"moO", none, .standard, ⟨2, some 5, true⟩, ⟨"", ""⟩⟩ : Job).runWithin 1
      Buffer.device true (.ofInput "" []) = .finished r := ⟨_, rfl⟩
  obtain ⟨r, hr⟩ := hends
  obtain ⟨-, hruns⟩ := cells_beyond_do_not_matter hload hload' (by decide) Buffer.device
    (.ofInput "" []) (fun _ _ => ()) ()
  obtain ⟨summary, entries, -, hwide⟩ := hruns j ⟨"now", ""⟩ 1 true r rfl hprogram rfl hw hr
  exact ⟨hload, hload', hprogram, hw, r, _, hr, hwide, rfl⟩

end Run

end Moo
