import Moo.Device.Buffer
import Moo.Proofs.Machine.Calls

/-!
# Skips come in pairs

A step passes its command just when it is the first or the second step after one that has armed a
skip (`skips_come_in_pairs`). The pending skip tells how long ago that was: the invariant
`Host.Calls.pending` ties it to the history of the calls.
-/

namespace Moo

open Act

variable {σ ω : Type}

def Skip.left : Skip → Nat
  | .none => 0
  | .after => 1
  | .nextThenAfter => 2

theorem Skip.left_next (s : Skip) : s.next.left = s.left - 1 := by
  cases s <;> rfl

theorem Skip.left_pos {s : Skip} : 0 < s.left ↔ s ≠ .none := by
  cases s <;> simp [left]

namespace Machine

variable {m : Machine} {c : Command} {x : Shift}

/-- The step of the machine arms a skip: what its command stands for does so on a zero cell. -/
def Arms (m : Machine) : Prop :=
  m.finished = false ∧ m.skip = .none ∧ m.value = 0 ∧
    ∃ c, m.command? = some c ∧ m.Means c .skipIfZero

/-! ## One step -/

theorem turn_of_skip (hr : m.Resting) (hf : m.finished = false) (hc : m.command? = some c)
    {skip : Skip} (h : m.visitTurn c = .quiet ({ m with skip }, [])) :
    ∃ finished, (finished = true ↔ m.counter + 1 = m.program.size) ∧
      m.turn = .quiet ({ m with counter := m.counter + 1, skip, finished },
        if finished then [.done] else []) := by
  have ha : advance { m with skip } = { m with counter := m.counter + 1, skip } :=
    advance_of_unjumped hr.jumped
  obtain ⟨finished, hfin, hx⟩ := closed_of_unbroken (m := { m with skip }) (hr.unbroken hf) hf
    (by rw [ha]; exact counter_lt hc)
  rw [ha] at hfin hx
  refine ⟨finished, hfin, ?_⟩
  rw [turn_of_command hf hc, h]
  show Turn.quiet ((closed { m with skip }).1, [] ++ (closed { m with skip }).2) = _
  rw [hx, hr.jumped]
  rfl

theorem visitTurn_of_pending (hs : m.skip ≠ .none) :
    m.visitTurn c = .quiet ({ m with skip := m.skip.next }, []) := by
  unfold visitTurn
  rw [if_neg hs]

theorem Arms.visitTurn (h : m.Arms) (hc : m.command? = some c) :
    m.visitTurn c = .quiet ({ m with skip := .nextThenAfter }, []) := by
  obtain ⟨-, hs, hv, k, hk, he⟩ := h
  obtain rfl : k = c := Option.some.inj (hk.symm.trans hc)
  rw [he.visitTurn hs hc]
  exact if_pos hv

/-- What is pending after a step that does not end the machine. -/
theorem pending_of_turn (hf : m.finished = false) (h : m.turn.Yields x)
    (hx : x.1.finished = false) :
    (x.1.skip = .nextThenAfter ↔ m.Arms) ∧ (x.1.skip = .after ↔ m.skip = .nextThenAfter) := by
  cases hc : m.command? with
  | none =>
    rw [turn_of_no_command hf hc] at h
    cases h
    unfold ended at hx
    rw [hf] at hx
    cases hx
  | some c =>
    rw [turn_of_command hf hc] at h
    obtain ⟨y, hy, rfl⟩ := Turn.yields_map h
    -- the close leaves the pending skip alone, so all depends on the visit
    obtain ⟨finished, hm⟩ := y.1.closed_machine
    have hskip : (y.andThen closed).1.skip = y.1.skip := by
      show y.1.closed.1.skip = _
      rw [hm]
    rw [hskip]
    cases visitTurn_visited hc hy with
    | passed hs =>
      have harms : ¬ m.Arms := fun h => hs h.2.1
      dsimp only
      cases hk : m.skip with
      | none => exact absurd hk hs
      | nextThenAfter => exact ⟨iff_of_false nofun harms, iff_of_true rfl rfl⟩
      | after => exact ⟨iff_of_false nofun harms, iff_of_false nofun nofun⟩
    | @ran e _ hs he hran =>
      rw [hran.skip, hs]
      by_cases ha : e = .skipIfZero ∧ m.value = 0
      · obtain ⟨rfl, hv⟩ := ha
        rw [if_pos ⟨rfl, hv⟩]
        exact ⟨iff_of_true rfl ⟨hf, hs, hv, c, hc, he⟩, iff_of_false nofun nofun⟩
      · have harms : ¬ m.Arms := by
          rintro ⟨-, -, hv, k, hk, hmeans⟩
          obtain rfl : k = c := Option.some.inj (hk.symm.trans hc)
          exact ha ⟨he.unique hmeans, hv⟩
        rw [if_neg ha]
        exact ⟨iff_of_false nofun harms, iff_of_false nofun nofun⟩
    | @refused info hs hi =>
      have harms : ¬ m.Arms := by
        rintro ⟨-, -, -, k, hk, hmeans⟩
        obtain rfl : k = c := Option.some.inj (hk.symm.trans hc)
        exact hmeans.not_refuses hi
      show (m.skip = .nextThenAfter ↔ _) ∧ (m.skip = .after ↔ _)
      rw [hs]
      exact ⟨iff_of_false nofun harms, iff_of_false nofun nofun⟩

end Machine

/-! ## Many steps -/

namespace Host

variable {d : Device σ} {note : Event → World σ (Recorded ω) → ω}
  {a b : World σ (Recorded ω)} {n : Nat}

theorem unfinished_of_step {h : Host σ ω} {b c : World σ ω} (hstep : h.step b = .ok () c)
    (hc : c.machine.finished = false) : b.machine.finished = false := by
  cases hf : b.machine.finished with
  | false => rfl
  | true =>
    rw [step_of_finished h hf] at hstep
    cases hstep
    rw [hf] at hc
    cases hc

/-- As long as the machine runs, the pending skip tells which of the last two steps has armed it. -/
theorem Calls.pending (h : (watching d note).Calls a n b) (ha : a.machine.skip = .none)
    (hf : b.machine.finished = false) :
    (b.machine.skip = .nextThenAfter ↔
        ∃ j u, n = j + 1 ∧ (watching d note).Calls a j u ∧ u.machine.Arms) ∧
      (b.machine.skip = .after ↔
        ∃ j u, n = j + 2 ∧ (watching d note).Calls a j u ∧ u.machine.Arms) := by
  induction h with
  | none =>
    rw [ha]
    exact ⟨iff_of_false nofun nofun, iff_of_false nofun nofun⟩
  | @snoc n b c hcalls hstep ih =>
    -- what the last step armed is all pending; what the one before armed is half passed
    have hb := unfinished_of_step hstep hf
    obtain ⟨hnext, -⟩ := ih hb
    obtain ⟨fired, hon, -⟩ := turn_of_watching_step hstep
    obtain ⟨harms, hafter⟩ := Machine.pending_of_turn hb (Turn.yields_of_on hon) hf
    constructor
    · rw [harms]
      constructor
      · exact fun h => ⟨n, b, rfl, hcalls, h⟩
      · rintro ⟨j, u, hj, hu, h⟩
        obtain rfl : n = j := Nat.succ.inj hj
        exact hcalls.unique hu ▸ h
    · rw [hafter, hnext]
      constructor
      · rintro ⟨j, u, rfl, hu, h⟩
        exact ⟨j, u, rfl, hu, h⟩
      · rintro ⟨j, u, hj, hu, h⟩
        exact ⟨j, u, Nat.succ.inj hj, hu, h⟩

/-- The step passes its command: all it does is close, and it changes nothing but the counter, the
pending skip and, behind the program, the end, which is all that it tells of. -/
structure Passes (h : Host σ (Recorded ω)) (b b' : World σ (Recorded ω)) : Prop where
  step : h.step b = .ok () b'
  closes : h.step b =
    h.close { b with machine := { b.machine with skip := b.machine.skip.next } }
  machine : b'.machine =
    { b.machine with
      counter := b.machine.counter + 1
      skip := b.machine.skip.next
      finished := b'.machine.finished }
  device : b'.device = b.device
  events : b'.audience.events =
    b.audience.events ++ if b'.machine.finished then #[Event.done] else #[]

variable (d note) in
theorem watching_step_of_skip {c : Command} {skip : Skip} (hr : b.machine.Resting)
    (hf : b.machine.finished = false) (hc : b.machine.command? = some c)
    (h : b.machine.visitTurn c = .quiet ({ b.machine with skip }, [])) :
    ∃ b', (watching d note).step b = .ok () b' ∧
      (b'.machine.finished = true ↔ b.machine.counter + 1 = b.machine.program.size) ∧
      b'.machine =
        { b.machine with
          counter := b.machine.counter + 1
          skip
          finished := b'.machine.finished } ∧
      b'.device = b.device ∧
      b'.audience.events =
        b.audience.events ++ if b'.machine.finished then #[Event.done] else #[] := by
  obtain ⟨finished, hfin, hturn⟩ := Machine.turn_of_skip hr hf hc h
  obtain ⟨b', hstep, hm, hd, he⟩ := watching_step_of_quiet d note hturn
  have hfinished : b'.machine.finished = finished := by rw [hm]
  refine ⟨b', hstep, ?_⟩
  rw [hfinished]
  refine ⟨hfin, hm, hd, he.trans ?_⟩
  cases finished <;> rfl

variable (d note) in
theorem passes_of_pending {c : Command} (hr : b.machine.Resting)
    (hf : b.machine.finished = false) (hc : b.machine.command? = some c)
    (hs : b.machine.skip ≠ .none) :
    ∃ b', (watching d note).Passes b b' ∧
      (b'.machine.finished = true ↔ b.machine.counter + 1 = b.machine.program.size) := by
  obtain ⟨b', hstep, hfin, hm, hd, he⟩ :=
    watching_step_of_skip d note hr hf hc (Machine.visitTurn_of_pending hs)
  exact ⟨b', ⟨hstep, step_of_pending _ hf hc hs, hm, hd, he⟩, hfin⟩

end Host

/-! ## The two steps after an arming -/

/-- So many steps after one at position `p` has armed a skip: the counter has moved on by one with
each, the machine ends just if the program does, and two steps pass in all. -/
structure Machine.SinceArming (p i : Nat) (m : Machine) : Prop where
  counter : m.counter = min (p + i) m.program.size
  finished : m.finished = true ↔ m.program.size ≤ p + i
  pending : m.finished = false → m.skip.left = 3 - i

namespace Host

variable {d : Device σ} {note : Event → World σ (Recorded ω) → ω}
  {a b u : World σ (Recorded ω)} {i j : Nat}

theorem sinceArming_one (hr : u.machine.Resting) (hu : u.machine.Arms) :
    ∃ v, (watching d note).step u = .ok () v ∧ v.machine.SinceArming u.machine.counter 1 := by
  obtain ⟨c, hc, -⟩ := hu.2.2.2
  have hlt := Machine.counter_lt hc
  obtain ⟨v, hstep, hfin, hm, -, -⟩ :=
    watching_step_of_skip d note hr hu.1 hc (hu.visitTurn hc)
  refine ⟨v, hstep, ?_, ?_, fun _ => ?_⟩
  · rw [hm]
    dsimp only
    omega
  · rw [hfin, hm]
    dsimp only
    omega
  · rw [hm]
    rfl

theorem sinceArming_succ {p : Nat} (hr : b.machine.Resting)
    (hb : b.machine.SinceArming p i) (hi : i < 3) :
    ∃ v, (watching d note).step b = .ok () v ∧ v.machine.SinceArming p (i + 1) := by
  cases hf : b.machine.finished with
  | true =>
    have hge := hb.finished.mp hf
    have hcount := hb.counter
    refine ⟨b, step_of_finished _ hf, by omega, iff_of_true hf (by omega), fun h => ?_⟩
    rw [hf] at h
    cases h
  | false =>
    have hlt : ¬ b.machine.program.size ≤ p + i := by
      rw [← hb.finished, hf]
      exact Bool.false_ne_true
    have hcount : b.machine.counter = p + i := by
      rw [hb.counter]
      omega
    obtain ⟨c, hc⟩ : ∃ c, b.machine.command? = some c :=
      Option.isSome_iff_exists.mp (Machine.command?_isSome_iff.mpr (by omega))
    have hleft := hb.pending hf
    have hs : b.machine.skip ≠ .none := Skip.left_pos.mp (by omega)
    obtain ⟨v, hv, hfin⟩ := passes_of_pending d note hr hf hc hs
    refine ⟨v, hv.step, ?_, ?_, fun _ => ?_⟩
    · rw [hv.machine]
      dsimp only
      omega
    · rw [hfin, hv.machine]
      dsimp only
      omega
    · rw [hv.machine]
      dsimp only
      rw [Skip.left_next]
      omega

/-- The steps that follow an arming, up to the third. -/
theorem Calls.sinceArming (ha : a.machine.Resting) (hu : (watching d note).Calls a j u)
    (harms : u.machine.Arms) (hi : i < 3) :
    ∃ v, (watching d note).Calls a (j + (i + 1)) v ∧
      v.machine.SinceArming u.machine.counter (i + 1) := by
  induction i with
  | zero =>
    obtain ⟨v, hstep, hv⟩ := sinceArming_one (hu.resting ha) harms
    exact ⟨v, hu.snoc hstep, hv⟩
  | succ i ih =>
    obtain ⟨b, hb, hwindow⟩ := ih (by omega)
    obtain ⟨v, hstep, hv⟩ := sinceArming_succ (hb.resting ha) hwindow (by omega)
    exact ⟨v, hb.snoc hstep, hv⟩

end Host

/-! ## Main statement -/

/-- In every run of steps of a loaded machine, before subscribers that only watch: a step passes its
command just when it is the first or the second after one that has armed a skip. If it does, all it
does is close; otherwise it runs the command. Of an arming at position `p`, the two steps that
follow pass what stands at `p + 1` and `p + 2`, and the next one runs what stands at `p + 3`, unless
the program ends before. -/
theorem skips_come_in_pairs {t : Catalogue} {program : List Command} {memorySize : Int} {m : Machine}
    (ht : t.SoleRunner) (hload : Machine.load t program memorySize = .ok m) (d : Device σ) (s : σ)
    (note : Event → World σ (Recorded ω) → ω) (own : ω) :
    (d.Reliable → ∀ n, ∃ b, (Host.watching d note).Calls ⟨m, s, .ofOwn own⟩ n b) ∧
    (∀ n b c, (Host.watching d note).Calls ⟨m, s, .ofOwn own⟩ n b →
      b.machine.finished = false → b.machine.command? = some c →
        (b.machine.skip ≠ .none ↔ ∃ j u, (n = j + 1 ∨ n = j + 2) ∧
          (Host.watching d note).Calls ⟨m, s, .ofOwn own⟩ j u ∧ u.machine.Arms) ∧
        (b.machine.skip = .none → (Host.watching d note).step b =
          ((Host.watching d note).perform c.effect >>= fun _ => (Host.watching d note).close) b) ∧
        (b.machine.skip ≠ .none → ∃ b', (Host.watching d note).Passes b b')) ∧
    ∀ j u, (Host.watching d note).Calls ⟨m, s, .ofOwn own⟩ j u → u.machine.Arms →
      ∀ i, 1 ≤ i → i ≤ 3 → ∃ v, (Host.watching d note).Calls ⟨m, s, .ofOwn own⟩ (j + i) v ∧
        v.machine.counter = min (u.machine.counter + i) program.length ∧
        (v.machine.finished = true ↔ program.length ≤ u.machine.counter + i) ∧
        (v.machine.finished = false → (v.machine.skip ≠ .none ↔ i < 3)) := by
  have hr : m.Resting := .of_load hload
  have hskip : m.skip = .none := by
    obtain ⟨-, rfl⟩ := Machine.load_eq hload
    rfl
  refine ⟨fun hd n => Host.calls_of_reliable hd ht hload rfl n, ?_, ?_⟩
  · intro n b c hb hf hc
    refine ⟨?_, Host.step_of_none_pending _ hf hc, fun hs => ?_⟩
    · obtain ⟨hnext, hafter⟩ := hb.pending hskip hf
      have hcases : b.machine.skip ≠ .none ↔
          b.machine.skip = .nextThenAfter ∨ b.machine.skip = .after := by
        cases b.machine.skip <;> simp
      rw [hcases, hnext, hafter]
      constructor
      · rintro (⟨j, u, hj, hu⟩ | ⟨j, u, hj, hu⟩)
        · exact ⟨j, u, .inl hj, hu⟩
        · exact ⟨j, u, .inr hj, hu⟩
      · rintro ⟨j, u, hj | hj, hu⟩
        · exact .inl ⟨j, u, hj, hu⟩
        · exact .inr ⟨j, u, hj, hu⟩
    · obtain ⟨b', hb', -⟩ := Host.passes_of_pending d note (hb.resting hr) hf hc hs
      exact ⟨b', hb'⟩
  · intro j u hu harms i hlo hhi
    obtain ⟨i, rfl⟩ := Nat.exists_eq_add_of_le' hlo
    obtain ⟨v, hv, hwindow⟩ := hu.sinceArming hr harms hhi
    have hsize : v.machine.program.size = program.length := by
      rw [(hv.intact (.of_load hload)).program, List.size_toArray]
    have hcount := hwindow.counter
    have hfin := hwindow.finished
    rw [hsize] at hcount hfin
    refine ⟨v, hv, hcount, hfin, fun hf => ?_⟩
    rw [← Skip.left_pos, hwindow.pending hf]
    omega

/-- A skip at the start of a program: two increments pass, and the third is run. -/
theorem skips_come_in_pairs_start :
    let plus : Command := ⟨0, 6, "MoO", .increment⟩
    let program : List Command := [⟨0, 7, "MOO", .skipIfZero⟩, plus, plus, plus]
    let m : Machine := ⟨.standard, program.toArray, #[0], 0, 0, none, .none, false, false, false⟩
    Catalogue.standard.SoleRunner ∧ Machine.load .standard program 1 = .ok m ∧ m.Arms ∧
      ∃ v : World Buffer (Recorded Unit),
        (Host.watching Buffer.device fun _ _ => ()).Calls ⟨m, .ofInput "" [], .ofOwn ()⟩ 3 v ∧
        v.machine.counter = 3 ∧ v.machine.finished = false ∧ v.machine.skip = .none := by
  intro plus program m
  have hload : Machine.load .standard program 1 = .ok m := rfl
  have harms : m.Arms := ⟨rfl, rfl, rfl, _, rfl, .own nofun⟩
  have pairs := skips_come_in_pairs Catalogue.standard_soleRunner hload Buffer.device
    (.ofInput "" []) (fun _ _ => ()) ()
  obtain ⟨v, hv, hcount, hfin, hskip⟩ := pairs.2.2 0 _ .none harms 3 (by decide) (by decide)
  have hf : v.machine.finished = false := Bool.eq_false_iff.mpr (mt hfin.mp (by decide))
  exact ⟨Catalogue.standard_soleRunner, hload, harms, v, hv, hcount, hf,
    Decidable.not_not.mp (mt (hskip hf).mp (by decide))⟩

end Moo
