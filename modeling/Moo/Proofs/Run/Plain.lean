import Moo.Proofs.Json.Document
import Moo.Proofs.Machine.Course
import Moo.Proofs.Run.Receipt
import Moo.Proofs.Run.View

/-!
# Receipts are plain

A receipt is a plain JSON value: no object in it has a name twice and it nests six deep at most. Its
integers are those that the machine, the log and the counts of the run carry (`Summary.Carries`,
`Entry.Carries`). Sessions bring about small ones only: bytes, positions of cells and of commands,
and numbers of steps (`Job.result_plain`).
-/

namespace Moo

open Json

variable {P : Int → Prop}

theorem toString_nat_inj {m n : Nat} (h : toString m = toString n) : m = n := by
  have hdigits : Nat.toDigits 10 m = Nat.toDigits 10 n := by
    rw [← toList_toString_nat, h, toList_toString_nat]
  rw [← Nat.ofDigitChars_ten_toDigits (n := m), hdigits, Nat.ofDigitChars_ten_toDigits]

/-! ## Positions of cells -/

theorem Snapshot.le_of_mem_nonzero {position : Nat} {cells : List Nat} {p : Nat × Nat}
    (h : p ∈ nonzero position cells) : position ≤ p.1 := by
  obtain ⟨k, hk, -⟩ := mem_nonzero_iff.mp h
  omega

theorem Snapshot.nodup_nonzero (position : Nat) (cells : List Nat) :
    ((nonzero position cells).map Prod.fst).Nodup := by
  induction cells generalizing position with
  | nil => exact .nil
  | cons v rest ih =>
    rw [nonzero]
    split
    · exact ih _
    · refine List.nodup_cons.mpr ⟨?_, ih _⟩
      intro hmem
      obtain ⟨p, hp, heq⟩ := List.mem_map.mp hmem
      have hle := le_of_mem_nonzero hp
      dsimp only at heq
      omega

/-! ## Numbers that are carried -/

/-- The number that the reason of a refusal shows satisfies `P`. -/
def BadEval.Carries (P : Int → Prop) (info : BadEval) : Prop := ∀ v ∈ info.value, P v

def Event.Carries (P : Int → Prop) : Event → Prop
  | .valueChanged value => P value
  | .cursorChanged cursor => P cursor
  | .registerChanged register => ∀ v ∈ register, P (v : Nat)
  | .badEval info => info.Carries P
  | .done => True

/-- The numbers of the snapshot satisfy `P`, and no cell is kept twice. -/
structure Snapshot.Carries (P : Int → Prop) (s : Snapshot) : Prop where
  cursor : P s.cursor
  counter : P s.counter
  register : ∀ v ∈ s.register, P (v : Nat)
  memorySize : P s.memorySize
  cells : ∀ p ∈ s.cells, P (p.2 : Nat)
  positions : (s.cells.map Prod.fst).Nodup

namespace Run

structure Entry.Carries (P : Int → Prop) (e : Entry) : Prop where
  step : P e.step
  counter : P e.counter
  events : ∀ event ∈ e.events, event.Carries P

structure Summary.Carries (P : Int → Prop) (s : Summary) : Prop where
  tokens : P s.tokens
  commands : P s.commands
  steps : P s.steps
  snapshot : s.snapshot.Carries P
  output : ∀ o ∈ s.output, P o.value
  refusals : ∀ info ∈ s.refusals, info.Carries P

end Run

/-! ## Parts of a receipt -/

theorem plain_ofOption {α : Type} {f : α → Json} {depth : Nat} {x : Option α}
    (h : ∀ a ∈ x, Plain P depth (f a)) : Plain P depth (.ofOption f x) := by
  cases x with
  | none => exact .null
  | some a => exact h a rfl

theorem BadEval.Carries.plain {info : BadEval} (h : info.Carries P) : Plain P 1 info.toJson := by
  unfold BadEval.toJson
  split
  · have hvalue : Plain P 0 (.ofOption .int info.value) := plain_ofOption fun v hv => .int (h v hv)
    exact .record (by simp) (by simp [Plain.text, hvalue])
  · exact .record (by simp) (by simp [Plain.text])

theorem Event.Carries.plain {event : Event} (h : event.Carries P) :
    Json.Plain P 1 event.payload := by
  cases event with
  | valueChanged value => exact .int h
  | cursorChanged cursor => exact .int h
  | registerChanged register => exact plain_ofOption fun v hv => .int (h v hv)
  | badEval info => exact BadEval.Carries.plain h
  | done => exact .null

theorem Snapshot.Carries.plain {s : Snapshot} (h : s.Carries P) : Plain P 2 s.toJson := by
  have hcells : Plain P 1
      (.record (s.cells.map fun cell => (toString cell.1, .nat cell.2))) := by
    refine .record ?_ (List.forall_mem_map.mpr fun p hp => .int (h.cells p hp))
    have hnames := h.positions.map fun _ _ heq => toString_nat_inj heq
    rw [List.map_map] at hnames ⊢
    exact hnames
  have hregister : Plain P 1 (.ofOption .nat s.register) :=
    plain_ofOption fun v hv => .int (h.register v hv)
  unfold Snapshot.toJson
  refine .record (by simp) ?_
  simp only [List.forall_mem_cons]
  exact ⟨.int h.cursor, .int h.counter, hregister, .int h.memorySize, hcells, List.forall_mem_nil _⟩

namespace Run

theorem Entry.Carries.plain {e : Entry} (h : e.Carries P) : Plain P 4 e.toJson := by
  have hevents : Plain P 3 (.arr (e.events.map fun event =>
      .record [("event", .text event.kind.name), ("value", event.payload)])) := by
    refine .arr (List.forall_mem_map.mpr fun event he => .record (by simp) ?_)
    simp [Plain.text, (h.events event he).plain]
  unfold Entry.toJson
  cases e.events.isEmpty with
  | true =>
    refine .record (by simp) ?_
    simp only [if_true, List.append_nil, List.forall_mem_cons]
    exact ⟨.int h.step, .int h.counter, .text _, .text _, List.forall_mem_nil _⟩
  | false =>
    refine .record (by simp) ?_
    rw [List.forall_mem_append]
    refine ⟨?_, List.forall_mem_singleton.mpr hevents⟩
    simp only [List.forall_mem_cons]
    exact ⟨.int h.step, .int h.counter, .text _, .text _, List.forall_mem_nil _⟩

theorem outputJson_plain {o : Output} (h : P o.value) : Plain P 1 (outputJson o) :=
  .record (by simp) (by simp [Plain.text, Plain.int h])

/-- A line of the log that says a string and whose further members are plain and have other
names. -/
theorem LogEntry.plain {e : LogEntry} (hmessage : ∃ s : String, e.message = s)
    (hnames : (LogEntry.fixedNames ++ e.extra.map Prod.fst).Nodup)
    (h : ∀ m ∈ e.extra, Plain P 1 m.2) : Plain P 2 e.toJson := by
  obtain ⟨s, hs⟩ := hmessage
  refine .record hnames ?_
  simp only [List.forall_mem_cons, hs]
  exact ⟨.text _, .text _, .text s, h⟩

theorem Summary.Carries.plain_logs {s : Summary} (h : s.Carries P) :
    ∀ e ∈ s.logs, Plain P 2 e.toJson := by
  unfold Summary.logs
  rw [List.forall_mem_append, List.forall_mem_map, List.forall_mem_singleton]
  constructor
  · intro info hi
    exact LogEntry.plain ⟨_, rfl⟩ (by simp [LogEntry.fixedNames])
      (List.forall_mem_singleton.mpr (h.refusals info hi).plain)
  · exact LogEntry.plain ⟨_, rfl⟩ (by simp [LogEntry.fixedNames])
      (List.forall_mem_singleton.mpr (.int h.steps))

theorem Summary.Carries.plain_members {s : Summary} (h : s.Carries P) :
    ∀ m ∈ s.members, Plain P 5 m.2 := by
  have hprogram : Plain P 5 (.record [("tokens", .nat s.tokens), ("commands", .nat s.commands)]) :=
    .record (by simp) (by simp [Plain.int h.tokens, Plain.int h.commands, Json.nat])
  have houtput : Plain P 5 (.arr (s.output.map outputJson)) :=
    .arr (List.forall_mem_map.mpr fun o ho => (outputJson_plain (h.output o ho)).mono (by decide))
  have hrefusal : Plain P 5 (.ofOption BadEval.toJson s.refusals.head?) := by
    refine plain_ofOption fun info hi => ?_
    exact (h.refusals info (List.mem_of_head? hi)).plain.mono (by decide)
  unfold Summary.members
  rw [List.forall_mem_append, List.forall_mem_append, List.forall_mem_singleton]
  refine ⟨⟨?_, ?_⟩, hrefusal⟩
  · simp only [List.forall_mem_cons]
    exact ⟨.text _, hprogram, .int h.steps, h.snapshot.plain.mono (by decide), houtput,
      List.forall_mem_nil _⟩
  · cases s.stdout with
    | none => exact nofun
    | some shown => exact List.forall_mem_singleton.mpr (.text shown)

theorem Heading.plain_members (h : Heading) {logs : List LogEntry} {entries : List Entry}
    (hlogs : ∀ e ∈ logs, Plain P 2 e.toJson) (hentries : ∀ e ∈ entries, Plain P 4 e.toJson) :
    ∀ m ∈ h.members logs entries, Plain P 5 m.2 := by
  have hrun : Plain P 5
      (.record [("timestamp", .text h.stamp.timestamp), ("uuid", .text h.stamp.uuid)]) :=
    .record (by simp) (by simp [Plain.text])
  have hlist : Plain P 5 (.arr (logs.map LogEntry.toJson)) :=
    .arr (List.forall_mem_map.mpr fun e he => (hlogs e he).mono (by decide))
  have hsteps : Plain P 5 (.arr (entries.map Entry.toJson)) :=
    .arr (List.forall_mem_map.mpr hentries)
  unfold Heading.members
  simp only [List.forall_mem_cons]
  refine ⟨.text _, ?_, hrun, hlist, hsteps, List.forall_mem_nil _⟩
  cases h.path with
  | none => exact .record (by simp) (by simp [Plain.text])
  | some path => exact .record (by simp) (by simp [Plain.text])

/-! ## Whole receipts -/

theorem Receipt.ofSummary_plain (h : Heading) {s : Summary} {entries : List Entry}
    (hs : s.Carries P) (hentries : ∀ e ∈ entries, e.Carries P) :
    Plain P 6 (Receipt.ofSummary h s entries).toJson := by
  refine .record ?_ (List.forall_mem_append.mpr
    ⟨h.plain_members hs.plain_logs fun e he => (hentries e he).plain, hs.plain_members⟩)
  show ((h.members s.logs entries ++ s.members).map Prod.fst).Nodup
  unfold Heading.members Summary.members
  cases s.stdout with
  | none => simp
  | some shown => simp

theorem Receipt.ofFailure_plain (h : Heading) (reason : String) :
    Plain P 6 (Receipt.ofFailure h reason).toJson := by
  have hlog : ∀ e ∈ (Receipt.ofFailure h reason).logs, Plain P 2 e.toJson :=
    List.forall_mem_singleton.mpr (LogEntry.plain ⟨_, rfl⟩ (by simp [LogEntry.fixedNames])
      (List.forall_mem_nil _))
  refine .record ?_ (List.forall_mem_append.mpr ⟨h.plain_members hlog (List.forall_mem_nil _), ?_⟩)
  · simp [Heading.members, ofFailure]
  · simp only [ofFailure, List.forall_mem_cons]
    exact ⟨.text _, .text _, List.forall_mem_nil _⟩

end Run

/-! ## Numbers that come up -/

namespace Machine

variable {m : Machine} {x : Shift} {e : Effect}

/-- The cursor positions that the shift tells of are on the ring of the machine. -/
def OnRing (m : Machine) (x : Shift) : Prop := ∀ c, .cursorChanged c ∈ x.2 → c < m.cells.size

theorem OnRing.andThen {f : Machine → Shift} (h : m.OnRing x)
    (hf : ∀ c, .cursorChanged c ∉ (f x.1).2) : m.OnRing (x.andThen f) := by
  intro c hc
  rcases List.mem_append.mp hc with hc | hc
  · exact h c hc
  · exact absurd hc (hf c)

theorem cursorChanged_not_mem_closed (m : Machine) (c : Nat) : .cursorChanged c ∉ m.closed.2 := by
  unfold closed ended
  split
  · split <;> simp
  · simp

theorem cursorSet_onRing (hm : m.Sound) (position : Int) : m.OnRing (m.cursorSet position) := by
  intro c hc
  cases List.mem_singleton.mp hc
  exact onRing_lt (Nat.lt_of_le_of_lt (Nat.zero_le _) hm.cursor) position

theorem plainTurn_onRing (hm : m.Sound) (h : (m.plainTurn e).Yields x) : m.OnRing x := by
  cases e with
  | left =>
    cases h
    exact cursorSet_onRing hm _
  | right =>
    cases h
    exact cursorSet_onRing hm _
  | runCell => exact h.elim
  | exchangeChar =>
    dsimp only [plainTurn] at h
    split at h
    · obtain ⟨n, rfl⟩ := h
      simp [OnRing, valueSet]
    · cases h
      exact nofun
  | skipIfZero =>
    dsimp only [plainTurn] at h
    split at h <;> cases h <;> exact nofun
  | swapRegister =>
    dsimp only [plainTurn] at h
    split at h <;> cases h <;> simp [OnRing, Shift.andThen, valueSet, registerSet]
  | readNumber =>
    obtain ⟨n, rfl⟩ := h
    simp [OnRing, valueSet]
  | _ =>
    cases h
    simp [OnRing, valueSet]

theorem visitTurn_onRing {c : Command} (hm : m.Sound) (hc : m.command? = some c)
    (h : (m.visitTurn c).Yields x) : m.OnRing x := by
  unfold visitTurn at h
  split at h
  · obtain ⟨info, -, ht⟩ | ⟨e, -, ht⟩ := m.effectTurn_cases hc
    · rw [ht] at h
      cases h
      simp [OnRing, refused]
    · rw [ht] at h
      exact plainTurn_onRing hm h
  · cases h
    exact nofun

theorem turn_onRing {c : Command} (hm : m.Sound) (hf : m.finished = false)
    (hc : m.command? = some c) (h : m.turn.Yields x) : m.OnRing x := by
  rw [turn_of_command hf hc] at h
  obtain ⟨y, hy, rfl⟩ := Turn.yields_map h
  exact (visitTurn_onRing hm hc hy).andThen (cursorChanged_not_mem_closed y.1)

end Machine

variable {bound : Nat}

theorem BadEval.Genuine.carries (hP : ∀ n : Nat, n ≤ bound → P n) (hbytes : 256 ≤ bound)
    {info : BadEval} (h : info.Genuine) : info.Carries P := by
  intro n hn
  obtain ⟨v, hv, rfl⟩ | rfl := h
  · cases hn
    exact hP v (by omega)
  · cases hn

/-- What a machine announces are bytes and positions on its ring. -/
theorem Event.Plain.carries (hP : ∀ n : Nat, n ≤ bound → P n) (hbytes : 256 ≤ bound)
    {event : Event} (h : event.Plain) (hc : ∀ c, event = .cursorChanged c → c ≤ bound) :
    event.Carries P := by
  cases event with
  | valueChanged value => exact hP _ (Nat.le_trans (Nat.le_of_lt h) hbytes)
  | cursorChanged cursor => exact hP _ (hc cursor rfl)
  | registerChanged register =>
    exact fun v hv => hP _ (Nat.le_trans (Nat.le_of_lt (h v hv)) hbytes)
  | badEval info => exact BadEval.Genuine.carries hP hbytes h
  | done => trivial

theorem snapshot_carries {m : Machine} (hP : ∀ n : Nat, n ≤ bound → P n) (hbytes : 256 ≤ bound)
    (hm : m.Sound) (hcells : m.cells.size ≤ bound) (hcounter : m.counter ≤ bound) :
    m.snapshot.Carries P where
  cursor := hP _ (Nat.le_trans (Nat.le_of_lt hm.cursor) hcells)
  counter := hP _ hcounter
  register v hv := hP _ (Nat.le_trans (Nat.le_of_lt (hm.register v hv)) hbytes)
  memorySize := hP _ hcells
  cells p hp := by
    obtain ⟨k, -, hk, -⟩ := Snapshot.mem_nonzero_iff.mp hp
    have hlt := hm.cells p.2 (Array.mem_toList_iff.mp (List.mem_of_getElem? hk))
    exact hP _ (by omega)
  positions := Snapshot.nodup_nonzero 0 _

namespace Run

/-- The most steps that are counted within a budget. -/
def Options.most (o : Options) (budget : Nat) : Nat :=
  match o.maxSteps with
  | some limit => limit.toNat
  | none => budget

theorem Options.succ_le_most {o : Options} {steps budget : Nat} (h : o.exhaustedAt steps = false)
    (hs : steps < budget) : steps + 1 ≤ o.most budget := by
  unfold exhaustedAt at h
  unfold most
  cases hm : o.maxSteps with
  | some limit =>
    rw [hm] at h
    have hlt := of_decide_eq_false h
    dsimp only
    omega
  | none => exact hs

/-- No number that comes up in a run is larger. -/
structure Job.BoundedBy (j : Job) (budget bound : Nat) : Prop where
  bytes : 256 ≤ bound
  cells : j.options.memorySize ≤ bound
  tokens : (Token.ofText j.text).length ≤ bound
  steps : j.options.most budget ≤ bound

theorem Job.exists_bound (j : Job) (budget : Nat) : ∃ bound, j.BoundedBy budget bound :=
  ⟨256 + j.options.memorySize.toNat + (Token.ofText j.text).length + j.options.most budget,
    by omega, by omega, by omega, by omega⟩

namespace Session

variable {σ : Type} {d : Device σ} {o : Options} {s s₀ s' : Session σ} {n budget : Nat}
  {t : Catalogue} {program : List Command} {memorySize : Int} {m : Machine} {device : σ}

theorem Ticks.resting (h : Ticks d o s₀ n s) (hs : s₀.machine.Resting) : s.machine.Resting := by
  induction h with
  | none => exact hs
  | snoc _ _ ht ih =>
    obtain ⟨-, x, device, hon, rfl⟩ := tick_turn ht
    rw [after_machine]
    exact (Machine.turn_stepped ih (Turn.yields_of_on hon)).resting ih

theorem Ticks.steps_le (h : Ticks d o s₀ n s) : s.steps ≤ s₀.steps + n := by
  induction h with
  | none => exact Nat.le_refl _
  | @snoc n s s' _ _ ht ih =>
    obtain ⟨-, w, -, rfl⟩ := tick_ok ht
    unfold after
    split
    · exact Nat.le_succ_of_le ih
    · exact Nat.succ_le_succ ih

/-- What a session has counted and kept, as long as it runs. -/
structure Small (P : Int → Prop) (most : Nat) (s : Session σ) : Prop where
  steps : s.steps ≤ most
  entries : ∀ e ∈ s.entries, e.Carries P

theorem Ticks.small (hP : ∀ n : Nat, n ≤ bound → P n) (hbytes : 256 ≤ bound)
    (hcells : memorySize ≤ bound) (hprogram : program.length ≤ bound)
    (hsteps : o.most budget ≤ bound) (h : Ticks d o (.start m device) n s)
    (hm : m.Intact t program memorySize) (hn : n ≤ budget) :
    s.Small P (o.most budget) := by
  induction h with
  | none => exact ⟨Nat.zero_le _, fun _ he => absurd he (Array.not_mem_empty _)⟩
  | @snoc n s s' hticks hf ht ih =>
    have hsmall := ih (Nat.le_of_succ_le hn)
    have hfit := hticks.fit (Fit.of_start hm device)
    have hlt : s.steps < budget := by
      have hle := hticks.steps_le
      rw [show (start m device).steps = 0 from rfl] at hle
      omega
    obtain ⟨hx, x, device', hon, rfl⟩ := tick_turn ht
    cases hc : s.machine.command? with
    | none =>
      rw [after_of_none hc]
      exact ⟨hsmall.steps, hsmall.entries⟩
    | some c =>
      have hmost := Options.succ_le_most hx hlt
      have hcounter := Machine.counter_lt hc
      rw [hfit.machine.program, List.size_toArray] at hcounter
      have hring := Machine.turn_onRing hfit.machine.toSound hf hc (Turn.yields_of_on hon)
      have hw : stepOnce d s.machine s.device = .ok () ⟨x.1, device', x.2.toArray⟩ := by
        rw [stepOnce_eq, hon]
      have hevents := (hfit.observed hw).events
      rw [after_of_some hc]
      refine ⟨hmost, fun e he => ?_⟩
      dsimp only at he
      split at he
      · rcases Array.mem_push.mp he with he | rfl
        · exact hsmall.entries e he
        · refine ⟨hP _ (Nat.le_trans hmost hsteps), hP _ ?_, fun event hevent => ?_⟩
          · show s.machine.counter ≤ bound
            omega
          · refine (hevents event (Array.mem_toList_iff.mp hevent)).carries hP hbytes ?_
            rintro c rfl
            have hlt := hring c hevent
            have hsize := hfit.machine.size
            omega
      · exact hsmall.entries e he

end Session

/-! ## Words of a text -/

theorem length_ofGathered_le (gathered : List Char) (stop : Nat) :
    (Token.ofGathered gathered stop).length ≤ gathered.length := by
  cases gathered with
  | nil => exact Nat.le_refl _
  | cons c cs => exact Nat.succ_le_succ (Nat.zero_le _)

theorem length_scan_le (cs gathered : List Char) (position : Nat) :
    (Token.scan position gathered cs).length ≤ gathered.length + cs.length := by
  induction cs generalizing gathered position with
  | nil => exact length_ofGathered_le gathered position
  | cons c rest ih =>
    rw [Token.scan, List.length_cons]
    split
    · have hle := ih (c :: gathered) (position + 1)
      rw [List.length_cons] at hle
      omega
    · have hle := ih [] (position + 1)
      have hword := length_ofGathered_le gathered position
      rw [List.length_nil] at hle
      rw [List.length_append]
      omega

theorem length_ofText_le (text : String) : (Token.ofText text).length ≤ text.length := by
  have hle := length_scan_le text.toList [] 0
  rw [List.length_nil, Nat.zero_add, String.length_toList] at hle
  exact hle

theorem program_length_le (t : Catalogue) (text : String) :
    (t.program text).length ≤ (Token.ofText text).length := List.length_filterMap_le _ _

/-! ## Runs that end -/

namespace Job

variable {σ : Type} {d : Device σ} {j : Job} {budget : Nat} {buffered : Bool} {device : σ}
  {r : Result σ}

/-- The receipt of a run that ends is plain, with integers that come up in the run. -/
theorem result_plain (hP : ∀ n : Nat, n ≤ bound → P n) (hj : j.BoundedBy budget bound)
    (h : j.runWithin budget d buffered device = .finished r) : Json.Plain P 6 r.receipt.toJson := by
  obtain ⟨m, s, shown, hm, hs, -, rfl⟩ := runWithin_finished h
  obtain ⟨n, hn, hticks, -⟩ := Session.ticks_of_run hs
  have hintact := Machine.Intact.of_load hm
  have hprogram := Nat.le_trans (program_length_le j.catalogue j.text) hj.tokens
  have hfit := hticks.fit (Session.Fit.of_start hintact device)
  have hsmall := hticks.small hP hj.bytes hj.cells hprogram hj.steps hintact hn
  have hsize : s.machine.program.size ≤ bound := by
    rw [hfit.machine.program, List.size_toArray]
    exact hprogram
  have hcells : s.machine.cells.size ≤ bound := by
    have := hfit.machine.size
    have := hj.cells
    omega
  have hcounter := (hticks.resting (Machine.Resting.of_load hm)).counter
  refine Receipt.ofSummary_plain _ ?_ fun e he => hsmall.entries e (Array.mem_toList_iff.mp he)
  exact {
    tokens := hP _ hj.tokens
    commands := hP _ hsize
    steps := hP _ (Nat.le_trans hsmall.steps hj.steps)
    snapshot :=
      snapshot_carries hP hj.bytes hfit.machine.toSound hcells (Nat.le_trans hcounter hsize)
    output := fun o ho => by
      have hcarries := hfit.output o (Array.mem_toList_iff.mp ho)
      obtain ⟨hlo, hhi⟩ := Channel.Carries.byte hcarries
      have hbytes := hj.bytes
      rw [← Int.toNat_of_nonneg hlo]
      exact hP _ (by omega)
    refusals := fun info hi =>
      (hfit.refusals info (Array.mem_toList_iff.mp hi)).carries hP hj.bytes }

end Job

end Run

end Moo
