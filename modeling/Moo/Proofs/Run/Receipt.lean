import Mathlib.Data.List.Nodup
import Moo.Cli.Runner
import Moo.Proofs.Machine.Picture
import Moo.Proofs.Run.Basic
import Moo.Proofs.Run.Described
import Moo.Proofs.Schema.Reference

/-!
# Receipts satisfy their schema

A receipt is fit when its numbers and texts lie where the schema wants them (`Receipt.Fit`), and fit
receipts are what receipts are described to be, so that no validator that follows the standard finds
problems in them. Sessions bring about nothing else: the machine is sound, only bytes were written
and refusals have the reasons of the language, so the receipt of every run that comes to an end is
without problems, and so is the one that the runner writes when it gives up.
-/

namespace Moo

/-! ## Decimal digits -/

theorem toList_toString_nat (n : Nat) : (toString n).toList = Nat.toDigits 10 n := by
  rw [Nat.toString_eq_ofList_toDigits, String.toList_ofList]

structure Snapshot.Fit (s : Snapshot) : Prop where
  register : ∀ v ∈ s.register, v < 256
  memorySize : 1 ≤ s.memorySize
  cells : ∀ p ∈ s.cells, 1 ≤ p.2 ∧ p.2 < 256

namespace Run

structure Summary.Fit (s : Summary) : Prop where
  snapshot : s.snapshot.Fit
  output : ∀ o ∈ s.output, o.channel.Carries o.value
  refusals : ∀ info ∈ s.refusals, info.Genuine

namespace Receipt

variable {finds : Pattern → JsonText → Prop}

/-! ## Texts with a pattern -/

theorem digits_contains {c : Char} (h : c.isDigit = true) : digits.contains c = true := by
  simpa [digits, CharClass.contains, Char.isDigit, Char.le_def] using h

theorem position_found (hfinds : FindsSpelled finds) (n : Nat) :
    finds positionPattern (.ofString (toString n)) := by
  refine hfinds _ _ (Pattern.spells_singleton.mpr ?_)
  rw [toList_toString_nat]
  refine ⟨Nat.toDigits_ne_nil, fun c hc => ?_⟩
  exact digits_contains (Nat.isDigit_of_mem_toDigits (by decide) (by decide) hc)

theorem hexDigits_contains {n : Nat} (h : n < 16) :
    hexDigits.contains (Text.hexDigit n) = true := by
  revert n
  decide

theorem mem_hex {width n : Nat} {c : Char} (h : c ∈ Text.hex width n) :
    hexDigits.contains c = true := by
  induction width generalizing n with
  | zero => exact absurd h List.not_mem_nil
  | succ width ih =>
    rcases List.mem_append.mp h with h | h
    · exact ih h
    · rw [List.mem_singleton.mp h]
      exact hexDigits_contains (Nat.mod_lt _ (by decide))

theorem mem_toHex {s : Digest.State} {c : Char} (h : c ∈ s.toHex) :
    hexDigits.contains c = true := by
  obtain ⟨w, -, hc⟩ := List.mem_flatMap.mp h
  exact mem_hex hc

theorem toList_sha256 (message : List UInt8) :
    ∃ s : Digest.State, (Digest.sha256 message).toList = s.toHex := ⟨_, String.toList_ofList⟩

theorem hash_found (hfinds : FindsSpelled finds) (text : String) :
    finds hashPattern (.ofString (sourceHash text)) := by
  obtain ⟨s, hs⟩ := toList_sha256 text.toUTF8.data.toList
  refine hfinds _ _ (Pattern.spells_text_cons.mpr ⟨s.toHex, ?_, Pattern.spells_singleton.mpr ?_⟩)
  · unfold sourceHash
    rw [String.toList_append, hs]
  · exact ⟨Digest.length_toHex s, fun c hc => mem_toHex hc⟩

/-! ## Parts of a receipt -/

theorem isCount_nat (n : Nat) : IsCount (.nat n) := ⟨n, .int n, Int.natCast_nonneg n⟩

theorem isSource {h : Heading} (hhash : finds hashPattern (.ofString h.hash)) :
    IsSource finds (.record (("hash", .text h.hash) ::
      match h.path with
      | some path => [("path", .text path)]
      | none => [])) := by
  cases h.path with
  | none =>
    exact ⟨Json.isObjectOf_record.mpr (by simp), ⟨_, rfl, _, rfl, hhash⟩, Json.may_of_no_field rfl⟩
  | some path =>
    exact ⟨Json.isObjectOf_record.mpr (by simp), ⟨_, rfl, _, rfl, hhash⟩,
      Json.may_of_field? rfl ⟨_, rfl⟩⟩

theorem isStamp (s : Stamp) :
    IsStamp (.record [("timestamp", .text s.timestamp), ("uuid", .text s.uuid)]) :=
  ⟨Json.isObjectOf_record.mpr (by simp), ⟨_, rfl, _, rfl⟩, ⟨_, rfl, _, rfl⟩⟩

theorem isProgram (tokens commands : Nat) :
    IsProgram (.record [("tokens", .nat tokens), ("commands", .nat commands)]) :=
  ⟨Json.isObjectOf_record.mpr (by simp), ⟨_, rfl, isCount_nat _⟩, ⟨_, rfl, isCount_nat _⟩⟩

theorem isWrite {o : Output} (h : o.channel.Carries o.value) : IsWrite (outputJson o) := by
  have hkind : o.channel.name ∈ ["char", "byte"] := by cases o.channel <;> simp [Channel.name]
  have hvalue := h.byte
  exact ⟨Json.isObjectOf_record.mpr (by simp), ⟨_, rfl, _, hkind, rfl⟩,
    ⟨_, rfl, _, .int _, by omega⟩⟩

theorem isCells (hfinds : FindsSpelled finds) {s : Snapshot} (h : s.Fit) :
    IsCells finds
      (.record (s.cells.map fun (position, value) => (toString position, .nat value))) := by
  refine ⟨⟨_, rfl⟩, fun name w hw => ?_⟩
  obtain ⟨m, hm, rfl⟩ := Option.map_eq_some_iff.mp hw
  have hname := List.find?_some hm
  have hmem := List.mem_of_find?_eq_some hm
  simp only [List.map_map, List.mem_map] at hmem
  obtain ⟨⟨position, value⟩, hp, rfl⟩ := hmem
  obtain ⟨hlo, hhi⟩ : 1 ≤ value ∧ value < 256 := h.cells _ hp
  rw [← eq_of_beq hname]
  exact ⟨position_found hfinds position, value, .int _, by omega⟩

theorem isMachine (hfinds : FindsSpelled finds) {s : Snapshot} (h : s.Fit) :
    IsMachine finds s.toJson := by
  have hsize := h.memorySize
  refine ⟨Json.isObjectOf_record.mpr (by simp), ⟨_, rfl, isCount_nat _⟩, ⟨_, rfl, isCount_nat _⟩,
    ⟨_, rfl, ?_⟩, ⟨_, rfl, _, .int _, by omega⟩, ⟨_, rfl, isCells hfinds h⟩⟩
  cases hr : s.register with
  | none => exact .inl rfl
  | some v =>
    have hv := h.register v hr
    exact .inr ⟨v, .int _, by omega⟩

theorem isRefusal {info : Option BadEval} (h : ∀ i ∈ info, i.Genuine) :
    IsRefusal (.ofOption BadEval.toJson info) := by
  cases info with
  | none => exact .inl rfl
  | some info =>
    rcases h info rfl with ⟨v, -, rfl⟩ | rfl
    · exact .inr (.inl ⟨Json.isObjectOf_record.mpr (by simp), ⟨_, rfl, rfl⟩,
        ⟨_, rfl, v, .int _, trivial⟩⟩)
    · have hkind : BadEval.evalLoop.kind ≠ BadEval.invalidKind := by decide
      exact .inr (.inr ⟨Json.isObjectOf_record.mpr (by simp [hkind]), ⟨_, rfl, rfl⟩⟩)

theorem refusal_shown {info : Option BadEval} (h : ∀ i ∈ info, i.Genuine) {depth : Nat}
    (hdepth : 1 ≤ depth) : (Json.ofOption BadEval.toJson info).obstacle? depth = none := by
  obtain ⟨depth, rfl⟩ := Nat.exists_eq_add_of_le' hdepth
  cases info with
  | none => rfl
  | some info =>
    refine Json.obstacle?_obj.mpr (List.forall_mem_map.mpr ?_)
    rcases h info rfl with ⟨v, hv, rfl⟩ | rfl
    · have hbytes : Number.Legible 256 := Number.legible_of_lt (k := 3) (by decide) (by decide)
      have hvalue : Number.Legible v := hbytes.of_le (by omega)
      exact List.forall_mem_cons.mpr
        ⟨Json.obstacle?_text _, List.forall_mem_singleton.mpr (Json.obstacle?_of_legible hvalue)⟩
    · exact List.forall_mem_singleton.mpr (Json.obstacle?_text _)

theorem isLogEntry {e : LogEntry} (h : e.level ∈ ["info", "warning", "error"]) :
    IsLogEntry e.toJson :=
  ⟨⟨_, rfl⟩, ⟨_, rfl, _, h, rfl⟩, ⟨_, rfl, _, rfl⟩, ⟨_, rfl, _, rfl⟩⟩

theorem isStepEntry {e : Entry} (h : 1 ≤ e.step) : IsStepEntry e.toJson := by
  have hmode : e.mode.name ∈ ["exec", "skip"] := by cases e.mode <;> simp [Mode.name]
  refine ⟨⟨_, rfl⟩, ⟨_, rfl, _, .int _, by omega⟩, ⟨_, rfl, isCount_nat _⟩, ⟨_, rfl, _, rfl⟩,
    ⟨_, rfl, _, hmode, rfl⟩, ?_⟩
  unfold Entry.toJson
  cases e.events with
  | nil => exact Json.may_of_no_field rfl
  | cons event events => exact Json.may_of_field? rfl ⟨_, rfl, fun _ _ => trivial⟩

/-! ## Whole receipts -/

/-- The hash is a digest, log lines have one of the three levels, entries are numbered from one, and
the summary, if there is one, is that of a sound machine. -/
structure Fit (finds : Pattern → JsonText → Prop) (r : Receipt) : Prop where
  hash : finds hashPattern (.ofString r.heading.hash)
  logs : ∀ e ∈ r.logs, e.level ∈ ["info", "warning", "error"]
  entries : ∀ e ∈ r.entries, 1 ≤ e.step
  summary : ∀ s, r.verdict = .finished s → s.Fit

theorem Fit.described (hfinds : FindsSpelled finds) {r : Receipt} (h : r.Fit finds) :
    Described finds r.toJson := by
  obtain ⟨heading, verdict, logs, entries⟩ := r
  have hlogs : Json.IsArrayOf IsLogEntry (.arr (logs.map LogEntry.toJson)) :=
    ⟨_, rfl, List.forall_mem_map.mpr fun e he => isLogEntry (h.logs e he)⟩
  have hentries : Json.IsArrayOf IsStepEntry (.arr (entries.map Entry.toJson)) :=
    ⟨_, rfl, List.forall_mem_map.mpr fun e he => isStepEntry (h.entries e he)⟩
  cases verdict with
  | failed reason =>
    exact {
      object := Json.isObjectOf_record.mpr (by simp [Heading.members])
      engine := ⟨_, rfl, rfl⟩
      module := ⟨_, rfl, isSource h.hash⟩
      run := ⟨_, rfl, isStamp heading.stamp⟩
      status := ⟨_, rfl, "error", by simp, rfl⟩
      reason := Json.may_of_field? rfl ⟨_, rfl⟩
      program := Json.may_of_no_field rfl
      stepsExecuted := Json.may_of_no_field rfl
      machine := Json.may_of_no_field rfl
      output := Json.may_of_no_field rfl
      stdout := Json.may_of_no_field rfl
      badEval := Json.may_of_no_field rfl
      logs := ⟨_, rfl, hlogs⟩
      steps := Json.may_of_field? rfl hentries }
  | finished s =>
    obtain ⟨hsnapshot, houtput, hrefusals⟩ := h.summary s rfl
    have hstatus : s.status ∈ ["ok", "badEval", "error"] := by
      unfold Summary.status
      split <;> simp
    have hwrites : Json.IsArrayOf IsWrite (.arr (s.output.map outputJson)) :=
      ⟨_, rfl, List.forall_mem_map.mpr fun o ho => isWrite (houtput o ho)⟩
    have hrefusal := isRefusal fun i hi => hrefusals i (List.mem_of_head? hi)
    -- the members behind the output depend on whether it is kept as a text
    obtain ⟨tokens, commands, steps, snapshot, output, stdout, refusals⟩ := s
    have hstdout : (toJson ⟨heading, .finished ⟨tokens, commands, steps, snapshot, output, stdout,
        refusals⟩, logs, entries⟩).May "stdout" Json.IsString := by
      cases stdout with
      | none => exact Json.may_of_no_field rfl
      | some shown => exact Json.may_of_field? rfl ⟨_, rfl⟩
    cases stdout <;> exact {
      object := Json.isObjectOf_record.mpr (by simp [Heading.members, Summary.members])
      engine := ⟨_, rfl, rfl⟩
      module := ⟨_, rfl, isSource h.hash⟩
      run := ⟨_, rfl, isStamp heading.stamp⟩
      status := ⟨_, rfl, _, hstatus, rfl⟩
      reason := Json.may_of_no_field rfl
      program := Json.may_of_field? rfl (isProgram _ _)
      stepsExecuted := Json.may_of_field? rfl (isCount_nat _)
      machine := Json.may_of_field? rfl (isMachine hfinds hsnapshot)
      output := Json.may_of_field? rfl hwrites
      stdout := hstdout
      badEval := Json.may_of_field? rfl hrefusal
      logs := ⟨_, rfl, hlogs⟩
      steps := Json.may_of_field? rfl hentries }

/-- No validator that follows the standard finds anything wrong with a fit receipt. -/
theorem Fit.problems {V : Validator} {depth : Nat} (hV : V.Follows finds depth)
    (hdepth : 1 ≤ depth) (hfinds : FindsSpelled finds) {r : Receipt} (h : r.Fit finds) :
    problems V r.toJson = .ok [] := by
  refine (problems_eq_nil_iff hV ?_).mpr (h.described hfinds)
  obtain ⟨heading, verdict, logs, entries⟩ := r
  cases verdict with
  | failed reason => exact Json.may_of_no_field rfl
  | finished s =>
    have hrefusals := (h.summary s rfl).refusals
    have hshown := refusal_shown (fun i hi => hrefusals i (List.mem_of_head? hi)) hdepth
    obtain ⟨tokens, commands, steps, snapshot, output, stdout, refusals⟩ := s
    cases stdout <;> exact Json.may_of_field? rfl hshown

end Receipt

/-! ## Receipts of runs -/

theorem snapshot_fit {m : Machine} (h : m.Sound) : m.snapshot.Fit where
  register := h.register
  memorySize := Nat.lt_of_le_of_lt (Nat.zero_le _) h.cursor
  cells p hp := by
    obtain ⟨k, -, hk, hne⟩ := Snapshot.mem_nonzero_iff.mp hp
    have hlt := h.cells p.2 (Array.mem_toList_iff.mp (List.mem_of_getElem? hk))
    omega

theorem summary_logs_levels (s : Summary) :
    ∀ e ∈ s.logs, e.level ∈ ["info", "warning", "error"] := by
  unfold Summary.logs
  rw [List.forall_mem_append, List.forall_mem_map, List.forall_mem_singleton]
  exact ⟨fun _ _ => by simp, by simp⟩

variable {σ : Type} {t : Catalogue} {program : List Command} {memorySize : Int}
variable {finds : Pattern → JsonText → Prop}

theorem Job.result_fit (hfinds : FindsSpelled finds) {j : Job} {stdout : Option String}
    {s : Session σ} (h : s.Fit t program memorySize) : (j.result stdout s).receipt.Fit finds where
  hash := Receipt.hash_found hfinds j.text
  logs := summary_logs_levels _
  entries e he := h.entries e (Array.mem_toList_iff.mp he)
  summary v hv := by
    cases hv
    exact ⟨snapshot_fit h.machine.toSound, fun o ho => h.output o (Array.mem_toList_iff.mp ho),
      fun info hi => h.refusals info (Array.mem_toList_iff.mp hi)⟩

theorem Job.receipt_fit (hfinds : FindsSpelled finds) {d : Device σ} {buffered : Bool} {j : Job}
    {budget : Nat} {device : σ} {r : Result σ}
    (h : j.runWithin budget d buffered device = .finished r) : r.receipt.Fit finds := by
  obtain ⟨m, s, shown, hm, hs, -, rfl⟩ := Job.runWithin_finished h
  exact j.result_fit hfinds (Session.run_fit (.of_start (Machine.Intact.of_load hm) device) hs)

theorem Receipt.ofFailure_fit (hfinds : FindsSpelled finds) (j : Job) (reason : String) :
    (Receipt.ofFailure j.heading reason).Fit finds where
  hash := Receipt.hash_found hfinds j.text
  logs := List.forall_mem_singleton.mpr (by simp)
  entries _ he := absurd he List.not_mem_nil
  summary _ hv := nomatch hv

open Cli.Runner in
/-- Where the validator follows the standard, every run that ends gives a receipt without problems,
on every device, and when the runner gives up with a receipt, that receipt has none either. -/
theorem receipts_have_no_problems (P : Cli.Platform)
    (hV : P.validator.Follows finds P.showDepth) (hdepth : 1 ≤ P.showDepth)
    (hfinds : FindsSpelled finds) :
    (∀ (σ : Type) (d : Device σ) (buffered : Bool) (j : Job) (budget : Nat) (device : σ)
      (r : Result σ), j.runWithin budget d buffered device = .finished r →
        Receipt.problems P.validator r.receipt.toJson = .ok []) ∧
    ∀ (s : Cli.Settings) (disk : Disk) (intact : Bool) (p p' : Provider) (j : Job)
      (failure : Failure),
      j.run P.patience Provider.device p.isBuffer p = .failed failure p' →
        isReported intact failure = true →
        ∃ receipt : Receipt,
          receipt = .ofFailure j.heading failure.message ∧
          Receipt.problems P.validator receipt.toJson = .ok [] ∧
          perform P s disk intact p j =
            (((emit s disk receipt 1).afterErrors (logLines s receipt.logs)).after
              (shown p').1).afterErrors (shown p').2 := by
  constructor
  · intro σ d buffered j budget device r h
    exact (Job.receipt_fit hfinds h).problems hV hdepth hfinds
  · intro s disk intact p p' j failure h hr
    refine ⟨_, rfl, (Receipt.ofFailure_fit hfinds j failure.message).problems hV hdepth hfinds, ?_⟩
    unfold perform
    rw [h]
    show (((giveUp s disk intact j.heading failure).after _).afterErrors _) = _
    unfold giveUp
    rw [if_pos hr]
    rfl

/-- A run that shows a two and goes on to the next cell by it, and one that is refused a number. -/
theorem receipts_have_no_problems_refused :
    let P : Cli.Platform := .sample
    P.validator.Follows Pattern.Found P.showDepth ∧ 1 ≤ P.showDepth ∧
    FindsSpelled Pattern.Found ∧
    (∃ r, (⟨"MoO MoO OOM MMM mOO", none, .standard, ⟨3, none, true⟩, ⟨"", ""⟩⟩ : Job).runWithin 9
        Buffer.device true (.ofInput "" []) = .finished r ∧
      Receipt.problems P.validator r.receipt.toJson = .ok []) ∧
    ∃ receipt : Receipt,
      receipt = .ofFailure (.ofText "oom" none ⟨"", ""⟩) "no more integer input available" ∧
      Receipt.problems P.validator receipt.toJson = .ok [] ∧
      Cli.Runner.perform P .standard (.bare []) true (.ofBuffer (.ofInput "" []))
          ⟨"oom", none, .standard, ⟨3, some 9, true⟩, ⟨"", ""⟩⟩ =
        (((Cli.Runner.emit .standard (.bare []) receipt 1).afterErrors
          (Cli.Runner.logLines .standard receipt.logs)).after "").afterErrors "" := by
  intro P
  have hV := Cli.Platform.sample_follows
  have hfinds := findsSpelled_found
  have hends : ∃ r, (⟨"MoO MoO OOM MMM mOO", none, .standard, ⟨3, none, true⟩, ⟨"", ""⟩⟩ :
      Job).runWithin 9 Buffer.device true (.ofInput "" []) = .finished r := ⟨_, rfl⟩
  obtain ⟨r, hr⟩ := hends
  have hdepth : 1 ≤ P.showDepth := by decide
  obtain ⟨hends, hfails⟩ := receipts_have_no_problems P hV hdepth hfinds
  refine ⟨hV, hdepth, hfinds, ⟨r, hr, hends _ _ _ _ _ _ r hr⟩, ?_⟩
  exact hfails .standard (.bare []) true (.ofBuffer (.ofInput "" [])) _
    ⟨"oom", none, .standard, ⟨3, some 9, true⟩, ⟨"", ""⟩⟩ (.fault (.exhausted .integer)) rfl rfl

end Run

end Moo
