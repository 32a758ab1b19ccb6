import Moo.Cli.Runner
import Moo.Proofs.Cli.Settings
import Moo.Proofs.Disk.Written
import Moo.Proofs.Run.Plain
import Moo.Proofs.Run.Provided
import Moo.Proofs.Run.Receipt

/-!
# What the runner does

With complete settings (`Settings.Complete`) the runner launches a job on a provider (`Launches`). A
run that ends, and one that its input or its limit stops, is reported by a receipt (`Reports`). Only
a run without a limit, and one that reads on in input that is no text, may come to neither
(`CutShort`). What is shown, written and answered is then determined by the receipt
(`mainOn_of_reports`), and so is the file that it is written to.
-/

namespace Moo.Cli

open Run

/-! ## Settings that a run can be made with -/

namespace Settings

/-- No number is missing, and there is room for the cells. -/
structure Complete (P : Platform) (s : Settings) : Prop where
  numbers : none ∉ s.numbers
  memorySize : ∃ n, s.memorySize = some n ∧ P.hasRoom n = true
  maxSteps : s.noStepLimit = true ∨ s.maxSteps ≠ none

structure Reads (s : Settings) (disk : Disk) (text : String) : Prop where
  file : disk.isFile (.ofString s.program) = .ok true
  text : disk.readText (.ofString s.program) = .ok text

def CanSave (s : Settings) (disk : Disk) : Prop :=
  ∀ out ∈ s.receiptOut, out ≠ "" → disk.Writable (.ofString out)

/-- What a run with these settings lacks: a number, or room for its cells. -/
inductive Lacks (P : Platform) (s : Settings) : Crash → Prop where
  | number : Lacks P s .noNumber
  | room {size : Int} : s.memorySize = some size → P.hasRoom size = false →
      Lacks P s (.noMemory size)

variable {P : Platform} {s : Settings}

theorem mapM_id_isSome_iff {α : Type} {xs : List (Option α)} :
    (xs.mapM id).isSome ↔ none ∉ xs := by
  induction xs with
  | nil => simp
  | cons x xs ih =>
    cases x with
    | none => simp [List.mapM_cons]
    | some a =>
      rw [List.mapM_cons]
      cases h : xs.mapM id <;> simp_all

theorem options?_eq {n : Int} (hn : s.memorySize = some n)
    (h : s.noStepLimit = true ∨ s.maxSteps ≠ none) :
    s.options? = some ⟨n, if s.noStepLimit then none else s.maxSteps, s.trace⟩ := by
  unfold options?
  rw [hn]
  cases hl : s.noStepLimit with
  | true => rfl
  | false =>
    rcases h with h | h
    · rw [hl] at h
      cases h
    · obtain ⟨limit, hlimit⟩ := Option.ne_none_iff_exists'.mp h
      rw [hlimit]
      rfl

theorem of_options?_eq {o : Options} (h : s.options? = some o) :
    s.memorySize = some o.memorySize ∧ o.maxSteps = (if s.noStepLimit then none else s.maxSteps) ∧
      o.trace = s.trace ∧ (s.noStepLimit = true ∨ s.maxSteps ≠ none) := by
  unfold options? at h
  cases hm : s.memorySize with
  | none =>
    rw [hm] at h
    cases h
  | some n =>
    cases hl : s.noStepLimit with
    | true =>
      rw [hm, hl] at h
      cases h
      exact ⟨rfl, rfl, rfl, .inl rfl⟩
    | false =>
      cases hs : s.maxSteps with
      | none =>
        rw [hm, hl, hs] at h
        cases h
      | some limit =>
        rw [hm, hl, hs] at h
        cases h
        exact ⟨rfl, rfl, rfl, .inr nofun⟩

theorem excess?_eq_none_iff {n : Int} (hn : s.memorySize = some n) :
    s.excess? P.hasRoom = none ↔ P.hasRoom n = true := by
  unfold excess?
  rw [hn, Option.filter_some]
  simp

theorem of_excess?_eq {size : Int} (h : s.excess? P.hasRoom = some size) :
    s.memorySize = some size ∧ P.hasRoom size = false := by
  obtain ⟨hm, hroom⟩ := Option.filter_eq_some_iff.mp h
  exact ⟨hm, Bool.not_eq_true' _ ▸ hroom⟩

theorem complete_of_options {numbers : List Int} {o : Options} (hn : s.numbers? = some numbers)
    (he : s.excess? P.hasRoom = none) (ho : s.options? = some o) : s.Complete P := by
  obtain ⟨hm, -, -, hlimit⟩ := of_options?_eq ho
  refine ⟨?_, ⟨_, hm, (excess?_eq_none_iff hm).mp he⟩, hlimit⟩
  rw [← mapM_id_isSome_iff]
  exact Option.isSome_iff_exists.mpr ⟨numbers, hn⟩

end Settings

namespace Runner

variable {P : Platform} {s : Settings} {disk : Disk} {input : Input} {text out : String}
  {stamp : Stamp} {j : Job} {p p' : Provider} {receipt : Receipt} {arguments : List String}
  {finds : Pattern → JsonText → Prop}

/-! ## Launching -/

/-- The settings run a text as this job on this provider. -/
structure Launches (P : Platform) (s : Settings) (input : Input) (stamp : Stamp) (text : String)
    (j : Job) (p : Provider) : Prop where
  job : j = ⟨text, some (Path.ofString s.program).toString, .standard, j.options, stamp⟩
  options : s.options? = some j.options
  room : s.excess? P.hasRoom = none
  provider : ∃ numbers, s.numbers? = some numbers ∧ p = Runner.provider s numbers input

theorem exists_launches (h : s.Complete P) (input : Input) (stamp : Stamp) (text : String) :
    ∃ j p, Launches P s input stamp text j p := by
  obtain ⟨numbers, hnumbers⟩ := Option.isSome_iff_exists.mp
    (Settings.mapM_id_isSome_iff.mpr h.numbers)
  obtain ⟨n, hn, hroom⟩ := h.memorySize
  exact ⟨⟨text, _, .standard, _, stamp⟩, _, rfl, Settings.options?_eq hn h.maxSteps,
    (Settings.excess?_eq_none_iff hn).mpr hroom, numbers, hnumbers, rfl⟩

theorem runText_of_launches (h : Launches P s input stamp text j p) (disk : Disk) :
    runText P s disk input stamp (.ofString s.program) text =
      perform P s disk input.intact p j := by
  obtain ⟨numbers, hnumbers, rfl⟩ := h.provider
  unfold runText
  simp only [hnumbers, h.room, h.options]
  rw [← h.job]

theorem runText_of_incomplete (h : ¬ s.Complete P) (disk : Disk) (input : Input) (stamp : Stamp)
    (path : Path) (text : String) :
    ∃ e, s.Lacks P e ∧ runText P s disk input stamp path text = .silent (.crash e) disk := by
  unfold runText
  cases hn : s.numbers? with
  | none => exact ⟨_, .number, rfl⟩
  | some numbers =>
    cases he : s.excess? P.hasRoom with
    | some size =>
      obtain ⟨hm, hroom⟩ := Settings.of_excess?_eq he
      exact ⟨_, .room hm hroom, rfl⟩
    | none =>
      cases ho : s.options? with
      | none => exact ⟨_, .number, rfl⟩
      | some o => exact absurd (Settings.complete_of_options hn he ho) h

theorem mainOn_of_reads (hs : Settings.ofArguments arguments = .settings s) (h : s.Reads disk text)
    (P : Platform) (input : Input) (stamp : Stamp) :
    mainOn P arguments disk input stamp =
      runText P s disk input stamp (.ofString s.program) text := by
  unfold mainOn runWith
  simp only [hs, h.file, h.text]

theorem mainOn_of_launches (hs : Settings.ofArguments arguments = .settings s)
    (htext : s.Reads disk text) (h : Launches P s input stamp text j p) :
    mainOn P arguments disk input stamp = perform P s disk input.intact p j :=
  (mainOn_of_reads hs htext P input stamp).trans (runText_of_launches h disk)

theorem Launches.memorySize (h : Launches P s input stamp text j p) (hs : s.Sized) :
    1 ≤ j.options.memorySize ∧ Number.Legible j.options.memorySize :=
  hs.memorySize _ (Settings.of_options?_eq h.options).1

theorem Launches.soleRunner (h : Launches P s input stamp text j p) :
    j.catalogue.SoleRunner := by
  rw [h.job]
  exact Catalogue.standard_soleRunner

/-- On a provider that lacks only these supplies, a launched job fails for no other reason. -/
theorem Launches.expected {keeps : Provider → Prop} {lacks : Supply → Prop}
    (h : Launches P s input stamp text j p) (hs : s.Sized)
    (hd : Provider.device.Exhaustible keeps lacks) (hp : keeps p) {failure : Failure}
    (hrun : j.run P.patience Provider.device p.isBuffer p = .failed failure p') :
    failure.Expected lacks :=
  Job.runWithin_expected hd h.soleRunner (h.memorySize hs).1 hp hrun

/-- The numbers that come up in a launched run can be read, if the length of the text can, and if
nobody waits for more steps than can be read. -/
theorem Launches.bounded (h : Launches P s input stamp text j p) (hs : s.Sized)
    (hlength : Number.Legible text.length) (hpatience : Number.Legible P.patience) :
    ∃ bound, j.BoundedBy (j.budget P.patience) bound ∧ ∀ n : Nat, n ≤ bound → Number.Legible n := by
  obtain ⟨hlo, hlegible⟩ := h.memorySize hs
  have hsize : Number.Legible j.options.memorySize.toNat := hlegible.of_le (by omega)
  have htokens : Number.Legible (Token.ofText j.text).length := by
    rw [h.job]
    exact hlength.of_le (length_ofText_le text)
  have hsteps : Number.Legible (j.options.most (j.budget P.patience)) := by
    obtain ⟨-, hlimit, -⟩ := Settings.of_options?_eq h.options
    unfold Options.most Job.budget
    cases hm : j.options.maxSteps with
    | none => exact hpatience
    | some limit =>
      have hsome : s.maxSteps = some limit := by
        rw [hm] at hlimit
        split at hlimit
        · cases hlimit
        · exact hlimit.symm
      refine (hs.maxSteps limit hsome).2.of_le ?_
      dsimp only
      omega
  have hbytes : Number.Legible 256 := Number.legible_of_lt (k := 3) (by decide) (by decide)
  obtain ⟨a, ha, hbytes, hsize⟩ := hbytes.exists_above (m := 256) hsize
  obtain ⟨b, hb, htokens, hsteps⟩ := htokens.exists_above hsteps
  obtain ⟨bound, hbound, hab, hbb⟩ := ha.exists_above hb
  refine ⟨bound, ?_, fun n hn => hbound.of_le hn⟩
  exact {
    bytes := by omega
    cells := by omega
    tokens := by omega
    steps := by omega }

/-! ## Reports -/

/-- The run of a job ends with this receipt, or is stopped and given up with it. -/
inductive Reports (P : Platform) (intact : Bool) (j : Job) (p : Provider) :
    Receipt → Provider → Prop where
  | finished {r : Result Provider} :
      j.run P.patience Provider.device p.isBuffer p = .finished r →
      Reports P intact j p r.receipt r.device
  | failed {failure : Failure} {p' : Provider} :
      j.run P.patience Provider.device p.isBuffer p = .failed failure p' →
      isReported intact failure = true →
      Reports P intact j p (.ofFailure j.heading failure.message) p'

/-- The run of a job comes to no receipt: it has no limit and does not end, or it is served from
standard input and reads on where that is no text. -/
inductive CutShort (P : Platform) (s : Settings) (intact : Bool) (j : Job) (p : Provider) :
    Crash → Provider → Prop where
  | unfinished {p' : Provider} : s.noStepLimit = true →
      j.run P.patience Provider.device p.isBuffer p = .unfinished p' →
      CutShort P s intact j p .unfinished p'
  | inputNotText {p' : Provider} : s.isScripted = false → intact = false →
      j.run P.patience Provider.device p.isBuffer p =
        .failed (.fault (.exhausted .console)) p' →
      CutShort P s intact j p .inputNotText p'

theorem isReported_of_buffer {failure : Failure} (h : failure.Expected (· ≠ .console))
    (intact : Bool) : isReported intact failure = true := by
  cases h with
  | @exhausted supply hne =>
    cases supply with
    | console => exact absurd rfl hne
    | _ => rfl
  | stepLimit limit => rfl

/-- A launched job comes to a report, unless it is cut short. -/
theorem Launches.reports (h : Launches P s input stamp text j p) (hs : s.Sized) :
    (∃ receipt p', Reports P input.intact j p receipt p') ∨
      ∃ e p', CutShort P s input.intact j p e p' := by
  obtain ⟨numbers, -, hp⟩ := h.provider
  cases hrun : j.run P.patience Provider.device p.isBuffer p with
  | finished r => exact .inl ⟨_, _, .finished hrun⟩
  | failed failure p' =>
    cases hscripted : s.isScripted with
    | true =>
      rw [Runner.provider, hscripted, if_pos rfl] at hp
      have hexpected := h.expected hs Provider.buffer_exhaustible (hp ▸ ⟨_, rfl⟩) hrun
      exact .inl ⟨_, _, .failed hrun (isReported_of_buffer hexpected _)⟩
    | false =>
      rw [Runner.provider, hscripted, if_neg Bool.false_ne_true] at hp
      have hexpected := h.expected hs Provider.console_exhaustible (hp ▸ ⟨_, rfl⟩) hrun
      cases hexpected with
      | stepLimit limit => exact .inl ⟨_, _, .failed hrun rfl⟩
      | exhausted hsupply =>
        subst hsupply
        cases hintact : input.intact with
        | true => exact .inl ⟨_, _, .failed hrun rfl⟩
        | false => exact .inr ⟨_, _, .inputNotText hscripted rfl hrun⟩
  | unfinished p' =>
    refine .inr ⟨_, _, .unfinished (Classical.byContradiction fun hlimited => ?_) hrun⟩
    obtain ⟨-, hlimit, -, hsome⟩ := Settings.of_options?_eq h.options
    rw [if_neg hlimited] at hlimit
    obtain ⟨limit, hmax⟩ := Option.ne_none_iff_exists'.mp (hsome.resolve_left hlimited)
    rw [hmax] at hlimit
    have hpositive := (hs.maxSteps limit hmax).1
    rw [← Int.toNat_of_nonneg (a := limit) (by omega)] at hlimit
    exact Job.run_ends (h.memorySize hs).1 hlimit hrun

variable {intact : Bool} {e : Crash}

theorem Reports.problems (h : Reports P intact j p receipt p')
    (hV : P.validator.Follows finds P.showDepth) (hdepth : 1 ≤ P.showDepth)
    (hfinds : FindsSpelled finds) : Receipt.problems P.validator receipt.toJson = .ok [] := by
  cases h with
  | finished hrun => exact (Job.receipt_fit hfinds hrun).problems hV hdepth hfinds
  | failed _ _ => exact (Receipt.ofFailure_fit hfinds j _).problems hV hdepth hfinds

theorem Reports.plain {Q : Int → Prop} {bound : Nat} (h : Reports P intact j p receipt p')
    (hj : j.BoundedBy (j.budget P.patience) bound) (hQ : ∀ n : Nat, n ≤ bound → Q n) :
    Json.Plain Q 6 receipt.toJson := by
  cases h with
  | finished hrun => exact Job.result_plain hQ hj hrun
  | failed _ _ => exact Receipt.ofFailure_plain _ _

theorem Reports.logs (h : Reports P intact j p receipt p') :
    ∀ e ∈ receipt.logs, e.level ≠ "warning" := by
  cases h with
  | finished hrun =>
    obtain ⟨m, z, shown, -, -, -, rfl⟩ := Job.runWithin_finished hrun
    show ∀ e ∈ Summary.logs _, e.level ≠ "warning"
    unfold Summary.logs
    rw [List.forall_mem_append, List.forall_mem_map, List.forall_mem_singleton]
    exact ⟨fun _ _ => by simp, by simp⟩
  | failed _ _ => exact List.forall_mem_singleton.mpr (by simp)

/-! ## What is shown and written -/

def document (receipt : Receipt) : String := receipt.toJson.pretty ++ "\n"

def code (receipt : Receipt) : Nat := if receipt.status = "ok" then 0 else 1

def shownOutput (s : Settings) (receipt : Receipt) : String :=
  if s.isScripted && !s.printReceipt then stdout receipt else ""

def printed (s : Settings) (receipt : Receipt) : String :=
  if s.printReceipt then document receipt else ""

theorem Reports.unbroken (h : Reports P intact j p receipt p') :
    '\r' ∉ (document receipt).toList := by
  obtain ⟨bound, hbound⟩ := j.exists_bound (j.budget P.patience)
  exact (h.plain (Q := fun _ => True) hbound fun _ _ => trivial).return_not_mem_document

theorem code_eq_zero_iff : code receipt = 0 ↔ receipt.status = "ok" := by
  unfold code
  split <;> simp [*]

theorem code_le (receipt : Receipt) : code receipt = 0 ∨ code receipt = 1 := by
  unfold code
  split <;> simp

theorem withWarnings_of_no_problems {V : Validator}
    (h : Receipt.problems V receipt.toJson = .ok []) : withWarnings V receipt = .ok receipt := by
  unfold withWarnings
  rw [h]
  rfl

/-- A report says what it says whether the run ended or was given up, and whether it is
validated. -/
theorem perform_of_reports (h : Reports P intact j p receipt p')
    (hvalid : Receipt.problems P.validator receipt.toJson = .ok []) (s : Settings) (disk : Disk) :
    perform P s disk intact p j =
      ((((emit s disk receipt (code receipt)).after (shownOutput s receipt)).afterErrors
        (logLines s receipt.logs)).after (shown p').1).afterErrors (shown p').2 := by
  cases h with
  | finished hrun =>
    unfold perform
    rw [hrun]
    show ((conclude P.validator s disk _).after _).afterErrors _ = _
    unfold conclude
    rw [withWarnings_of_no_problems hvalid, ite_self]
    rfl
  | @failed failure p' hrun hreported =>
    have hquiet : shownOutput s (.ofFailure j.heading failure.message) = "" := ite_self _
    rw [hquiet, Outcome.after_empty]
    unfold perform
    rw [hrun]
    show ((giveUp s disk intact j.heading failure).after _).afterErrors _ = _
    unfold giveUp
    rw [if_pos hreported]
    rfl

theorem silent_after_afterErrors (ending : Ending) (disk : Disk) (outs prompts : String) :
    ((Outcome.silent ending disk).after outs).afterErrors prompts =
      ⟨ending, outs, prompts, disk⟩ := by
  rw [Outcome.silent_after]
  unfold Outcome.afterErrors
  rw [String.append_empty]

theorem perform_of_cutShort (h : CutShort P s intact j p e p') (disk : Disk) :
    perform P s disk intact p j = ⟨.crash e, (shown p').1, (shown p').2, disk⟩ := by
  rw [← silent_after_afterErrors]
  unfold perform
  cases h with
  | unfinished _ hrun => rw [hrun]
  | inputNotText _ hintact hrun =>
    subst hintact
    rw [hrun]
    rfl

/-- The receipt is printed, and the file that it is written to holds its document. -/
theorem emit_of_canSave (hsave : s.CanSave disk) (hr : '\r' ∉ (document receipt).toList)
    (code : Nat) :
    ∃ disk', emit s disk receipt code = ⟨.exit code, printed s receipt, "", disk'⟩ ∧
      ∀ out ∈ s.receiptOut, out ≠ "" → disk'.readText (.ofString out) = .ok (document receipt) := by
  unfold emit
  cases hout : s.receiptOut with
  | none => exact ⟨disk, rfl, nofun⟩
  | some out =>
    by_cases hne : out = ""
    · subst hne
      exact ⟨disk, rfl, fun out hmem hne => absurd (Option.some.inj hmem).symm hne⟩
    · obtain ⟨disk', hwrite, hread⟩ := Disk.readText_writeText (hsave out hout hne) hr
      have htext : disk.writeText (.ofString out) (receipt.toJson.pretty ++ "\n") = .ok disk' :=
        hwrite
      refine ⟨disk', ?_, fun out' hout' _ => ?_⟩
      · simp only [Option.filter_some, bne_iff_ne.mpr hne, if_true, htext]
        rfl
      · rw [← Option.some.inj hout']
        exact hread

/-- What the runner comes to by a report. -/
theorem mainOn_of_reports (hs : Settings.ofArguments arguments = .settings s)
    (htext : s.Reads disk text) (hl : Launches P s input stamp text j p)
    (h : Reports P input.intact j p receipt p')
    (hvalid : Receipt.problems P.validator receipt.toJson = .ok []) (hsave : s.CanSave disk) :
    ∃ disk', mainOn P arguments disk input stamp =
        ⟨.exit (code receipt), (shown p').1 ++ (shownOutput s receipt ++ printed s receipt),
          (shown p').2 ++ logLines s receipt.logs, disk'⟩ ∧
      ∀ out ∈ s.receiptOut, out ≠ "" → disk'.readText (.ofString out) = .ok (document receipt) := by
  obtain ⟨disk', hemit, hread⟩ := emit_of_canSave hsave h.unbroken (code receipt)
  refine ⟨disk', ?_, hread⟩
  rw [mainOn_of_launches hs htext hl, perform_of_reports h hvalid, hemit]
  unfold Outcome.after Outcome.afterErrors
  rw [String.append_empty]

theorem mainOn_of_cutShort (hs : Settings.ofArguments arguments = .settings s)
    (htext : s.Reads disk text) (hl : Launches P s input stamp text j p)
    (h : CutShort P s input.intact j p e p') :
    mainOn P arguments disk input stamp = ⟨.crash e, (shown p').1, (shown p').2, disk⟩ := by
  rw [mainOn_of_launches hs htext hl, perform_of_cutShort h]

/-- What the runner comes to on a program that can be read: with settings that are not complete it
crashes before the run; with complete ones there is a report, or the run is cut short. -/
theorem mainOn_cases (hV : P.validator.Follows finds P.showDepth) (hdepth : 1 ≤ P.showDepth)
    (hfinds : FindsSpelled finds)
    (hs : Settings.ofArguments arguments = .settings s) (htext : s.Reads disk text)
    (hsave : s.CanSave disk) (input : Input) (stamp : Stamp) :
    (¬ s.Complete P → ∃ e, s.Lacks P e ∧
      mainOn P arguments disk input stamp = .silent (.crash e) disk) ∧
    (s.Complete P → ∃ j p, Launches P s input stamp text j p ∧
      ((∃ e p', CutShort P s input.intact j p e p' ∧
          mainOn P arguments disk input stamp =
            ⟨.crash e, (shown p').1, (shown p').2, disk⟩) ∨
        ∃ receipt p' disk', Reports P input.intact j p receipt p' ∧
          mainOn P arguments disk input stamp =
            ⟨.exit (code receipt), (shown p').1 ++ (shownOutput s receipt ++ printed s receipt),
              (shown p').2 ++ logLines s receipt.logs, disk'⟩ ∧
          ∀ out ∈ s.receiptOut, out ≠ "" →
            disk'.readText (.ofString out) = .ok (document receipt))) := by
  refine ⟨fun h => ?_, fun h => ?_⟩
  · rw [mainOn_of_reads hs htext]
    exact runText_of_incomplete h disk input stamp _ text
  · obtain ⟨j, p, hl⟩ := exists_launches h input stamp text
    refine ⟨j, p, hl, ?_⟩
    obtain ⟨receipt, p', hreports⟩ | ⟨e, p', hcut⟩ := hl.reports (Settings.sized_of_arguments hs)
    · have hvalid := hreports.problems hV hdepth hfinds
      obtain ⟨disk', hmain, hread⟩ := mainOn_of_reports hs htext hl hreports hvalid hsave
      exact .inr ⟨receipt, p', disk', hreports, hmain, hread⟩
    · exact .inl ⟨e, p', hcut, mainOn_of_cutShort hs htext hl hcut⟩

/-! ## Failures -/

/-- A command line is refused, asks for help, or gives settings. On a file that can be written for
the receipt, if any, and a program file: if its bytes are no text, the runner crashes. If they are,
it crashes where a number is missing or there is no room for the cells. Otherwise a run that is not
cut short ends with 0 or 1, and the file holds the document of a receipt without problems whose
status is good just if the exit code is 0. -/
theorem failures_become_exit_codes (P : Platform)
    (hV : P.validator.Follows finds P.showDepth) (hdepth : 1 ≤ P.showDepth)
    (hfinds : FindsSpelled finds) (arguments : List String) (disk : Disk)
    (stdin : List (List UInt8)) (stamp : Stamp) :
    (∀ e, Settings.ofArguments arguments = .error e →
      main P arguments disk stdin stamp = .silent (.usage e) disk) ∧
    (Settings.ofArguments arguments = .help →
      main P arguments disk stdin stamp = .silent .help disk) ∧
    ∀ s, Settings.ofArguments arguments = .settings s →
      disk.isFile (.ofString s.program) = .ok true → s.CanSave disk →
      let o := main P arguments disk stdin stamp
      let input := Input.ofPieces stdin
      (disk.readText (.ofString s.program) = .error .notUtf8 ∧
        o = .silent (.crash (.disk .notUtf8)) disk) ∨
      ∃ text, disk.readText (.ofString s.program) = .ok text ∧
        (¬ s.Complete P → ∃ e, s.Lacks P e ∧ o = .silent (.crash e) disk) ∧
        (s.Complete P → ∃ j p, Launches P s input stamp text j p ∧
          ((∃ e p', CutShort P s input.intact j p e p' ∧ o.ending = .crash e ∧ o.disk = disk) ∨
            ∃ receipt p', Reports P input.intact j p receipt p' ∧
              (o.ending = .exit 0 ∨ o.ending = .exit 1) ∧
              Receipt.problems P.validator receipt.toJson = .ok [] ∧
              (receipt.status = "ok" ↔ o.ending = .exit 0) ∧
              ∀ out ∈ s.receiptOut, out ≠ "" →
                o.disk.readText (.ofString out) = .ok (document receipt))) := by
  refine ⟨?_, ?_, ?_⟩
  · intro e he
    unfold main mainOn
    rw [he]
  · intro hh
    unfold main mainOn
    rw [hh]
  · intro s hs hfile hsave o input
    obtain ⟨text, htext⟩ | hbytes := Disk.readText_of_isFile hfile
    · obtain ⟨hincomplete, hcomplete⟩ :=
        mainOn_cases hV hdepth hfinds hs ⟨hfile, htext⟩ hsave input stamp
      refine .inr ⟨text, htext, hincomplete, fun h => ?_⟩
      obtain ⟨j, p, hl, hcases⟩ := hcomplete h
      refine ⟨j, p, hl, ?_⟩
      obtain ⟨e, p', hcut, hmain⟩ | ⟨receipt, p', disk', hreports, hmain, hread⟩ := hcases
      · exact .inl ⟨e, p', hcut, congrArg Outcome.ending hmain, congrArg Outcome.disk hmain⟩
      · have hending : o.ending = .exit (code receipt) := congrArg Outcome.ending hmain
        have hdisk : o.disk = disk' := congrArg Outcome.disk hmain
        refine .inr ⟨receipt, p', hreports, ?_, hreports.problems hV hdepth hfinds, ?_, ?_⟩
        · rw [hending]
          exact (code_le receipt).imp (congrArg Ending.exit) (congrArg Ending.exit)
        · rw [hending, Ending.exit.injEq, code_eq_zero_iff]
        · rw [hdisk]
          exact hread
    · refine .inl ⟨hbytes, ?_⟩
      show mainOn P arguments disk input stamp = _
      unfold mainOn runWith
      simp only [hs, hfile, hbytes]

def oneCommand : Disk := (Disk.bare []).put ["p.cow"] (.file "MoO".toUTF8.data)

def oneCommandSettings : Settings :=
  { Settings.standard with
    program := "p.cow", memorySize := some 1, maxSteps := some 9, receiptOut := some "r.json" }

theorem oneCommandSettings_reads : oneCommandSettings.Reads oneCommand "MoO" where
  file := rfl
  text := rfl

theorem oneCommandSettings_complete : oneCommandSettings.Complete .sample where
  numbers := List.not_mem_nil
  memorySize := ⟨1, rfl, rfl⟩
  maxSteps := .inr nofun

theorem oneCommandSettings_canSave : oneCommandSettings.CanSave oneCommand := by
  rintro out hout -
  cases hout
  exact ⟨["r.json"], rfl, .inl rfl⟩

/-- A run of one command ends with an exit code, and its receipt is in the file. -/
theorem failures_become_exit_codes_one_command :
    let arguments := ["--memory-size=1", "--max-steps", "9", "--receipt-out=r.json", "p.cow"]
    let o := main .sample arguments oneCommand [] ⟨"", ""⟩
    Platform.sample.validator.Follows Pattern.Found Platform.sample.showDepth ∧
      1 ≤ Platform.sample.showDepth ∧ FindsSpelled Pattern.Found ∧
      Settings.ofArguments arguments = .settings oneCommandSettings ∧
      oneCommand.isFile (.ofString "p.cow") = .ok true ∧
      oneCommandSettings.CanSave oneCommand ∧ oneCommandSettings.Complete .sample ∧
      ∃ receipt, (o.ending = .exit 0 ∨ o.ending = .exit 1) ∧
        Receipt.problems Platform.sample.validator receipt.toJson = .ok [] ∧
        (receipt.status = "ok" ↔ o.ending = .exit 0) ∧
        o.disk.readText (.ofString "r.json") = .ok (document receipt) := by
  intro arguments o
  have hs : Settings.ofArguments arguments = .settings oneCommandSettings := rfl
  have hfile : oneCommand.isFile (.ofString "p.cow") = .ok true := rfl
  have hdepth : 1 ≤ Platform.sample.showDepth := by decide
  refine ⟨Platform.sample_follows, hdepth, findsSpelled_found, hs, hfile, oneCommandSettings_canSave,
    oneCommandSettings_complete, ?_⟩
  obtain ⟨hbytes, -⟩ | ⟨text, -, -, hcomplete⟩ :=
    (failures_become_exit_codes .sample Platform.sample_follows hdepth findsSpelled_found arguments
      oneCommand [] ⟨"", ""⟩).2.2 oneCommandSettings hs hfile oneCommandSettings_canSave
  · have htext : oneCommand.readText (.ofString "p.cow") = .ok "MoO" := rfl
    cases htext.symm.trans hbytes
  · obtain ⟨j, p, hl, ⟨e, p', hcut, -⟩ | ⟨receipt, p', -, hending, hproblems, hstatus, hread⟩⟩ :=
      hcomplete oneCommandSettings_complete
    · cases hcut with
      | unfinished hfree _ => cases hfree
      | inputNotText _ hintact _ => cases hintact
    · exact ⟨receipt, hending, hproblems, hstatus, hread "r.json" rfl (by decide)⟩

/-- A program file whose only byte is no text ends the runner with neither an exit code nor a usage
error. -/
theorem undecodable_program_crashes :
    let disk := (Disk.bare []).put ["p.cow"] (.file #[0xff])
    disk.isFile (.ofString "p.cow") = .ok true ∧
      ∀ P stdin stamp, main P ["p.cow"] disk stdin stamp = .silent (.crash (.disk .notUtf8)) disk :=
  ⟨rfl, fun _ _ _ => rfl⟩

end Runner

end Moo.Cli
