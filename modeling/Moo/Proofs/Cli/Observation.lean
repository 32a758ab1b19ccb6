import Moo.Proofs.Cli.Runner
import Moo.Proofs.Run.Untraced

/-!
# Observing changes nothing

Steps can be recorded, receipts checked, logs printed and receipts written to a file
(`Observation`). Command lines that ask for the same but for that (`Settings.unobserved`) come to
the same exit code and output, read the same input, and are reported by receipts that are alike
(`observation_changes_nothing`).
-/

namespace Moo.Cli

open Run

/-! ## Command lines -/

/-- What may be asked for besides the run itself. -/
inductive Observation where
  | trace
  | validate
  | printLogs
  | receiptOut (path : String)
  deriving DecidableEq, Repr

namespace Observation

def argument : Observation → String
  | .trace => "--trace"
  | .validate => "--validate"
  | .printLogs => "--print-logs"
  | .receiptOut path => "--receipt-out=" ++ path

def word : Observation → Word
  | .trace => .switch (.flag "--trace") none
  | .validate => .switch (.flag "--validate") none
  | .printLogs => .switch (.flag "--print-logs") none
  | .receiptOut path => .switch (.valued "--receipt-out") (some path)

/-- The path that is carried behind an equals sign. A double dash stands for none. -/
def carried (path : String) : Option String := if path = "--" then none else some path

def given : Observation → Given
  | .trace => .flag (.flag "--trace")
  | .validate => .flag (.flag "--validate")
  | .printLogs => .flag (.flag "--print-logs")
  | .receiptOut path => .value (.valued "--receipt-out") (carried path)

/-- The settings with it asked for in front of all else, so that a file named there counts for less
than one named later. -/
def add (s : Settings) : Observation → Settings
  | .trace => { s with trace := true }
  | .validate => { s with validate := true }
  | .printLogs => { s with printLogs := true }
  | .receiptOut path => { s with receiptOut := s.receiptOut.or (some ((carried path).getD "")) }

theorem splitEquals_receiptOut (path : String) :
    splitEquals ("--receipt-out=" ++ path) = ("--receipt-out", some path) := by
  have htext : ("--receipt-out=" ++ path).toList =
      "--receipt-out".toList ++ '=' :: path.toList := by
    rw [String.toList_append]
    rfl
  have hplain : ∀ c ∈ "--receipt-out".toList, (c != '=') = true := by simp
  unfold splitEquals
  simp only [htext, List.dropWhile_append_of_pos hplain, List.takeWhile_append_of_pos hplain]
  simp

theorem switch?_receiptOut (path : String) :
    Settings.grammar.switch? ("--receipt-out=" ++ path) = none := by
  have hplain : ∀ p ∈ Settings.grammar.spellings, '=' ∉ p.1.toList := by decide
  unfold Grammar.switch?
  rw [Option.map_eq_none_iff, List.find?_eq_none]
  intro p hp heq
  refine hplain p hp ?_
  rw [eq_of_beq heq, String.toList_append]
  exact List.mem_append_left _ (by decide)

theorem classify_argument (x : Observation) :
    Settings.grammar.classify x.argument = .ok x.word := by
  cases x with
  | receiptOut path =>
    have htext : ("--receipt-out=" ++ path).toList = '-' :: ("-receipt-out=" ++ path).toList := by
      rw [String.toList_append, String.toList_append]
      rfl
    have hlong : ('-' :: ("-receipt-out=" ++ path).toList).length ≠ 1 := by
      rw [String.toList_append]
      simp
    have hknown : Settings.grammar.switch? "--receipt-out" = some (.valued "--receipt-out") := rfl
    have hcarries :
        Settings.grammar.carrying "--receipt-out" (.valued "--receipt-out") (some path) =
          .switch (.valued "--receipt-out") (some path) := if_pos (by simp)
    unfold argument Grammar.classify
    simp only [switch?_receiptOut, splitEquals_receiptOut, hknown, htext, hcarries, if_neg hlong]
    rfl
  | _ => rfl

theorem argument_ne_separator (x : Observation) : x.argument ≠ "--" := by
  cases x with
  | receiptOut path =>
    intro h
    have hlength := congrArg (fun s => s.toList.length) h
    simp [argument, String.toList_append] at hlength
  | _ => decide

variable {s t : Settings} {complaint : Option UsageError}

theorem words_argument (x : Observation) {arguments : List String} {ws : List Word}
    (h : Settings.grammar.words arguments = .ok ws) :
    Settings.grammar.words (x.argument :: arguments) = .ok (x.word :: ws) := by
  rw [Grammar.words.eq_3 _ _ _ x.argument_ne_separator, classify_argument, h]
  rfl

theorem gather_word (x : Observation) (fuel : Nat) (filled : Bool) (stray : List String)
    (ws : List Word) :
    Settings.grammar.gather (fuel + 1) filled stray (x.word :: ws) =
      Grammar.gather.cons x.given (Settings.grammar.gather fuel filled stray ws) := by
  cases x <;> rfl

theorem setFlag_add (x : Observation) (s : Settings) (label : String) :
    (x.add s).setFlag label = x.add (s.setFlag label) := by
  unfold Settings.setFlag
  split <;> cases x <;> rfl

theorem setValue_add (x : Observation) (s : Settings) (label : String) (value : Option String) :
    (x.add s).setValue label value = (s.setValue label value).map fun t => x.add t := by
  unfold Settings.setValue
  split
  · cases x <;> rfl
  · cases value.mapM (Settings.integer "--in") <;> cases x <;> rfl
  · cases value.mapM (Settings.positive "--memory-size") <;> cases x <;> rfl
  · cases value.mapM (Settings.positive "--max-steps") <;> cases x <;> rfl
  · cases x <;> rfl
  · rfl

theorem take_add (x : Observation) {given : List Given}
    (h : s.take complaint given = .settings t) :
    (x.add s).take complaint given = .settings (x.add t) := by
  induction given generalizing s with
  | nil =>
    cases complaint with
    | none =>
      cases h
      rfl
    | some e => cases h
  | cons g rest ih =>
    cases g with
    | help => cases h
    | slot arguments =>
      have hslot : (x.add s).take complaint (.slot arguments :: rest) =
          (x.add { s with program := arguments.headD "" }).take complaint rest := by
        cases x <;> rfl
      rw [hslot]
      exact ih h
    | flag switch =>
      rw [Settings.take, setFlag_add]
      exact ih h
    | value switch value =>
      rw [Settings.take] at h ⊢
      rw [setValue_add]
      cases hs : s.setValue switch.label value with
      | ok s' =>
        rw [hs] at h
        exact ih h
      | error e =>
        rw [hs] at h
        cases h

theorem take_given (x : Observation) (rest : List Given) :
    Settings.standard.take complaint (x.given :: rest) =
      (x.add .standard).take complaint rest := by
  cases x <;> rfl

/-- In front of arguments that are read, an observation adds to what they say. -/
theorem ofArguments_argument (x : Observation) {arguments : List String}
    (h : Settings.ofArguments arguments = .settings s) :
    Settings.ofArguments (x.argument :: arguments) = .settings (x.add s) := by
  unfold Settings.ofArguments Grammar.parse at h ⊢
  cases hw : Settings.grammar.words arguments with
  | error e =>
    rw [hw] at h
    cases h
  | ok ws =>
    rw [hw] at h
    rw [words_argument x hw]
    dsimp only
    rw [List.length_cons, gather_word, Grammar.gather.cons, take_given]
    exact take_add x h

end Observation

namespace Settings

/-- The settings without anything asked for besides the run. -/
def unobserved (s : Settings) : Settings :=
  { s with trace := false, validate := false, printLogs := false, receiptOut := none }

theorem unobserved_add (x : Observation) (s : Settings) : (x.add s).unobserved = s.unobserved := by
  cases x <;> rfl

/-- Observations in front of a command line change nothing else that it says. -/
theorem exists_ofArguments_observed (asked : List Observation) {arguments : List String}
    {s : Settings} (h : ofArguments arguments = .settings s) :
    ∃ t, ofArguments (asked.map Observation.argument ++ arguments) = .settings t ∧
      t.unobserved = s.unobserved := by
  induction asked with
  | nil => exact ⟨s, h, rfl⟩
  | cons x asked ih =>
    obtain ⟨t, ht, hsame⟩ := ih
    exact ⟨x.add t, x.ofArguments_argument ht, (unobserved_add x t).trans hsame⟩

variable {s t : Settings}

theorem eq_of_unobserved (h : t.unobserved = s.unobserved) :
    t = { s with
      trace := t.trace, validate := t.validate, printLogs := t.printLogs,
      receiptOut := t.receiptOut } := by
  unfold unobserved at h
  cases t
  cases h
  rfl

theorem options?_of_unobserved (h : t.unobserved = s.unobserved) :
    t.options? = s.options?.map fun o => { o with trace := t.trace } := by
  rw [eq_of_unobserved h]
  unfold options?
  cases s.memorySize <;> cases s.noStepLimit <;> cases s.maxSteps <;> rfl

end Settings

namespace Runner

variable {P : Platform} {s t : Settings} {disk : Disk} {input : Input} {text : String}
  {stamp stamp' : Stamp} {j : Job} {p p' : Provider} {receipt receipt' : Receipt} {intact : Bool}
  {e : Crash}

/-- Settings that differ in observations launch jobs that differ in what they record. -/
theorem Launches.told (h : Launches P s input stamp text j p) (hsame : t.unobserved = s.unobserved)
    (stamp' : Stamp) : Launches P t input stamp' text (j.told t.trace stamp') p := by
  have ht := Settings.eq_of_unobserved hsame
  constructor
  case job =>
    rw [ht]
    exact congrArg (Job.told t.trace stamp') h.job
  case options =>
    rw [Settings.options?_of_unobserved hsame, h.options]
    rfl
  case room =>
    rw [ht]
    exact h.room
  case provider =>
    rw [ht]
    exact h.provider

theorem reads_of_unobserved (hsame : t.unobserved = s.unobserved) (h : s.Reads disk text) :
    t.Reads disk text := by
  rw [Settings.eq_of_unobserved hsame]
  exact ⟨h.file, h.text⟩

/-- Settings that differ in observations fail to launch in the same way. -/
theorem mainOn_of_unobserved {arguments arguments' : List String}
    (hs : Settings.ofArguments arguments = .settings s)
    (ht : Settings.ofArguments arguments' = .settings t) (hsame : t.unobserved = s.unobserved)
    (htext : s.Reads disk text) (h : ¬ s.Complete P) (input : Input) (stamp stamp' : Stamp) :
    mainOn P arguments' disk input stamp' = mainOn P arguments disk input stamp := by
  have hprogram : t.program = s.program := by
    rw [Settings.eq_of_unobserved hsame]
  have hnumbers : t.numbers? = s.numbers? := by
    rw [Settings.eq_of_unobserved hsame]
    rfl
  have hexcess : t.excess? P.hasRoom = s.excess? P.hasRoom := by
    rw [Settings.eq_of_unobserved hsame]
    rfl
  rw [mainOn_of_reads hs htext, mainOn_of_reads ht (reads_of_unobserved hsame htext), hprogram]
  unfold runText
  rw [hnumbers, hexcess, Settings.options?_of_unobserved hsame]
  cases hn : s.numbers? with
  | none => rfl
  | some numbers =>
    cases he : s.excess? P.hasRoom with
    | some size => rfl
    | none =>
      cases ho : s.options? with
      | none => rfl
      | some o => exact absurd (Settings.complete_of_options hn he ho) h

theorem Reports.told (h : Reports P intact j p receipt p') (trace : Bool) (stamp' : Stamp) :
    ∃ receipt', Reports P intact (j.told trace stamp') p receipt' p' ∧ receipt.Alike receipt' := by
  have halike := j.run_told (d := Provider.device) p.isBuffer p P.patience trace stamp'
  cases h with
  | finished hrun =>
    rw [hrun] at halike
    obtain ⟨r', hrun', hdevice, hreceipt⟩ := halike.exists_finished
    rw [← hdevice]
    exact ⟨_, .finished hrun', hreceipt⟩
  | failed hrun hreported =>
    rw [hrun] at halike
    exact ⟨_, .failed halike.eq_failed hreported, ⟨rfl, rfl, rfl, rfl⟩⟩

theorem CutShort.told (h : CutShort P s intact j p e p') (hsame : t.unobserved = s.unobserved)
    (stamp' : Stamp) : CutShort P t intact (j.told t.trace stamp') p e p' := by
  have ht := Settings.eq_of_unobserved hsame
  have halike := j.run_told (d := Provider.device) p.isBuffer p P.patience t.trace stamp'
  cases h with
  | unfinished hfree hrun =>
    rw [hrun] at halike
    exact .unfinished (by rw [ht]; exact hfree) halike.eq_unfinished
  | inputNotText hscripted hintact hrun =>
    rw [hrun] at halike
    exact .inputNotText (by rw [ht]; exact hscripted) hintact halike.eq_failed

/-! ## What is shown -/

theorem code_of_alike (h : receipt.Alike receipt') : code receipt' = code receipt := by
  unfold code
  rw [h.status]

theorem shownOutput_of_alike (h : receipt.Alike receipt') (hsame : t.unobserved = s.unobserved) :
    shownOutput t receipt' = shownOutput s receipt := by
  unfold shownOutput stdout
  rw [h.verdict, Settings.eq_of_unobserved hsame]
  rfl

theorem printed_eq_empty (h : s.printReceipt = false) (receipt : Receipt) :
    printed s receipt = "" := by
  unfold printed
  rw [h]
  rfl

theorem Launches.scripted (h : Launches P s input stamp text j p) (hs : s.isScripted = true) :
    p.isBuffer = true ∧ p.base.IsBuffer := by
  obtain ⟨numbers, -, rfl⟩ := h.provider
  unfold Runner.provider
  rw [if_pos hs]
  exact ⟨rfl, _, rfl⟩

theorem Launches.shown_eq (h : Launches P s input stamp text j p) (hs : s.isScripted = true) :
    shown (j.run P.patience Provider.device p.isBuffer p).device = ("", "") := by
  have hkeeps : Provider.device.Preserves fun q => q.base.IsBuffer :=
    Endpoint.preserves_isBuffer.layered
  obtain ⟨b, hb⟩ :=
    Job.runWithin_keeps hkeeps j (j.budget P.patience) p.isBuffer (h.scripted hs).2
  unfold shown Job.run
  rw [hb]

theorem status_eq_ok_iff :
    receipt.status = "ok" ↔
      ∃ summary, receipt.verdict = .finished summary ∧ summary.refusals = [] := by
  unfold Receipt.status
  cases receipt.verdict with
  | finished summary =>
    unfold Summary.status
    cases hr : summary.refusals <;> simp [hr]
  | failed reason => simp

theorem Reports.device (h : Reports P intact j p receipt p') :
    (j.run P.patience Provider.device p.isBuffer p).device = p' := by
  cases h with
  | finished hrun => rw [hrun]; rfl
  | failed hrun hreported => rw [hrun]; rfl

theorem CutShort.device (h : CutShort P s intact j p e p') :
    (j.run P.patience Provider.device p.isBuffer p).device = p' := by
  cases h with
  | unfinished _ hrun => rw [hrun]; rfl
  | inputNotText _ _ hrun => rw [hrun]; rfl

/-- What is seen of a run from outside. -/
structure Shows (P : Platform) (s : Settings) (j : Job) (p : Provider) (o : Outcome) : Prop where
  /-- The exit code is 0 just if the run ended and no cell was refused. -/
  code : o.ending = .exit 0 ↔
    ∃ r summary, j.run P.patience Provider.device p.isBuffer p = .finished r ∧
      r.receipt.verdict = .finished summary ∧ summary.refusals = []
  /-- With input from the command line, a run that ended shows what its output amounts to, -/
  output : s.isScripted = true → ∀ r summary,
    j.run P.patience Provider.device p.isBuffer p = .finished r →
    r.receipt.verdict = .finished summary → Output.render summary.output = .ok o.stdout
  /-- and a run that failed shows nothing. -/
  quiet : s.isScripted = true → ∀ failure p',
    j.run P.patience Provider.device p.isBuffer p = .failed failure p' → o.stdout = ""

theorem render_output {r : Result Provider} {summary : Summary} (hp : p.isBuffer = true)
    (hrun : j.run P.patience Provider.device p.isBuffer p = .finished r)
    (hv : r.receipt.verdict = .finished summary) :
    Output.render summary.output = .ok (stdout r.receipt) := by
  obtain ⟨m, z, shown, -, -, hshown, rfl⟩ := Job.runWithin_finished hrun
  cases hv
  rw [hp]
  exact hshown

theorem Reports.shows {o : Outcome} (h : Reports P intact j p receipt p')
    (hl : Launches P s input stamp text j p) (hprint : s.printReceipt = false)
    (hending : o.ending = .exit (Runner.code receipt))
    (hstdout : o.stdout = (shown p').1 ++ (shownOutput s receipt ++ printed s receipt)) :
    Shows P s j p o := by
  have hscripted (hs : s.isScripted = true) : o.stdout = stdout receipt := by
    have hshown := hl.shown_eq hs
    rw [h.device] at hshown
    rw [hstdout, hshown, printed_eq_empty hprint]
    unfold shownOutput
    simp [hs, hprint]
  constructor
  case code =>
    rw [hending, Ending.exit.injEq, code_eq_zero_iff, status_eq_ok_iff]
    cases h with
    | finished hrun =>
      constructor
      · rintro ⟨summary, hv, hr⟩
        exact ⟨_, summary, hrun, hv, hr⟩
      · rintro ⟨r, summary, hrun', hv, hr⟩
        cases hrun.symm.trans hrun'
        exact ⟨summary, hv, hr⟩
    | failed hrun hreported =>
      constructor
      · rintro ⟨summary, hv, -⟩
        cases hv
      · rintro ⟨r, summary, hrun', -⟩
        cases hrun.symm.trans hrun'
  case output =>
    intro hs r summary hrun hv
    cases h with
    | finished hrun' =>
      cases hrun'.symm.trans hrun
      rw [hscripted hs]
      exact render_output (hl.scripted hs).1 hrun hv
    | failed hrun' hreported => cases hrun'.symm.trans hrun
  case quiet =>
    intro hs failure p₁ hrun
    cases h with
    | finished hrun' => cases hrun'.symm.trans hrun
    | failed hrun' hreported => exact hscripted hs

end Runner

/-! ## Two command lines -/

/-- Observations can be put in front of any command line and change nothing else that it says. When
two command lines differ in observations only, and neither prints receipts, then on a program that
can be read and with files for the receipts that can be written, both end in the same way, show the
same and read the same. Where the settings are complete and the run is not cut short, the exit code
and the output tell how the run went, and the receipts, in the files if they are named, differ at
most in the steps and in what is said of the run. Checking receipts changes nothing because the
validator, which follows the standard, finds nothing in them. -/
theorem observation_changes_nothing {finds : Pattern → JsonText → Prop} (P : Platform)
    (hV : P.validator.Follows finds P.showDepth) (hdepth : 1 ≤ P.showDepth)
    (hfinds : FindsSpelled finds) (disk : Disk) (stdin : List (List UInt8)) :
    (∀ (asked : List Observation) (arguments : List String) (s : Settings),
      Settings.ofArguments arguments = .settings s →
      ∃ t, Settings.ofArguments (asked.map Observation.argument ++ arguments) = .settings t ∧
        t.unobserved = s.unobserved) ∧
    ∀ (arguments arguments' : List String) (s t : Settings) (text : String) (stamp stamp' : Stamp),
      Settings.ofArguments arguments = .settings s →
      Settings.ofArguments arguments' = .settings t → t.unobserved = s.unobserved →
      s.printReceipt = false → s.Reads disk text → s.CanSave disk → t.CanSave disk →
      let o := Runner.main P arguments disk stdin stamp
      let o' := Runner.main P arguments' disk stdin stamp'
      let input := Input.ofPieces stdin
      o'.ending = o.ending ∧ o'.stdout = o.stdout ∧
      (¬ s.Complete P → ∃ e, s.Lacks P e ∧ o = .silent (.crash e) disk) ∧
      (s.Complete P → ∃ j j' p, Runner.Launches P s input stamp text j p ∧
        Runner.Launches P t input stamp' text j' p ∧
        (j'.run P.patience Provider.device p.isBuffer p).device =
          (j.run P.patience Provider.device p.isBuffer p).device ∧
        ((∃ e p', Runner.CutShort P s input.intact j p e p' ∧ o.ending = .crash e) ∨
          ∃ receipt receipt' p', Runner.Reports P input.intact j p receipt p' ∧
            Runner.Reports P input.intact j' p receipt' p' ∧
            Runner.Shows P s j p o ∧ receipt.Alike receipt' ∧
            (∀ name, name ≠ "steps" → name ≠ "run" →
              receipt'.toJson.field? name = receipt.toJson.field? name) ∧
            (∀ out ∈ s.receiptOut, out ≠ "" →
              o.disk.readText (.ofString out) = .ok (Runner.document receipt)) ∧
            ∀ out ∈ t.receiptOut, out ≠ "" →
              o'.disk.readText (.ofString out) = .ok (Runner.document receipt'))) := by
  refine ⟨fun asked _ _ hs => Settings.exists_ofArguments_observed asked hs, ?_⟩
  intro arguments arguments' s t text stamp stamp' hs ht hsame hprint htext hsave hsave' o o' input
  have htext' := Runner.reads_of_unobserved hsame htext
  have hprint' : t.printReceipt = false := by
    rw [Settings.eq_of_unobserved hsame]
    exact hprint
  obtain ⟨hincomplete, hcomplete⟩ := Runner.mainOn_cases hV hdepth hfinds hs htext hsave input stamp
  by_cases hc : s.Complete P
  · obtain ⟨j, p, hl, hcases⟩ := hcomplete hc
    have hl' := hl.told hsame stamp'
    obtain ⟨e, p', hcut, hmain⟩ | ⟨receipt, p', disk₁, hreports, hmain, hread⟩ := hcases
    · have hcut' := hcut.told hsame stamp'
      have hmain' := Runner.mainOn_of_cutShort ht htext' hl' hcut'
      refine ⟨?_, ?_, absurd hc, fun _ => ⟨j, _, p, hl, hl', ?_, .inl ⟨e, p', hcut, ?_⟩⟩⟩
      · exact (congrArg Outcome.ending hmain').trans (congrArg Outcome.ending hmain).symm
      · exact (congrArg Outcome.stdout hmain').trans (congrArg Outcome.stdout hmain).symm
      · rw [hcut.device, hcut'.device]
      · exact congrArg Outcome.ending hmain
    · obtain ⟨receipt', hreports', halike⟩ := hreports.told t.trace stamp'
      have hvalid' := hreports'.problems hV hdepth hfinds
      obtain ⟨disk₂, hmain', hread'⟩ :=
        Runner.mainOn_of_reports ht htext' hl' hreports' hvalid' hsave'
      have hending : o.ending = .exit (Runner.code receipt) := congrArg Outcome.ending hmain
      have hstdout := congrArg Outcome.stdout hmain
      have hstdout' := congrArg Outcome.stdout hmain'
      have hshows := hreports.shows hl hprint hending hstdout
      refine ⟨?_, ?_, absurd hc, fun _ => ⟨j, _, p, hl, hl', ?_, .inr ⟨receipt, receipt', p',
        hreports, hreports', hshows, halike, fun _ => halike.field?, ?_, ?_⟩⟩⟩
      · rw [hending, ← Runner.code_of_alike halike]
        exact congrArg Outcome.ending hmain'
      · refine hstdout'.trans (Eq.trans ?_ hstdout.symm)
        rw [Runner.shownOutput_of_alike halike hsame, Runner.printed_eq_empty hprint,
          Runner.printed_eq_empty hprint']
      · rw [hreports.device, hreports'.device]
      · rw [show o.disk = disk₁ from congrArg Outcome.disk hmain]
        exact hread
      · rw [show o'.disk = disk₂ from congrArg Outcome.disk hmain']
        exact hread'
  · have hmain : o' = o := Runner.mainOn_of_unobserved hs ht hsame htext hc input stamp stamp'
    rw [hmain]
    exact ⟨rfl, rfl, hincomplete, fun h => absurd h hc⟩

/-- A run of one command, with a receipt in a file, and then recorded and checked besides. -/
theorem observation_changes_nothing_one_command :
    let arguments := ["--memory-size=1", "--max-steps", "9", "--receipt-out=r.json", "p.cow"]
    let P : Platform := .sample
    let s := Runner.oneCommandSettings
    let t : Settings := { s with trace := true, validate := true }
    let o := Runner.main P arguments Runner.oneCommand [] ⟨"", ""⟩
    let o' :=
      Runner.main P ("--trace" :: "--validate" :: arguments) Runner.oneCommand [] ⟨"now", ""⟩
    P.validator.Follows Pattern.Found P.showDepth ∧ 1 ≤ P.showDepth ∧
      FindsSpelled Pattern.Found ∧ Settings.ofArguments arguments = .settings s ∧
      Settings.ofArguments ("--trace" :: "--validate" :: arguments) = .settings t ∧
      t.unobserved = s.unobserved ∧ s.printReceipt = false ∧ s.Reads Runner.oneCommand "MoO" ∧
      s.CanSave Runner.oneCommand ∧ t.CanSave Runner.oneCommand ∧ s.Complete P ∧
      o'.ending = o.ending ∧ o'.stdout = o.stdout ∧
      ∃ receipt receipt' : Receipt, receipt.Alike receipt' ∧
        o.disk.readText (.ofString "r.json") = .ok (Runner.document receipt) ∧
        o'.disk.readText (.ofString "r.json") = .ok (Runner.document receipt') := by
  intro arguments P s t o o'
  have hV : P.validator.Follows Pattern.Found P.showDepth := Platform.sample_follows
  have hdepth : 1 ≤ P.showDepth := by decide
  have hs : Settings.ofArguments arguments = .settings s := rfl
  have ht : Settings.ofArguments ("--trace" :: "--validate" :: arguments) = .settings t := rfl
  have hsave : t.CanSave Runner.oneCommand := Runner.oneCommandSettings_canSave
  obtain ⟨hending, hstdout, -, hcomplete⟩ :=
    (observation_changes_nothing P hV hdepth findsSpelled_found Runner.oneCommand []).2 arguments _
      s t "MoO" ⟨"", ""⟩ ⟨"now", ""⟩ hs ht rfl rfl Runner.oneCommandSettings_reads
      Runner.oneCommandSettings_canSave hsave
  refine ⟨hV, hdepth, findsSpelled_found, hs, ht, rfl, rfl, Runner.oneCommandSettings_reads,
    Runner.oneCommandSettings_canSave, hsave, Runner.oneCommandSettings_complete, hending, hstdout,
    ?_⟩
  obtain ⟨j, j', p, -, -, -, ⟨e, p', hcut, -⟩ |
      ⟨receipt, receipt', p', -, -, -, halike, -, hread, hread'⟩⟩ :=
    hcomplete Runner.oneCommandSettings_complete
  · cases hcut with
    | unfinished hfree _ => cases hfree
    | inputNotText _ hintact _ => cases hintact
  · exact ⟨receipt, receipt', halike, hread "r.json" rfl (by decide),
      hread' "r.json" rfl (by decide)⟩

end Moo.Cli
