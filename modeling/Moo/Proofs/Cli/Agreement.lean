import Moo.Proofs.Cli.Checker
import Moo.Proofs.Cli.Runner
import Moo.Proofs.Json.Sorted

/-!
# Writer and checker agree

The file that the runner writes is read back as the receipt, and the checker says of it that it is
good (`writer_and_checker_agree`).
-/

namespace Moo.Cli

open Run

variable {P : Platform} {finds : Pattern → JsonText → Prop}

namespace Runner

variable {j : Job} {p p' : Provider} {receipt : Receipt} {intact : Bool}

theorem field?_status (receipt : Receipt) :
    receipt.toJson.field? "status" = some (.text receipt.status) := by
  unfold Receipt.toJson Receipt.status
  cases receipt.verdict with
  | finished s => rfl
  | failed reason => rfl

theorem field?_logs (receipt : Receipt) :
    receipt.toJson.field? "logs" = some (.arr (receipt.logs.map LogEntry.toJson)) := rfl

theorem problems_sorted {v : Json} {depth : Nat} (hV : P.validator.Follows finds depth)
    (hv : v.Distinct) (hshown : v.obstacle? depth = none) :
    Receipt.problems P.validator v.sorted = .ok [] ↔ Receipt.problems P.validator v = .ok [] := by
  rw [Receipt.problems_eq_nil_iff_violations, Receipt.problems_eq_nil_iff_violations]
  exact Demand.passes_sorted hV.violations _ hv hshown

theorem Reports.distinct (h : Reports P intact j p receipt p') : receipt.toJson.Distinct := by
  obtain ⟨bound, hbound⟩ := j.exists_bound (j.budget P.patience)
  exact (h.plain (Q := fun _ => True) hbound fun _ _ => trivial).distinct

/-- The numbers in a report can be read, if those can that it is launched with. -/
theorem Reports.legible {s : Settings} {input : Input} {text : String} {stamp : Stamp}
    (h : Reports P intact j p receipt p') (hl : Launches P s input stamp text j p) (hs : s.Sized)
    (hlength : Number.Legible text.length) (hpatience : Number.Legible P.patience) :
    Json.Plain Number.Legible 6 receipt.toJson := by
  obtain ⟨bound, hbound, hlegible⟩ := hl.bounded hs hlength hpatience
  exact h.plain hbound hlegible

end Runner

namespace Checker

variable {receipt : Receipt}

theorem warningsOf_sorted (hd : receipt.toJson.Distinct)
    (h : ∀ e ∈ receipt.logs, e.level ≠ "warning") : warningsOf receipt.toJson.sorted = [] := by
  have hlogs := Runner.field?_logs receipt
  have hentries := (hd.field hlogs).item
  unfold warningsOf
  rw [Json.field?_sorted hd, hlogs, Option.map_some, Json.sorted, Json.sortedItems_eq]
  refine List.map_eq_nil_iff.mpr (List.filter_eq_nil_iff.mpr
    (List.forall_mem_map.mpr fun v hv => ?_))
  obtain ⟨e, he, rfl⟩ := List.mem_map.mp hv
  have hlevel : e.toJson.field? "level" = some (.text e.level) := rfl
  rw [isWarning_iff, Json.field?_sorted (hentries _ hv), hlevel, Option.map_some, Option.some.injEq,
    Json.sorted_eq_text]
  intro hwarning
  exact h e he (JsonText.ofString_inj.mp (Json.str.inj hwarning))

theorem listed_sorted (hd : receipt.toJson.Distinct) :
    receipt.toJson.sorted.May "logs" fun w => ¬ NoList w := by
  intro w hw
  rw [Json.field?_sorted hd, Runner.field?_logs, Option.map_some] at hw
  cases hw
  exact id

end Checker

/-- Whatever the program, its input and the flags, as soon as a run is reported and its receipt
written to a file: the file is read back as the receipt, with the members of every object in order
of their names; the document printed on request is the same; and the checker, on every command line
that names the file, says that it is good and answers 0. The validator follows the standard, values
that nest as deep as a receipt can be read and shown, and the length of the text and the steps that
one waits for are numbers that can be read, which they are for every text and every wait that there
is room and time for. -/
theorem writer_and_checker_agree {arguments : List String} {disk : Disk} {s : Settings}
    {text out : String} (hV : P.validator.Follows finds P.showDepth)
    (hfinds : FindsSpelled finds) (hdepth : 6 ≤ P.readDepth) (hshow : 6 ≤ P.showDepth)
    (hpatience : Number.Legible P.patience) (hs : Settings.ofArguments arguments = .settings s)
    (htext : s.Reads disk text) (hlength : Number.Legible text.length)
    (hout : s.receiptOut = some out) (hne : out ≠ "") (hw : disk.Writable (.ofString out))
    (stdin : List (List UInt8)) (stamp : Stamp) :
    let o := Runner.main P arguments disk stdin stamp
    let input := Input.ofPieces stdin
    (¬ s.Complete P → ∃ e, s.Lacks P e ∧ o = .silent (.crash e) disk) ∧
    (s.Complete P → ∃ j p, Runner.Launches P s input stamp text j p ∧
      ((∃ e p', Runner.CutShort P s input.intact j p e p' ∧ o.ending = .crash e ∧ o.disk = disk) ∨
        ∃ receipt p', Runner.Reports P input.intact j p receipt p' ∧
          o.ending = .exit (Runner.code receipt) ∧
          (∃ document, o.disk.readText (.ofString out) = .ok document ∧
            Json.parse? P.readDepth document = some receipt.toJson.sorted ∧
            (s.printReceipt = true → o.stdout = (Runner.shown p').1 ++ document)) ∧
          (∀ strict, ∃ checking, Checker.Says checking ⟨[out], strict⟩) ∧
          ∀ explain checking strict, Checker.Says checking ⟨[out], strict⟩ →
            Checker.main P explain checking o.disk =
              ⟨.exit 0, Checker.printed
                [(Path.ofString out).toString ++ ": ok (status=" ++ receipt.status ++ ")"], "",
                o.disk⟩)) := by
  intro o input
  have hsave : s.CanSave disk := by
    rintro out' hout' -
    cases hout.symm.trans hout'
    exact hw
  obtain ⟨hincomplete, hcomplete⟩ :=
    Runner.mainOn_cases hV (by omega) hfinds hs htext hsave input stamp
  refine ⟨hincomplete, fun h => ?_⟩
  obtain ⟨j, p, hl, ⟨e, p', hcut, hmain⟩ | ⟨receipt, p', disk', hreports, hmain, hread⟩⟩ :=
    hcomplete h
  · exact ⟨j, p, hl, .inl ⟨e, p', hcut, congrArg Outcome.ending hmain,
      congrArg Outcome.disk hmain⟩⟩
  · have hdisk : o.disk = disk' := congrArg Outcome.disk hmain
    have hsized := Settings.sized_of_arguments hs
    have hplain := hreports.legible hl hsized hlength hpatience
    have hdocument :
        Json.parse? P.readDepth (Runner.document receipt) = some receipt.toJson.sorted :=
      Json.parse?_pretty (hplain.mono hdepth)
    have hdistinct := hreports.distinct
    refine ⟨j, p, hl, .inr ⟨receipt, p', hreports, congrArg Outcome.ending hmain, ?_,
      fun strict => ⟨_, Checker.says_separated (List.cons_ne_nil _ _) strict⟩, ?_⟩⟩
    · rw [hdisk]
      refine ⟨_, hread out hout hne, hdocument, fun hprint => ?_⟩
      refine (congrArg Outcome.stdout hmain).trans ?_
      unfold Runner.shownOutput Runner.printed
      simp [hprint]
    · intro explain checking strict hline
      rw [hdisk]
      have hshown := (hplain.mono hshow).obstacle?_eq_none
      have hproblems := (Runner.problems_sorted hV hdistinct hshown).mpr
        (hreports.problems hV (by omega) hfinds)
      have hobject : receipt.toJson.sorted.IsObject := Json.isObject_sorted.mpr ⟨_, rfl⟩
      have hstatus : receipt.toJson.sorted.field? "status" = some (.text receipt.status) := by
        rw [Json.field?_sorted hdistinct, Runner.field?_status]
        rfl
      have hlogs := Checker.listed_sorted hdistinct
      refine Checker.main_of_good hline ?_ hobject hlogs hproblems hstatus
        (Checker.warningsOf_sorted hdistinct hreports.logs) explain
      unfold Checker.read
      rw [hread out hout hne]
      simp only [hdocument]

/-- The receipt of a run of one command is read back, and the checker says that it is good. -/
theorem writer_and_checker_agree_one_command :
    let arguments := ["--memory-size=1", "--max-steps", "9", "--receipt-out=r.json", "p.cow"]
    let P : Platform := .sample
    let o := Runner.main P arguments Runner.oneCommand [] ⟨"", ""⟩
    P.validator.Follows Pattern.Found P.showDepth ∧ FindsSpelled Pattern.Found ∧
      6 ≤ P.readDepth ∧ 6 ≤ P.showDepth ∧ Number.Legible P.patience ∧
      Settings.ofArguments arguments = .settings Runner.oneCommandSettings ∧
      Runner.oneCommandSettings.Reads Runner.oneCommand "MoO" ∧ Number.Legible "MoO".length ∧
      Runner.oneCommand.Writable (.ofString "r.json") ∧ Runner.oneCommandSettings.Complete P ∧
      Checker.Says ["r.json"] ⟨["r.json"], false⟩ ∧
      ∃ (receipt : Receipt) (document : String),
        o.disk.readText (.ofString "r.json") = .ok document ∧
        Json.parse? P.readDepth document = some receipt.toJson.sorted ∧
        Checker.main P (fun _ => "") ["r.json"] o.disk =
          ⟨.exit 0, Checker.printed ["r.json: ok (status=" ++ receipt.status ++ ")"], "",
            o.disk⟩ := by
  intro arguments P o
  have hV : P.validator.Follows Pattern.Found P.showDepth := Platform.sample_follows
  have hdepth : 6 ≤ P.readDepth := by decide
  have hshow : 6 ≤ P.showDepth := by decide
  have hpatience : Number.Legible P.patience :=
    Number.legible_of_lt (n := 9) (k := 1) (by decide) (by decide)
  have hs : Settings.ofArguments arguments = .settings Runner.oneCommandSettings := rfl
  have hlength : Number.Legible "MoO".length :=
    Number.legible_of_lt (n := 3) (k := 1) (by decide) (by decide)
  have hw : Runner.oneCommand.Writable (.ofString "r.json") := ⟨["r.json"], rfl, .inl rfl⟩
  have hline : Checker.Says ["r.json"] ⟨["r.json"], false⟩ := rfl
  refine ⟨hV, findsSpelled_found, hdepth, hshow, hpatience, hs, Runner.oneCommandSettings_reads,
    hlength, hw, Runner.oneCommandSettings_complete, hline, ?_⟩
  obtain ⟨-, hcomplete⟩ :=
    writer_and_checker_agree hV findsSpelled_found hdepth hshow hpatience hs
      Runner.oneCommandSettings_reads hlength rfl (by decide) hw [] ⟨"", ""⟩
  obtain ⟨j, p, -, ⟨e, p', hcut, -⟩ |
      ⟨receipt, p', -, -, ⟨document, hread, hparse, -⟩, -, hchecks⟩⟩ :=
    hcomplete Runner.oneCommandSettings_complete
  · cases hcut with
    | unfinished hfree _ => cases hfree
    | inputNotText _ hintact _ => cases hintact
  · refine ⟨receipt, document, hread, hparse, ?_⟩
    have hgood := hchecks (fun _ => "") ["r.json"] false hline
    have hpath : (Path.ofString "r.json").toString ++ ": ok (status=" = "r.json: ok (status=" := rfl
    rw [hpath] at hgood
    exact hgood

end Moo.Cli
