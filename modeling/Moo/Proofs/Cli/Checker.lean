import Moo.Proofs.Cli.Judgement
import Moo.Proofs.Run.Described
import Moo.Proofs.Schema.Listed
import Moo.Proofs.Schema.Reference

/-!
# What the checker says

As long as there are judgements on the documents (`Judgeable`), the checker says one thing of each
file, whatever the other files are, and fails just if one of them is faulty. The first document on
which there is none ends it (`checker_judges_every_file`).
-/

namespace Moo.Cli.Checker

open Run

/-! ## The command line -/

/-- The command line names these receipts, and says whether warnings count as errors. -/
def Says (arguments : List String) (s : Settings) : Prop :=
  take ⟨[], false⟩ (grammar.parse arguments).2 (grammar.parse arguments).1 = .ok s

theorem plainRun_map_plain (paths : List String) :
    Grammar.plainRun (paths.map .plain) = (paths, []) := by
  induction paths with
  | nil => rfl
  | cons p rest ih => rw [List.map_cons, Grammar.plainRun, ih]

theorem gather_separated (p : String) (rest : List String) (fuel : Nat) :
    grammar.gather (fuel + 2) false [] (.separator :: .plain p :: rest.map .plain) =
      ([.slot (p :: rest)], none) := by
  have hfill : Grammar.fill grammar.many (.separator :: .plain p :: rest.map .plain) =
      some (p :: rest, []) := by
    show some (Grammar.fill.fillAfter true p (rest.map .plain)) = _
    unfold Grammar.fill.fillAfter
    rw [if_pos rfl, plainRun_map_plain]
  rw [Grammar.gather]
  · simp only [Bool.false_eq_true, if_false, hfill]
    rfl
  · exact nofun

/-- Every list of paths can be given, behind a double dash. -/
theorem says_separated {paths : List String} (h : paths ≠ []) (strict : Bool) :
    Says ((if strict then ["--warnings-as-errors"] else []) ++ "--" :: paths) ⟨paths, strict⟩ := by
  obtain ⟨p, rest, rfl⟩ := List.exists_cons_of_ne_nil h
  unfold Says
  cases strict with
  | false =>
    have hparse : grammar.parse ("--" :: p :: rest) = ([.slot (p :: rest)], none) :=
      gather_separated p rest _
    show take _ (grammar.parse ("--" :: p :: rest)).2 (grammar.parse ("--" :: p :: rest)).1 = _
    rw [hparse]
    rfl
  | true =>
    have hparse : grammar.parse ("--warnings-as-errors" :: "--" :: p :: rest) =
        ([.flag (.flag "--warnings-as-errors"), .slot (p :: rest)], none) :=
      congrArg (Grammar.gather.cons (.flag (.flag "--warnings-as-errors")))
        (gather_separated p rest _)
    show take _ (grammar.parse ("--warnings-as-errors" :: "--" :: p :: rest)).2
      (grammar.parse ("--warnings-as-errors" :: "--" :: p :: rest)).1 = _
    rw [hparse]
    rfl

theorem Says.main_eq {arguments : List String} {s : Settings} (h : Says arguments s) (P : Platform)
    (explain : Unreadable → String) (disk : Disk) :
    main P explain arguments disk = checkAll P explain s.strict disk false s.receipts := by
  unfold Says at h
  unfold main
  simp only [h]

/-! ## One file -/

variable {P : Platform} {explain : Unreadable → String} {disk : Disk} {raw : String} {v : Json}

inductive Reported (P : Platform) (explain : Unreadable → String) (disk : Disk) (raw : String) :
    List String → Prop where
  | unreadable {reason : Unreadable} : read P disk (.ofString raw) = .error reason →
      Reported P explain disk raw
        [(Path.ofString raw).toString ++ ": failed to read receipt JSON: " ++ explain reason]
  | invalid {v : Json} {problems warned : List String} :
      read P disk (.ofString raw) = .ok v →
      Receipt.problems P.validator v = .ok (problems.map JsonText.ofString) → problems ≠ [] →
      Shows P (warningsOf v) warned →
      Reported P explain disk raw
        (((Path.ofString raw).toString ++ ": INVALID") :: problems.map (" - " ++ ·) ++
          warned.map (" - warning: " ++ ·))
  | good {v : Json} {status : String} {warned : List String} :
      read P disk (.ofString raw) = .ok v → Receipt.problems P.validator v = .ok [] →
      Shows P [statusOf v] [status] → Shows P (warningsOf v) warned →
      Reported P explain disk raw
        (((Path.ofString raw).toString ++ ": ok (status=" ++ status ++ ")") ::
          warned.map (" - warning: " ++ ·))

/-- Something is wrong with a file: it cannot be read or parsed, the schema is violated, or warnings
count and its log holds one. -/
def Faulty (P : Platform) (strict : Bool) (disk : Disk) (raw : String) : Prop :=
  (∃ reason, read P disk (.ofString raw) = .error reason) ∨
    ∃ v, read P disk (.ofString raw) = .ok v ∧
      ((∃ problems, Receipt.problems P.validator v = .ok problems ∧ problems ≠ []) ∨
        strict = true ∧ ∃ entries, v.field? "logs" = some (.arr entries) ∧
          ∃ e ∈ entries, e.field? "level" = some (.text "warning"))

/-- The judgement on a file, of which these lines are printed, and which fails the checker just if
the file is faulty. -/
structure Judged (P : Platform) (explain : Unreadable → String) (strict : Bool) (disk : Disk)
    (raw : String) (j : Judgement) (lines : List String) : Prop where
  judge : judge P disk (.ofString raw) = .ok j
  print : j.print P explain (Path.ofString raw).toString = .ofString (printed lines)
  reported : Reported P explain disk raw lines
  fails : j.fails strict = true ↔ Faulty P strict disk raw

theorem faulty_iff {strict : Bool} {found : List JsonText} (hr : read P disk (.ofString raw) = .ok v)
    (hfound : Receipt.problems P.validator v = .ok found) :
    Faulty P strict disk raw ↔ found ≠ [] ∨ strict = true ∧ warningsOf v ≠ [] := by
  unfold Faulty
  simp [hr, hfound, warningsOf_ne_nil_iff]

theorem exists_judged (h : ∀ v, read P disk (.ofString raw) = .ok v → Judgeable P v)
    (explain : Unreadable → String) (strict : Bool) :
    ∃ j lines, Judged P explain strict disk raw j lines := by
  cases hr : read P disk (.ofString raw) with
  | error reason =>
    refine ⟨.unreadable reason, _, ?_, ?_, .unreadable hr, iff_of_true rfl (.inl ⟨reason, hr⟩)⟩
    · unfold Checker.judge
      rw [hr]
    · rw [printed_singleton]
      rfl
  | ok v =>
    obtain ⟨⟨members, rfl⟩, hlogs, ⟨texts, hfound⟩, hstatus, ⟨warned, hwarned⟩⟩ := h v hr
    have hj : Checker.judge P disk (.ofString raw) = judgeDocument P (.obj members) := by
      unfold Checker.judge
      rw [hr]
    rw [judgeDocument_obj hfound hlogs] at hj
    cases texts with
    | nil =>
      obtain ⟨status, hshown⟩ := hstatus hfound
      refine ⟨_, _, hj, print_good hshown hwarned, .good hr hfound hshown hwarned, ?_⟩
      rw [faulty_iff hr hfound]
      simp [Judgement.fails]
    | cons text texts =>
      refine ⟨_, _, hj, print_invalid (text :: texts) hwarned,
        .invalid hr hfound (List.cons_ne_nil _ _) hwarned, ?_⟩
      rw [faulty_iff hr hfound]
      exact iff_of_true rfl (.inl (List.cons_ne_nil _ _))

/-- What ends the checker on a document, and what it has printed of the document by then. -/
inductive Ends (P : Platform) (v : Json) : Crash → String → Prop where
  | unlisted {e : Receipt.Unlisted} : Receipt.problems P.validator v = .error e →
      Ends P v (.unlisted e) ""
  | notAnObject : ¬ v.IsObject → Ends P v .notAnObject ""
  | notAList {w : Json} : v.field? "logs" = some w → NoList w → Ends P v .notAList ""
  | unprintable {e : Crash} (begun : String) : Unprintable e → Ends P v e begun

theorem exists_ends (hr : read P disk (.ofString raw) = .ok v) (h : ¬ Judgeable P v)
    (explain : Unreadable → String) (strict failed : Bool) (rest : List String) :
    ∃ e begun, Ends P v e begun ∧
      checkAll P explain strict disk failed (raw :: rest) = ⟨.crash e, begun, "", disk⟩ := by
  have hjudge : judge P disk (.ofString raw) = judgeDocument P v := by
    unfold judge
    rw [hr]
  have hquiet : ∀ e, judgeDocument P v = .error e →
      checkAll P explain strict disk failed (raw :: rest) = ⟨.crash e, "", "", disk⟩ := by
    intro e he
    rw [checkAll]
    simp only [hjudge, he]
    rfl
  cases hfound : Receipt.problems P.validator v with
  | error e => exact ⟨_, _, .unlisted hfound, hquiet _ (judgeDocument_of_unlisted hfound)⟩
  | ok found =>
    by_cases hobject : v.IsObject
    · by_cases hlogs : v.May "logs" fun w => ¬ NoList w
      · -- there is a judgement, so it must be its printing that ends the checker
        obtain ⟨j, hj⟩ : ∃ j, judgeDocument P v = .ok j := by
          obtain ⟨members, rfl⟩ := hobject
          exact ⟨_, judgeDocument_obj hfound hlogs⟩
        cases hcrash : (j.print P explain (Path.ofString raw).toString).crash? with
        | none => exact absurd (judgeable_of_print hobject hlogs hj hcrash) h
        | some e =>
          refine ⟨e, (j.print P explain (Path.ofString raw).toString).text,
            .unprintable _ (unprintable_of_print j e hcrash), ?_⟩
          rw [checkAll]
          simp only [hjudge, hj, hcrash]
          exact Outcome.silent_after _ _ _
      · obtain ⟨w, hw, hno⟩ : ∃ w, v.field? "logs" = some w ∧ NoList w :=
          Classical.byContradiction fun hnone => hlogs fun w hw hno => hnone ⟨w, hw, hno⟩
        exact ⟨_, _, .notAList hw hno, hquiet _ (judgeDocument_of_noList hobject hfound hw hno)⟩
    · exact ⟨_, _, .notAnObject hobject, hquiet _ (judgeDocument_of_not_isObject hfound hobject)⟩

/-! ## All files -/

def textFor (P : Platform) (explain : Unreadable → String) (disk : Disk) (raw : String) : String :=
  match judge P disk (.ofString raw) with
  | .ok j => (j.print P explain (Path.ofString raw).toString).text
  | .error _ => ""

def failsOn (P : Platform) (strict : Bool) (disk : Disk) (raw : String) : Bool :=
  match judge P disk (.ofString raw) with
  | .ok j => j.fails strict
  | .error _ => false

theorem Judged.textFor_eq {strict : Bool} {j : Judgement} {lines : List String}
    (h : Judged P explain strict disk raw j lines) : textFor P explain disk raw = printed lines := by
  unfold textFor
  simp only [h.judge, h.print]
  rfl

theorem Judged.failsOn_eq {strict : Bool} {j : Judgement} {lines : List String}
    (h : Judged P explain strict disk raw j lines) : failsOn P strict disk raw = j.fails strict := by
  unfold failsOn
  simp only [h.judge]

variable {strict : Bool} {paths : List String}

/-- Files on which there are judgements come before whatever is said of the rest. -/
theorem checkAll_append (h : ∀ raw ∈ paths, ∃ j lines, Judged P explain strict disk raw j lines)
    (failed : Bool) (rest : List String) :
    checkAll P explain strict disk failed (paths ++ rest) =
      (checkAll P explain strict disk (failed || paths.any (failsOn P strict disk)) rest).after
        (String.join (paths.map (textFor P explain disk))) := by
  induction paths generalizing failed with
  | nil =>
    rw [List.any_nil, Bool.or_false]
    exact (Outcome.after_empty _).symm
  | cons raw paths ih =>
    obtain ⟨⟨j, lines, hj⟩, hpaths⟩ := List.forall_mem_cons.mp h
    rw [List.cons_append, checkAll]
    simp only [hj.judge, hj.print]
    show (checkAll P explain strict disk _ (paths ++ rest)).after (printed lines) = _
    rw [ih hpaths, List.any_cons, List.map_cons, String.join_cons, hj.textFor_eq, hj.failsOn_eq,
      Bool.or_assoc, Outcome.after_after]

/-- If there is a judgement on every file, each has its say, and the files that fail the checker are
counted. -/
theorem checkAll_of_judged (h : ∀ raw ∈ paths, ∃ j lines, Judged P explain strict disk raw j lines) :
    checkAll P explain strict disk false paths =
      ⟨.exit (if paths.any (failsOn P strict disk) then 1 else 0),
        String.join (paths.map (textFor P explain disk)), "", disk⟩ := by
  have hall := checkAll_append h false []
  rw [List.append_nil, Bool.false_or, checkAll, Outcome.silent_after] at hall
  exact hall

theorem any_failsOn_iff (h : ∀ raw ∈ paths, ∃ j lines, Judged P explain strict disk raw j lines) :
    paths.any (failsOn P strict disk) = true ↔ ∃ raw ∈ paths, Faulty P strict disk raw := by
  rw [List.any_eq_true]
  refine exists_congr fun raw => and_congr_right fun hraw => ?_
  obtain ⟨j, lines, hj⟩ := h raw hraw
  rw [hj.failsOn_eq]
  exact hj.fails

theorem main_of_good {arguments : List String} {status : String}
    (hline : Says arguments ⟨[raw], strict⟩) (hr : read P disk (.ofString raw) = .ok v)
    (hobject : v.IsObject) (hlogs : v.May "logs" fun w => ¬ NoList w)
    (hp : Receipt.problems P.validator v = .ok [])
    (hstatus : v.field? "status" = some (.text status)) (hw : warningsOf v = [])
    (explain : Unreadable → String) :
    main P explain arguments disk =
      ⟨.exit 0, printed [(Path.ofString raw).toString ++ ": ok (status=" ++ status ++ ")"], "",
        disk⟩ := by
  obtain ⟨members, rfl⟩ := hobject
  have hj : judge P disk (.ofString raw) = .ok (.good (.text status) []) := by
    unfold judge
    simp only [hr, judgeDocument_obj hp hlogs, hw, statusOf, hstatus]
    rfl
  have hshown : Shows P [.text status] [status] := rfl
  have hnone : Shows P [] [] := rfl
  have hprint : (Judgement.good (.text status) []).print P explain (Path.ofString raw).toString =
      .ofString (printed [(Path.ofString raw).toString ++ ": ok (status=" ++ status ++ ")"]) :=
    print_good hshown hnone
  have hpasses : (Judgement.good (.text status) []).fails strict = false := Bool.and_false strict
  rw [Says.main_eq hline, checkAll]
  simp only [hj, hprint, hpasses]
  rw [checkAll, Outcome.silent_after]
  rfl

/-- The checker on any files at all, of which every list that is not empty can be given on some
command line. If there can be a judgement on each document among them, it says of each file in order
that it cannot be read, that it is invalid and why, or that it is good, and exits with 1 just if one
is faulty and with 0 otherwise. Any other document ends it after what it says of the files before
and what it has begun to say of that one. -/
theorem checker_judges_every_file (P : Platform) (explain : Unreadable → String) (disk : Disk)
    (paths : List String) (strict : Bool) :
    (paths ≠ [] → ∃ arguments, Says arguments ⟨paths, strict⟩) ∧
    ∀ arguments, Says arguments ⟨paths, strict⟩ →
      ((∀ raw ∈ paths, ∀ v, read P disk (.ofString raw) = .ok v → Judgeable P v) →
        (∀ raw ∈ paths, ∃ lines, Reported P explain disk raw lines ∧
          textFor P explain disk raw = printed lines) ∧
        ∃ code, main P explain arguments disk =
            ⟨.exit code, String.join (paths.map (textFor P explain disk)), "", disk⟩ ∧
          (code = 0 ∨ code = 1) ∧ (code = 1 ↔ ∃ raw ∈ paths, Faulty P strict disk raw)) ∧
      ∀ before raw after v, paths = before ++ raw :: after →
        (∀ b ∈ before, ∀ w, read P disk (.ofString b) = .ok w → Judgeable P w) →
        read P disk (.ofString raw) = .ok v → ¬ Judgeable P v →
        ∃ e begun, Ends P v e begun ∧ main P explain arguments disk =
          ⟨.crash e, String.join (before.map (textFor P explain disk)) ++ begun, "", disk⟩ := by
  refine ⟨fun h => ⟨_, says_separated h strict⟩, fun arguments hline => ⟨fun h => ?_, ?_⟩⟩
  · have hjudged : ∀ raw ∈ paths, ∃ j lines, Judged P explain strict disk raw j lines :=
      fun raw hraw => exists_judged (h raw hraw) explain strict
    refine ⟨fun raw hraw => ?_, ?_⟩
    · obtain ⟨j, lines, hj⟩ := hjudged raw hraw
      exact ⟨lines, hj.reported, hj.textFor_eq⟩
    · refine ⟨_, (Says.main_eq hline P explain disk).trans (checkAll_of_judged hjudged), ?_, ?_⟩
      · split <;> simp
      · rw [← any_failsOn_iff hjudged]
        split <;> simp [*]
  · rintro before raw after v rfl h hr hv
    have hjudged : ∀ b ∈ before, ∃ j lines, Judged P explain strict disk b j lines :=
      fun b hb => exists_judged (h b hb) explain strict
    rw [Says.main_eq hline, checkAll_append hjudged]
    obtain ⟨e, begun, hends, hmain⟩ := exists_ends hr hv explain strict
      (false || before.any (failsOn P strict disk)) after
    refine ⟨e, begun, hends, ?_⟩
    rw [hmain]
    rfl

def objectAndArray : Disk :=
  ((Disk.bare []).put ["a.json"] (.file "{}".toUTF8.data)).put ["b.json"] (.file "[]".toUTF8.data)

theorem problems_empty : Receipt.problems Platform.sample.validator (.obj []) =
    .ok ((["engine", "module", "run", "status", "logs"].map fun name =>
      "<root>: " ++ (Text.quote name ++ " is a required property")).map JsonText.ofString) := by
  let found : List Violation := ["engine", "module", "run", "status", "logs"].map fun name =>
    ⟨[], .ofString (Text.quote name ++ " is a required property")⟩
  have hfound : Platform.sample.validator.violations Receipt.schema (.obj []) = .ok found := rfl
  have hroot : ∀ x ∈ found, x.path = [] := List.forall_mem_map.mpr fun _ _ => rfl
  rw [Receipt.problems_of_sorted hfound (Violation.sorted?_of_root hroot)]
  decide +kernel

theorem judgeable_empty : Judgeable .sample (.obj []) where
  object := ⟨[], rfl⟩
  logs := nofun
  problems := ⟨_, problems_empty⟩
  status h := nomatch problems_empty.symm.trans h
  warnings := ⟨[], rfl⟩

/-- On its own the object is invalid; behind it the array ends the checker. -/
theorem checker_judges_object_before_array :
    let textFor := textFor Platform.sample (fun _ => "") objectAndArray
    (∃ arguments, Says arguments ⟨["a.json"], false⟩ ∧
      (∀ v, read Platform.sample objectAndArray (.ofString "a.json") = .ok v →
        Judgeable Platform.sample v) ∧
      ∃ code, main Platform.sample (fun _ => "") arguments objectAndArray =
        ⟨.exit code, String.join (["a.json"].map textFor), "", objectAndArray⟩ ∧
      (code = 1 ↔ ∃ raw ∈ ["a.json"], Faulty Platform.sample false objectAndArray raw)) ∧
    Says ["a.json", "b.json"] ⟨["a.json", "b.json"], false⟩ ∧
      read Platform.sample objectAndArray (.ofString "b.json") = .ok (.arr []) ∧
      ¬ Judgeable Platform.sample (.arr []) ∧
      ∃ e begun, main Platform.sample (fun _ => "") ["a.json", "b.json"] objectAndArray =
        ⟨.crash e, String.join (["a.json"].map textFor) ++ begun, "", objectAndArray⟩ := by
  intro textFor
  have hfirst : ∀ raw ∈ ["a.json"], ∀ v,
      read Platform.sample objectAndArray (.ofString raw) = .ok v → Judgeable Platform.sample v := by
    intro raw hraw v hv
    rw [List.mem_singleton.mp hraw,
      show read Platform.sample objectAndArray (.ofString "a.json") = .ok (.obj []) from rfl] at hv
    cases hv
    exact judgeable_empty
  have hsecond : ¬ Judgeable Platform.sample (.arr []) := fun h => nomatch h.object
  refine ⟨?_, rfl, rfl, hsecond, ?_⟩
  · obtain ⟨hline, hjudges⟩ :=
      checker_judges_every_file Platform.sample (fun _ => "") objectAndArray ["a.json"] false
    obtain ⟨arguments, h⟩ := hline (List.cons_ne_nil _ _)
    obtain ⟨-, code, hmain, -, hcode⟩ := (hjudges arguments h).1 hfirst
    exact ⟨arguments, h, hfirst _ (List.mem_singleton.mpr rfl), code, hmain, hcode⟩
  · obtain ⟨e, begun, -, hmain⟩ :=
      ((checker_judges_every_file Platform.sample (fun _ => "") objectAndArray ["a.json", "b.json"]
        false).2 ["a.json", "b.json"] rfl).2 ["a.json"] "b.json" [] (.arr []) rfl hfirst rfl hsecond
    exact ⟨e, begun, hmain⟩

/-- A file that holds an array gets no judgement and no exit code. -/
theorem array_ends_the_checker :
    Says ["b.json"] ⟨["b.json"], false⟩ ∧
      ∀ explain, main Platform.sample explain ["b.json"] objectAndArray =
        .silent (.crash .notAnObject) objectAndArray := by
  have hproblems : ∃ problems,
      Receipt.problems Platform.sample.validator (.arr []) = .ok problems := by
    let found : List Violation := [⟨[], .ofString "[] is not of type 'object'"⟩]
    have hfound : Platform.sample.validator.violations Receipt.schema (.arr []) = .ok found := rfl
    have hroot : ∀ x ∈ found, x.path = [] := List.forall_mem_singleton.mpr rfl
    exact ⟨_, Receipt.problems_of_sorted hfound (Violation.sorted?_of_root hroot)⟩
  obtain ⟨problems, hproblems⟩ := hproblems
  refine ⟨rfl, fun explain => ?_⟩
  show checkAll .sample explain false objectAndArray false ["b.json"] = _
  have hjudge : judge .sample objectAndArray (.ofString "b.json") = .error .notAnObject := by
    exact judgeDocument_of_not_isObject hproblems fun h => nomatch h
  rw [checkAll]
  simp only [hjudge]

end Moo.Cli.Checker
