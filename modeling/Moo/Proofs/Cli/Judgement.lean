import Mathlib.Data.Set.List
import Moo.Cli.Checker
import Moo.Proofs.Json.Value

/-!
# Judgements on documents

There is a judgement on a document if it is an object whose log is neither true nor a number other
than zero, if what is wrong with it can be listed, and if that, its status and its warnings can be
printed (`Judgeable`). Printing ends only at something that cannot be shown or encoded, so a
judgement that is printed to the end is on such a document (`judgeable_of_print`).
-/

namespace Moo.Cli.Checker

open Run

/-! ## Warnings -/

/-- The value is true or a number other than zero: a log that is neither empty nor a list. -/
def NoList : Json → Prop
  | .bool b => b = true
  | .int n => n ≠ 0
  | .float x => x.isNonzero = true
  | _ => False

theorem isWarning_iff {entry : Json} :
    isWarning entry = true ↔ entry.field? "level" = some (.text "warning") := by
  unfold isWarning
  cases entry.field? "level" with
  | none => exact iff_of_false Bool.false_ne_true nofun
  | some level => cases level <;> simp [Json.text]

def warningsOf (v : Json) : List Json :=
  match v.field? "logs" with
  | some (.arr entries) => (entries.filter isWarning).map message
  | _ => []

theorem warningsOf_ne_nil_iff {v : Json} :
    warningsOf v ≠ [] ↔ ∃ entries, v.field? "logs" = some (.arr entries) ∧
      ∃ e ∈ entries, e.field? "level" = some (.text "warning") := by
  unfold warningsOf
  split
  · next entries h =>
    rw [h, ne_eq, List.map_eq_nil_iff, List.filter_eq_nil_iff]
    simp [isWarning_iff]
  · next h => exact iff_of_false (fun hne => hne rfl) fun ⟨entries, he, _⟩ => h entries he

theorem warnings_of_listed {members : List (JsonText × Json)}
    (h : (Json.obj members).May "logs" fun w => ¬ NoList w) :
    warnings (Json.member? "logs" members) = .ok (warningsOf (.obj members)) := by
  have hfield : (Json.obj members).field? "logs" = Json.member? "logs" members := rfl
  unfold warningsOf
  unfold Json.May at h
  rw [hfield] at h ⊢
  cases hl : Json.member? "logs" members with
  | none => rfl
  | some w =>
    have hw := h w hl
    cases w with
    | arr entries => cases entries <;> rfl
    | bool b =>
      cases b with
      | false => rfl
      | true => exact absurd rfl hw
    | int n =>
      obtain rfl : n = 0 := Decidable.not_not.mp hw
      rfl
    | float x =>
      have hx : x.isNonzero = false := Bool.eq_false_iff.mpr hw
      show (if !x.isNonzero then _ else _) = _
      rw [hx]
      rfl
    | null => rfl
    | str s =>
      show (if !(Json.str s).isTruthy then _ else _) = _
      split <;> rfl
    | obj ms =>
      show (if !(Json.obj ms).isTruthy then _ else _) = _
      split <;> rfl

theorem warnings_of_noList {w : Json} (h : NoList w) : warnings (some w) = .error .notAList := by
  cases w with
  | bool b =>
    cases b with
    | false => exact absurd h Bool.false_ne_true
    | true => rfl
  | int n =>
    have hn : (n != 0) = true := bne_iff_ne.mpr h
    show (if !(n != 0) then _ else _) = _
    rw [hn]
    rfl
  | float x =>
    have hx : x.isNonzero = true := h
    show (if !x.isNonzero then _ else _) = _
    rw [hx]
    rfl
  | _ => exact h.elim

/-! ## Printing -/

def printed (lines : List String) : String := String.join (lines.map (· ++ "\n"))

theorem printed_singleton (line : String) : printed [line] = line ++ "\n" := by
  unfold printed
  rw [List.map_singleton, String.join_cons, String.join_nil, String.append_empty]

/-- What cannot be shown or printed ends the checker in the middle of a file. -/
def Unprintable (e : Crash) : Prop := e = .notEncodable ∨ ∃ e', e = .unshowable e'

namespace Printed

variable {a b : Printed} {ps : List Printed} {t : JsonText}

theorem crash?_andThen : (a.andThen b).crash? = a.crash?.or b.crash? := by
  unfold andThen
  cases h : a.crash? with
  | none => rfl
  | some e => exact h

theorem crash?_all : (all ps).crash? = ps.findSome? crash? := by
  induction ps with
  | nil => rfl
  | cons p ps ih =>
    rw [all, crash?_andThen, ih, List.findSome?_cons]
    cases p.crash? <;> rfl

theorem all_lines (lines : List String) :
    all (lines.map fun line => ofString (line ++ "\n")) = ofString (printed lines) := by
  induction lines with
  | nil => rfl
  | cons line lines ih =>
    rw [List.map_cons, all, ih]
    exact congrArg ofString String.join_cons.symm

theorem ofText_ofString (s : String) : ofText (.ofString s) = ofString s := by
  unfold ofText
  rw [JsonText.string?_ofString]

theorem crash?_ofText_eq_none : (ofText t).crash? = none ↔ ∃ s : String, t = .ofString s := by
  unfold ofText
  cases h : t.string? with
  | none =>
    refine iff_of_false nofun ?_
    rintro ⟨s, rfl⟩
    cases (JsonText.string?_ofString s).symm.trans h
  | some s => exact iff_of_true rfl ⟨s, JsonText.string?_eq_some.mp h⟩

theorem unprintable_of_all (h : ∀ p ∈ ps, ∀ e ∈ p.crash?, Unprintable e) :
    ∀ e ∈ (all ps).crash?, Unprintable e := by
  intro e he
  obtain ⟨p, hp, hcrash⟩ := List.exists_of_findSome?_eq_some (crash?_all ▸ he)
  exact h p hp e hcrash

theorem unprintable_of_ofText {e : Crash} (h : (ofText t).crash? = some e) : Unprintable e := by
  unfold ofText at h
  split at h <;> cases h
  exact .inl rfl

theorem unprintable_of_ofShown {x : Except ShowError JsonText} {e : Crash}
    (h : (ofShown x).crash? = some e) : Unprintable e := by
  cases x with
  | ok t => exact unprintable_of_ofText h
  | error e' =>
    cases h
    exact .inr ⟨e', rfl⟩

end Printed

/-! ## Judgements -/

variable {P : Platform} {explain : Unreadable → String} {v w : Json}

/-- The values are shown as these texts. -/
def Shows (P : Platform) (values : List Json) (texts : List String) : Prop :=
  values.map (Json.display P.showDepth) = texts.map fun text => .ok (.ofString text)

def statusOf (v : Json) : Json := (v.field? "status").getD .null

/-- There is a judgement on the document that can be printed. -/
structure Judgeable (P : Platform) (v : Json) : Prop where
  object : v.IsObject
  logs : v.May "logs" fun w => ¬ NoList w
  problems : ∃ texts : List String,
    Receipt.problems P.validator v = .ok (texts.map JsonText.ofString)
  status : Receipt.problems P.validator v = .ok [] → ∃ text, Shows P [statusOf v] [text]
  warnings : ∃ texts, Shows P (warningsOf v) texts

theorem judgeDocument_obj {members : List (JsonText × Json)} {found : List JsonText}
    (hfound : Receipt.problems P.validator (.obj members) = .ok found)
    (hlogs : (Json.obj members).May "logs" fun w => ¬ NoList w) :
    judgeDocument P (.obj members) = .ok
      (if found.isEmpty then .good (statusOf (.obj members)) (warningsOf (.obj members))
      else .invalid found (warningsOf (.obj members))) := by
  unfold judgeDocument
  simp only [hfound, warnings_of_listed hlogs]
  show (if _ then _ else _) = _
  split <;> rfl

theorem judgeDocument_of_unlisted {e : Receipt.Unlisted}
    (h : Receipt.problems P.validator v = .error e) :
    judgeDocument P v = .error (.unlisted e) := by
  unfold judgeDocument
  simp only [h]
  rfl

variable {found : List JsonText}

theorem judgeDocument_of_not_isObject (hfound : Receipt.problems P.validator v = .ok found)
    (h : ¬ v.IsObject) : judgeDocument P v = .error .notAnObject := by
  unfold judgeDocument
  simp only [hfound]
  cases v with
  | obj members => exact absurd ⟨members, rfl⟩ h
  | _ => rfl

theorem judgeDocument_of_noList (hobject : v.IsObject)
    (hfound : Receipt.problems P.validator v = .ok found) (hw : v.field? "logs" = some w)
    (h : NoList w) : judgeDocument P v = .error .notAList := by
  obtain ⟨members, rfl⟩ := hobject
  have hmember : Json.member? "logs" members = some w := hw
  unfold judgeDocument
  simp only [hfound, hmember, warnings_of_noList h]
  rfl

/-! ## Lines -/

theorem problemLine_ofString (s : String) :
    problemLine (.ofString s) = .ofString (" - " ++ s ++ "\n") := by
  unfold problemLine
  rw [Printed.ofText_ofString]
  exact congrArg Printed.ofString String.append_assoc.symm

theorem problemLines (texts : List String) :
    (texts.map JsonText.ofString).map problemLine =
      (texts.map (" - " ++ ·)).map fun line => Printed.ofString (line ++ "\n") := by
  rw [List.map_map, List.map_map]
  exact List.map_congr_left fun text _ => problemLine_ofString text

def warningLineOf (x : Except ShowError JsonText) : Printed :=
  (Printed.ofString " - warning: ").andThen ((Printed.ofShown x).andThen (.ofString "\n"))

theorem warningLineOf_ofString (s : String) :
    warningLineOf (.ok (.ofString s)) = .ofString (" - warning: " ++ s ++ "\n") := by
  show (Printed.ofString _).andThen ((Printed.ofText (.ofString s)).andThen (.ofString "\n")) = _
  rw [Printed.ofText_ofString]
  exact congrArg Printed.ofString String.append_assoc.symm

theorem warningLines {values : List Json} {texts : List String} (h : Shows P values texts) :
    values.map (warningLine P) =
      (texts.map (" - warning: " ++ ·)).map fun line => Printed.ofString (line ++ "\n") := by
  have hline : warningLine P = warningLineOf ∘ Json.display P.showDepth := rfl
  rw [hline, ← List.map_map, h, List.map_map, List.map_map]
  exact List.map_congr_left fun text _ => warningLineOf_ofString text

theorem goodLine_of_shows {path text : String} (h : Shows P [v] [text]) :
    goodLine P path v = .ofString (path ++ ": ok (status=" ++ text ++ ")" ++ "\n") := by
  unfold goodLine
  rw [List.cons.inj h |>.1]
  show Printed.ofText (.ofString path ++ .ofString ": ok (status=" ++ .ofString text ++
    .ofString ")\n") = _
  simp only [JsonText.ofString_append, Printed.ofText_ofString, String.append_assoc]
  rfl

/-! ## What is printed -/

theorem print_good {path status : String} {values : List Json} {warned : List String}
    (h : Shows P [v] [status]) (hw : Shows P values warned) :
    (Judgement.good v values).print P explain path =
      .ofString (printed ((path ++ ": ok (status=" ++ status ++ ")") ::
        warned.map (" - warning: " ++ ·))) := by
  show Printed.all (goodLine P path v :: values.map (warningLine P)) = _
  rw [goodLine_of_shows h, warningLines hw, ← Printed.all_lines]
  rfl

theorem print_invalid {path : String} {values : List Json} (texts : List String)
    {warned : List String} (hw : Shows P values warned) :
    (Judgement.invalid (texts.map JsonText.ofString) values).print P explain path =
      .ofString (printed ((path ++ ": INVALID") :: texts.map (" - " ++ ·) ++
        warned.map (" - warning: " ++ ·))) := by
  have hfirst : path ++ ": INVALID\n" = path ++ ": INVALID" ++ "\n" := by
    rw [String.append_assoc]
    rfl
  show Printed.all (Printed.ofString _ :: (texts.map JsonText.ofString).map problemLine ++
    values.map (warningLine P)) = _
  rw [problemLines, warningLines hw, hfirst, ← Printed.all_lines, List.map_append]
  rfl

/-! ## What can be printed -/

theorem crash?_problemLine (t : JsonText) :
    (problemLine t).crash? = (Printed.ofText t).crash? := by
  unfold problemLine
  rw [Printed.crash?_andThen, Printed.crash?_andThen]
  cases (Printed.ofText t).crash? <;> rfl

theorem crash?_warningLine (w : Json) :
    (warningLine P w).crash? = (Printed.ofShown (w.display P.showDepth)).crash? := by
  unfold warningLine
  rw [Printed.crash?_andThen, Printed.crash?_andThen]
  cases (Printed.ofShown (w.display P.showDepth)).crash? <;> rfl

/-- What ends the printing of a judgement is something in it that cannot be printed. -/
theorem unprintable_of_print {path : String} (j : Judgement) :
    ∀ e ∈ (j.print P explain path).crash?, Unprintable e := by
  have hproblem : ∀ t, ∀ e ∈ (problemLine t).crash?, Unprintable e := fun t e he =>
    Printed.unprintable_of_ofText (crash?_problemLine t ▸ he)
  have hwarning : ∀ w, ∀ e ∈ (warningLine P w).crash?, Unprintable e := fun w e he =>
    Printed.unprintable_of_ofShown (crash?_warningLine w ▸ he)
  cases j with
  | unreadable reason => exact nofun
  | invalid problems warnings =>
    refine Printed.unprintable_of_all (List.forall_mem_append.mpr ⟨?_, ?_⟩)
    · exact List.forall_mem_cons.mpr ⟨nofun, List.forall_mem_map.mpr fun t _ => hproblem t⟩
    · exact List.forall_mem_map.mpr fun w _ => hwarning w
  | good status warnings =>
    refine Printed.unprintable_of_all (List.forall_mem_cons.mpr ⟨fun e he => ?_, ?_⟩)
    · exact Printed.unprintable_of_ofShown he
    · exact List.forall_mem_map.mpr fun w _ => hwarning w

theorem exists_shows_of_warningLine (h : (warningLine P w).crash? = none) :
    ∃ text : String, w.display P.showDepth = .ok (.ofString text) := by
  rw [crash?_warningLine] at h
  cases hw : w.display P.showDepth with
  | error e =>
    rw [hw] at h
    cases h
  | ok t =>
    rw [hw] at h
    obtain ⟨text, rfl⟩ := Printed.crash?_ofText_eq_none.mp h
    exact ⟨text, rfl⟩

theorem exists_shows_of_goodLine {path : String} (h : (goodLine P path v).crash? = none) :
    ∃ text : String, v.display P.showDepth = .ok (.ofString text) := by
  unfold goodLine at h
  cases hv : v.display P.showDepth with
  | error e =>
    rw [hv] at h
    cases h
  | ok t =>
    rw [hv] at h
    obtain ⟨line, hline⟩ := Printed.crash?_ofText_eq_none.mp h
    obtain ⟨⟨front, hfront⟩, -⟩ := JsonText.ofString_of_append hline
    obtain ⟨-, text, rfl⟩ := JsonText.ofString_of_append hfront
    exact ⟨text, rfl⟩

theorem exists_map_eq_map {α β γ : Type} {f : α → γ} {g : β → γ} {l : List α}
    (h : ∀ a ∈ l, ∃ b, f a = g b) : ∃ bs : List β, l.map f = bs.map g := by
  have hrange : l.map f ∈ Set.range (List.map g) := by
    rw [Set.range_list_map]
    exact List.forall_mem_map.mpr fun a ha => (h a ha).imp fun b hb => hb.symm
  obtain ⟨bs, hbs⟩ := hrange
  exact ⟨bs, hbs.symm⟩

theorem exists_shows_of_warningLines {values : List Json}
    (h : ∀ p ∈ values.map (warningLine P), p.crash? = none) : ∃ texts, Shows P values texts :=
  exists_map_eq_map fun w hw => exists_shows_of_warningLine (List.forall_mem_map.mp h w hw)

theorem exists_texts_of_problemLines (h : ∀ p ∈ found.map problemLine, p.crash? = none) :
    ∃ texts : List String, found = texts.map JsonText.ofString := by
  obtain ⟨texts, htexts⟩ := exists_map_eq_map fun t ht => by
    have hline := List.forall_mem_map.mp h t ht
    rw [crash?_problemLine] at hline
    exact Printed.crash?_ofText_eq_none.mp hline
  rw [List.map_id'] at htexts
  exact ⟨texts, htexts⟩

/-- A judgement that is printed to the end is on a document on which there can be one. -/
theorem judgeable_of_print {j : Judgement} {path : String} (hobject : v.IsObject)
    (hlogs : v.May "logs" fun w => ¬ NoList w) (hj : judgeDocument P v = .ok j)
    (h : (j.print P explain path).crash? = none) : Judgeable P v := by
  cases hfound : Receipt.problems P.validator v with
  | error e => cases hj.symm.trans (judgeDocument_of_unlisted hfound)
  | ok found =>
    obtain ⟨members, rfl⟩ := hobject
    obtain rfl := Except.ok.inj ((judgeDocument_obj hfound hlogs).symm.trans hj)
    cases found with
    | nil =>
      obtain ⟨hgood, hwarnings⟩ := List.forall_mem_cons.mp
        (List.findSome?_eq_none_iff.mp (Printed.crash?_all.symm.trans h))
      obtain ⟨text, htext⟩ := exists_shows_of_goodLine hgood
      exact {
        object := ⟨members, rfl⟩
        logs := hlogs
        problems := ⟨[], hfound⟩
        status := fun _ => ⟨text, congrArg (fun shown => [shown]) htext⟩
        warnings := exists_shows_of_warningLines hwarnings }
    | cons t found =>
      obtain ⟨hproblems, hwarnings⟩ := List.forall_mem_append.mp
        (List.findSome?_eq_none_iff.mp (Printed.crash?_all.symm.trans h))
      obtain ⟨texts, htexts⟩ := exists_texts_of_problemLines (List.forall_mem_cons.mp hproblems).2
      exact {
        object := ⟨members, rfl⟩
        logs := hlogs
        problems := ⟨texts, htexts ▸ hfound⟩
        status := fun hnone => nomatch hfound.symm.trans hnone
        warnings := exists_shows_of_warningLines hwarnings }

end Moo.Cli.Checker
