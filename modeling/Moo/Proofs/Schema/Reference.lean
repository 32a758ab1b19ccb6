import Moo.Cli.Platform
import Moo.Proofs.Schema.Finding
import Moo.Proofs.Schema.Meaning
import Moo.Proofs.Schema.Search

/-!
# The written-out validator

A check finds nothing just if every demand allows the value, one case for each demand
(`Demand.check_iff`). So the written-out validator follows the standard, with a search that succeeds
also before a final newline (`Validator.follows_reference`). Its violations lead to parts of the
value, and it tells them of every value that can be shown.
-/

namespace Moo

variable {v : Json} {a : PathStep} {depth : Nat}

namespace Finding

theorem here_eq_nil {bad : Bool} {d : Defect} : here bad d = [] ↔ bad = false := by
  cases bad <;> simp [here]

theorem inPart_eq_nil {find : Json → List Finding} :
    inPart v a find = [] ↔ ∀ w, v.part? a = some w → find w = [] := by
  unfold inPart
  cases v.part? a <;> simp

end Finding

def Schema.Clean (s : Schema) (v : Json) : Prop := s.check v = []

namespace Demand

open Finding

variable {declared : List String}

theorem checkAll_eq_nil {demands : List Demand} :
    checkAll declared demands v = [] ↔ ∀ d ∈ demands, check declared d v = [] := by
  induction demands with
  | nil => exact iff_of_true rfl (List.forall_mem_nil _)
  | cons d rest ih => rw [checkAll, List.append_eq_nil_iff, ih, List.forall_mem_cons]

theorem checkProperties_eq_nil {schemas : List (String × List Demand)} :
    checkProperties schemas v = [] ↔ ∀ m ∈ schemas, v.May m.1 (Schema.Clean m.2) := by
  induction schemas with
  | nil => exact iff_of_true rfl (List.forall_mem_nil _)
  | cons m rest ih =>
    obtain ⟨name, demands⟩ := m
    rw [checkProperties, List.append_eq_nil_iff, ih, List.forall_mem_cons, inPart_eq_nil]
    refine and_congr_left' ?_
    cases v <;> rfl

theorem metAmong_eq (branches : List Schema) (v : Json) :
    metAmong branches v = branches.filter fun s => (s.check v).isEmpty := by
  induction branches with
  | nil => rfl
  | cons s rest ih => rw [metAmong, List.filter_cons, ih]; rfl

theorem metAmong_eq_singleton_iff {branches : List Schema} :
    (∃ s, metAmong branches v = [s]) ↔
      ∃ before s after, branches = before ++ s :: after ∧ s.Clean v ∧
        ∀ other ∈ before ++ after, ¬ other.Clean v := by
  have hclean : ∀ s : Schema, (s.check v).isEmpty = true ↔ s.Clean v := fun s => List.isEmpty_iff
  simp only [metAmong_eq]
  constructor
  · rintro ⟨s, hs⟩
    obtain ⟨before, after, rfl, hbefore, hmet, hafter⟩ := List.filter_eq_cons_iff.mp hs
    refine ⟨before, s, after, rfl, (hclean s).mp hmet, List.forall_mem_append.mpr ⟨?_, ?_⟩⟩
    · exact fun other ho hother => hbefore other ho ((hclean other).mpr hother)
    · exact fun other ho hother =>
        List.filter_eq_nil_iff.mp hafter other ho ((hclean other).mpr hother)
  · rintro ⟨before, s, after, rfl, hs, hothers⟩
    obtain ⟨hbefore, hafter⟩ := List.forall_mem_append.mp hothers
    refine ⟨s, ?_⟩
    rw [List.filter_append, List.filter_cons, if_pos ((hclean s).mpr hs),
      List.filter_eq_nil_iff.mpr fun other ho => mt (hclean other).mp (hbefore other ho),
      List.filter_eq_nil_iff.mpr fun other ho => mt (hclean other).mp (hafter other ho)]
    rfl

theorem mem_extras_iff {members : List (JsonText × Json)} {m : JsonText × Json} :
    m ∈ extras declared members ↔ m ∈ members ∧ ∀ known ∈ declared, m.1 ≠ .ofString known := by
  simp [extras]

theorem isText_iff {texts : List String} : v.isText texts = true ↔ v.IsOneOf texts := by
  cases v <;> simp [Json.isText, Json.IsOneOf, Json.text]

theorem check_closed_iff : check declared .closed v = [] ↔
    Allows Pattern.Found Schema.Clean declared .closed v := by
  cases v with
  | obj members =>
    rw [check, here_eq_nil, Bool.not_eq_false', List.isEmpty_iff, List.map_eq_nil_iff,
      List.eq_nil_iff_forall_not_mem]
    constructor
    · intro h name w hw
      obtain ⟨m, hm, rfl⟩ := Json.exists_part?_name_iff.mp ⟨w, hw⟩
      exact Classical.byContradiction fun hunknown =>
        h m (mem_extras_iff.mpr ⟨hm, fun known hk he => hunknown ⟨known, hk, he⟩⟩)
    · intro h m hm
      obtain ⟨hm, hunknown⟩ := mem_extras_iff.mp hm
      obtain ⟨w, hw⟩ := Json.exists_part?_name_iff.mpr ⟨m, hm, rfl⟩
      obtain ⟨known, hk, he⟩ := h m.1 w hw
      exact hunknown known hk he
  | _ => exact iff_of_true rfl nofun

theorem check_additional_iff {demands : List Demand} :
    check declared (.additional demands) v = [] ↔
      Allows Pattern.Found Schema.Clean declared (.additional demands) v := by
  cases v with
  | obj members =>
    rw [check, List.flatMap_eq_nil_iff]
    constructor
    · intro h name w hw hunknown
      obtain ⟨m, hm, rfl⟩ := Json.exists_part?_name_iff.mp ⟨w, hw⟩
      exact inPart_eq_nil.mp (h m (mem_extras_iff.mpr ⟨hm, hunknown⟩)) w hw
    · intro h m hm
      exact inPart_eq_nil.mpr fun w hw => h m.1 w hw (mem_extras_iff.mp hm).2
  | _ => exact iff_of_true rfl nofun

theorem check_eachItem_iff {demands : List Demand} :
    check declared (.eachItem demands) v = [] ↔
      Allows Pattern.Found Schema.Clean declared (.eachItem demands) v := by
  cases v with
  | arr items =>
    rw [check, List.flatMap_eq_nil_iff]
    constructor
    · intro h i w hw
      exact List.map_eq_nil_iff.mp (h (w, i) (List.mem_zipIdx_iff_getElem?.mpr hw))
    · intro h p hp
      exact List.map_eq_nil_iff.mpr (h p.2 p.1 (List.mem_zipIdx_iff_getElem?.mp hp))
  | _ => exact iff_of_true rfl nofun

theorem check_eachName_iff {demands : List Demand} :
    check declared (.eachName demands) v = [] ↔
      Allows Pattern.Found Schema.Clean declared (.eachName demands) v := by
  cases v with
  | obj members =>
    rw [check, List.flatMap_eq_nil_iff]
    constructor
    · intro h name w hw
      obtain ⟨m, hm, rfl⟩ := Json.exists_part?_name_iff.mp ⟨w, hw⟩
      exact h m hm
    · intro h m hm
      obtain ⟨w, hw⟩ := Json.exists_part?_name_iff.mpr ⟨m, hm, rfl⟩
      exact h m.1 w hw
  | _ => exact iff_of_true rfl nofun

theorem check_required_iff {names : List String} :
    check declared (.required names) v = [] ↔
      Allows Pattern.Found Schema.Clean declared (.required names) v := by
  cases v with
  | obj members =>
    rw [check, List.flatMap_eq_nil_iff]
    simp only [here_eq_nil, Option.isNone_eq_false_iff]
    exact ⟨fun h _ => h, fun h => h ⟨members, rfl⟩⟩
  | _ => exact iff_of_true rfl fun ⟨_, h⟩ => nomatch h

theorem check_pattern_iff {p : Pattern} : check declared (.pattern p) v = [] ↔
    Allows Pattern.Found Schema.Clean declared (.pattern p) v := by
  cases v with
  | str t =>
    rw [check, here_eq_nil, Bool.not_eq_false', Pattern.isFoundIn_iff]
    refine ⟨fun h t' ht => ?_, fun h => h t rfl⟩
    rwa [← Json.str.inj ht]
  | _ => exact iff_of_true rfl nofun

theorem check_oneOf_iff {branches : List Schema} : check declared (.oneOf branches) v = [] ↔
    Allows Pattern.Found Schema.Clean declared (.oneOf branches) v := by
  refine Iff.trans ?_ metAmong_eq_singleton_iff
  rw [check]
  split
  · next h => simp [h]
  · next s h => simp [h]
  · next first more hmore h => simpa [h] using hmore

theorem check_iff (d : Demand) : check declared d v = [] ↔
    d.Allows Pattern.Found Schema.Clean declared v := by
  cases d with
  | kind kinds =>
    rw [check, here_eq_nil, Bool.not_eq_false', List.any_eq_true]
    rfl
  | const text =>
    rw [check, here_eq_nil, Bool.not_eq_false', isText_iff]
    simp [Json.IsOneOf, Allows]
  | enum texts =>
    rw [check, here_eq_nil, Bool.not_eq_false', isText_iff]
    rfl
  | minimum n => rw [check, here_eq_nil]; rfl
  | maximum n => rw [check, here_eq_nil]; rfl
  | properties members => rw [check, checkProperties_eq_nil]; rfl
  | pattern p => exact check_pattern_iff
  | required names => exact check_required_iff
  | closed => exact check_closed_iff
  | additional demands => exact check_additional_iff
  | eachItem demands => exact check_eachItem_iff
  | eachName demands => exact check_eachName_iff
  | oneOf branches => exact check_oneOf_iff

end Demand

theorem Schema.clean_iff {s : Schema} :
    s.Clean v ↔ ∀ d ∈ s, d.Allows Pattern.Found Schema.Clean s.declared v :=
  Demand.checkAll_eq_nil.trans (forall₂_congr fun d _ => Demand.check_iff d)

theorem Schema.standard_clean (depth : Nat) :
    Schema.Standard Pattern.Found depth Schema.Clean where
  sound := Schema.clean_iff.mp
  complete _ := Schema.clean_iff.mpr

/-! ## The validator -/

section

variable {ε α β : Type} {f : α → Except ε β} {l : List α} {out : List β}

theorem mapM_except_cons {a : α} :
    (a :: l).mapM f = .ok out ↔ ∃ b rest, f a = .ok b ∧ l.mapM f = .ok rest ∧ out = b :: rest := by
  rw [List.mapM_cons]
  cases f a with
  | error e => exact iff_of_false nofun (by simp)
  | ok b =>
    cases l.mapM f with
    | error e => exact iff_of_false nofun (by simp)
    | ok rest =>
      constructor
      · exact fun h => ⟨b, rest, rfl, rfl, (Except.ok.inj h).symm⟩
      · rintro ⟨_, _, ⟨⟩, ⟨⟩, rfl⟩
        rfl

theorem exists_of_mem_mapM_except (h : l.mapM f = .ok out) : ∀ b ∈ out, ∃ a ∈ l, f a = .ok b := by
  induction l generalizing out with
  | nil =>
    cases h
    exact List.forall_mem_nil _
  | cons a l ih =>
    obtain ⟨b, rest, hb, hrest, rfl⟩ := mapM_except_cons.mp h
    refine List.forall_mem_cons.mpr ⟨⟨a, List.mem_cons_self, hb⟩, fun c hc => ?_⟩
    obtain ⟨a', ha', hc⟩ := ih hrest c hc
    exact ⟨a', List.mem_cons_of_mem a ha', hc⟩

theorem exists_mapM_except (h : ∀ a ∈ l, ∃ b, f a = .ok b) : ∃ out, l.mapM f = .ok out := by
  induction l with
  | nil => exact ⟨[], rfl⟩
  | cons a l ih =>
    obtain ⟨⟨b, hb⟩, hl⟩ := List.forall_mem_cons.mp h
    obtain ⟨out, hout⟩ := ih hl
    exact ⟨b :: out, mapM_except_cons.mpr ⟨b, out, hb, hout, rfl⟩⟩

end

namespace Validator

variable {s : Schema}

theorem violations_reference_iff :
    (reference depth).violations s v = .ok [] ↔ s.Clean v := by
  show List.mapM (Finding.violation depth) (s.check v) = Except.ok [] ↔ s.check v = []
  cases s.check v with
  | nil => exact iff_of_true rfl rfl
  | cons x rest =>
    rw [mapM_except_cons]
    exact iff_of_false (fun ⟨_, _, _, _, h⟩ => nomatch h) nofun

theorem validate_reference_iff : (reference depth).validate s v = .ok () ↔ s.Clean v := by
  unfold reference Schema.Clean
  dsimp only
  split
  · next h => exact iff_of_true rfl h
  · next x rest h =>
    rw [h]
    split <;> exact iff_of_false nofun nofun

theorem follows_reference (depth : Nat) : (reference depth).Follows Pattern.Found depth where
  violations := by simpa only [violations_reference_iff] using Schema.standard_clean depth
  validate := by simpa only [validate_reference_iff] using Schema.standard_clean depth

theorem locates_reference (depth : Nat) : (reference depth).Locates := by
  intro s v found h x hx
  obtain ⟨finding, hmem, hfinding⟩ := exists_of_mem_mapM_except h x hx
  unfold Finding.violation at hfinding
  cases hm : finding.defect.message depth with
  | error e =>
    rw [hm] at hfinding
    cases hfinding
  | ok text =>
    rw [hm] at hfinding
    cases hfinding
    exact (Demand.allOf_checkAll s _ v finding hmem).located

theorem tells_reference (depth : Nat) : (reference depth).Tells depth := fun s v h =>
  exists_mapM_except fun x hx => (Demand.allOf_checkAll s _ v x hx).told h

end Validator

def Cli.Platform.sample : Platform := ⟨.reference 9, fun _ => true, 9, 9, 9⟩

theorem Cli.Platform.sample_follows : sample.validator.Follows Pattern.Found sample.showDepth :=
  Validator.follows_reference 9

end Moo
