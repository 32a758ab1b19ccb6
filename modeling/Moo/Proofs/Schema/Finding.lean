import Moo.Proofs.Json.Shown
import Moo.Schema.Check

/-!
# What findings are of

Every finding of the written-out validator is at a part of the checked value and shows nothing that
could not be shown with the value (`Finding.Of`). By induction on the schema: what is demanded of
members and items is found in parts, and nothing is inside a name.
-/

namespace Moo

def Defect.subject? : Defect → Option Json
  | .wrongKind v _ => some v
  | .notInEnum v _ => some v
  | .belowMinimum v _ => some v
  | .aboveMaximum v _ => some v
  | .noBranch v => some v
  | .severalBranches v _ => some v
  | _ => none

theorem Defect.exists_message {d : Defect} {depth : Nat}
    (h : ∀ v ∈ d.subject?, v.obstacle? depth = none) : ∃ text, d.message depth = .ok text := by
  have hshown : ∀ v ∈ d.subject?, v.shown depth = .ok v.written := by
    intro v hv
    unfold Json.shown
    rw [h v hv]
  cases d with
  | notConst _ | mismatch _ _ | missing _ | unexpected _ => exact ⟨_, rfl⟩
  | wrongKind v _ | notInEnum v _ | belowMinimum v _ | aboveMaximum v _ | noBranch v
  | severalBranches v _ =>
    rw [message, hshown v rfl]
    exact ⟨_, rfl⟩

variable {v w : Json} {a : PathStep} {found found' : List Finding} {depth : Nat}

/-- The finding is at a part of the value, and shows nothing that cannot be shown with the value. -/
structure Finding.Of (v : Json) (x : Finding) : Prop where
  located : (v.at? x.path).isSome = true
  shows : ∀ w ∈ x.defect.subject?, ∀ depth, v.obstacle? depth = none → w.obstacle? depth = none

theorem Finding.Of.told {x : Finding} (h : x.Of v) (hv : v.obstacle? depth = none) :
    ∃ violation, x.violation depth = .ok violation := by
  obtain ⟨text, htext⟩ := Defect.exists_message fun w hw => h.shows w hw depth hv
  unfold Finding.violation
  rw [htext]
  exact ⟨_, rfl⟩

namespace Finding

def AllOf (v : Json) (found : List Finding) : Prop := ∀ x ∈ found, x.Of v

theorem allOf_nil (v : Json) : AllOf v [] := List.forall_mem_nil _

theorem AllOf.append (h : AllOf v found) (h' : AllOf v found') : AllOf v (found ++ found') :=
  List.forall_mem_append.mpr ⟨h, h'⟩

theorem allOf_flatMap {α : Type} {l : List α} {f : α → List Finding}
    (h : ∀ a ∈ l, AllOf v (f a)) : AllOf v (l.flatMap f) := by
  intro x hx
  obtain ⟨a, ha, hx⟩ := List.mem_flatMap.mp hx
  exact h a ha x hx

theorem AllOf.within (h : AllOf w found) (ha : v.part? a = some w) :
    AllOf v (found.map (·.within a)) := by
  refine List.forall_mem_map.mpr fun x hx => ⟨?_, fun u hu depth hv => ?_⟩
  · show ((v.part? a).bind fun w => w.at? x.path).isSome = true
    rw [ha]
    exact (h x hx).located
  · exact (h x hx).shows u hu depth (Json.obstacle?_part hv ha)

theorem AllOf.inPart {find : Json → List Finding} (h : ∀ w, AllOf w (find w)) :
    AllOf v (inPart v a find) := by
  unfold Finding.inPart
  split
  · next w hw => exact (h w).within hw
  · exact allOf_nil v

/-- What is found in a text is of every value: nothing is inside a text, and it can be shown. -/
theorem AllOf.of_str {s : JsonText} (h : AllOf (.str s) found) (v : Json) : AllOf v found := by
  intro x hx
  obtain ⟨hpath, hshows⟩ := h x hx
  refine ⟨?_, fun w hw depth _ => hshows w hw depth (by cases depth <;> rfl)⟩
  cases hp : x.path with
  | nil => rfl
  | cons a p =>
    rw [hp] at hpath
    cases a <;> cases hpath

/-- A defect of the value itself, which shows the value if anything. -/
theorem of_root {d : Defect} (h : ∀ w ∈ d.subject?, w = v) : Of v ⟨[], d⟩ where
  located := rfl
  shows w hw _ hv := h w hw ▸ hv

theorem allOf_here {bad : Bool} {d : Defect} (h : ∀ w ∈ d.subject?, w = v) :
    AllOf v (here bad d) := by
  unfold here
  split
  · exact List.forall_mem_singleton.mpr (of_root h)
  · exact allOf_nil v

end Finding

namespace Demand

open Finding

mutual

/-- By induction on the demand, the members and items it is about being parts of the value. -/
theorem allOf_check : ∀ (d : Demand) (declared : List String) (v : Json),
    AllOf v (check declared d v)
  | .kind _ | .const _ | .enum _ | .minimum _ | .maximum _ => fun _ _ =>
    allOf_here (by simp [Defect.subject?])
  | .pattern p => by
    intro declared v
    cases v with
    | str s => exact allOf_here (by simp [Defect.subject?])
    | _ => exact allOf_nil _
  | .required names => by
    intro declared v
    cases v with
    | obj members => exact allOf_flatMap fun name _ => allOf_here (by simp [Defect.subject?])
    | _ => exact allOf_nil _
  | .properties schemas => fun _ v => allOf_checkProperties schemas v
  | .closed => by
    intro declared v
    cases v with
    | obj members => exact allOf_here (by simp [Defect.subject?])
    | _ => exact allOf_nil _
  | .additional demands => by
    intro declared v
    cases v with
    | obj members => exact allOf_flatMap fun m _ => AllOf.inPart fun w => allOf_checkAll demands _ w
    | _ => exact allOf_nil _
  | .eachItem demands => by
    intro declared v
    cases v with
    | arr items =>
      exact allOf_flatMap fun p hp =>
        (allOf_checkAll demands _ p.1).within (List.mem_zipIdx_iff_getElem?.mp hp)
    | _ => exact allOf_nil _
  | .eachName demands => by
    intro declared v
    cases v with
    | obj members => exact allOf_flatMap fun m _ => (allOf_checkAll demands _ (.str m.1)).of_str _
    | _ => exact allOf_nil _
  | .oneOf branches => by
    intro declared v
    rw [check]
    split
    · exact List.forall_mem_singleton.mpr (of_root (by simp [Defect.subject?]))
    · exact allOf_nil _
    · exact List.forall_mem_singleton.mpr (of_root (by simp [Defect.subject?]))

theorem allOf_checkAll : ∀ (demands : List Demand) (declared : List String) (v : Json),
    AllOf v (checkAll declared demands v)
  | [] => fun _ v => allOf_nil v
  | d :: rest => fun declared v => (allOf_check d declared v).append (allOf_checkAll rest declared v)

theorem allOf_checkProperties : ∀ (schemas : List (String × List Demand)) (v : Json),
    AllOf v (checkProperties schemas v)
  | [] => fun v => allOf_nil v
  | (_, demands) :: rest => fun v =>
    (AllOf.inPart fun w => allOf_checkAll demands _ w).append (allOf_checkProperties rest v)

end

end Demand

end Moo
