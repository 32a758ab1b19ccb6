import Mathlib.Data.List.Nodup
import Moo.Json.Printer
import Moo.Proofs.Json.Shown
import Moo.Proofs.Schema.Standard

/-!
# Members in order

Documents are printed with the members of each object in the order of their names. `v.sorted` is `v`
with its members put so. Where the names of each object are distinct, the order hides nothing: the
same parts are found (`part?_sorted`), and no standard verdict on what can be shown changes
(`Demand.passes_sorted`).
-/

namespace Moo

namespace Json

mutual

def sorted : Json → Json
  | .null => .null
  | .bool b => .bool b
  | .int n => .int n
  | .float x => .float x
  | .str s => .str s
  | .arr items => .arr (sortedItems items)
  | .obj members => .obj (sortMembers (sortedMembers members))

def sortedItems : List Json → List Json
  | [] => []
  | v :: rest => v.sorted :: sortedItems rest

def sortedMembers : List (JsonText × Json) → List (JsonText × Json)
  | [] => []
  | (k, v) :: rest => (k, v.sorted) :: sortedMembers rest

end

theorem sortedItems_eq (items : List Json) : sortedItems items = items.map sorted := by
  induction items with
  | nil => rfl
  | cons v rest ih => rw [sortedItems, ih, List.map_cons]

theorem sortedMembers_eq (members : List (JsonText × Json)) :
    sortedMembers members = members.map fun m => (m.1, m.2.sorted) := by
  induction members with
  | nil => rfl
  | cons m rest ih => rw [sortedMembers, ih, List.map_cons]

theorem sortMembers_perm {α : Type} (members : List (JsonText × α)) :
    (sortMembers members).Perm members := List.mergeSort_perm _ _

theorem sortMembers_map {α β : Type} (f : α → β) (members : List (JsonText × α)) :
    sortMembers (members.map fun m => (m.1, f m.2)) =
      (sortMembers members).map fun m => (m.1, f m.2) :=
  (List.map_mergeSort (f := fun m : JsonText × α => (m.1, f m.2)) fun _ _ _ _ => rfl).symm

theorem sorted_obj (members : List (JsonText × Json)) :
    (obj members).sorted = .obj ((sortMembers members).map fun m => (m.1, m.2.sorted)) := by
  rw [sorted, sortedMembers_eq, sortMembers_map]

/-! ## Distinct names -/

/-- No object in the value has two members of one name. -/
inductive Distinct : Json → Prop where
  | null : Distinct .null
  | bool (b : Bool) : Distinct (.bool b)
  | int (n : Int) : Distinct (.int n)
  | float (x : Binary64) : Distinct (.float x)
  | str (s : JsonText) : Distinct (.str s)
  | arr {items : List Json} : (∀ v ∈ items, Distinct v) → Distinct (.arr items)
  | obj {members : List (JsonText × Json)} : (members.map Prod.fst).Nodup →
      (∀ m ∈ members, Distinct m.2) → Distinct (.obj members)

variable {members members' : List (JsonText × Json)} {name : String} {v w : Json}

theorem Distinct.names (h : (Json.obj members).Distinct) : (members.map Prod.fst).Nodup := by
  cases h with
  | obj hnames => exact hnames

theorem Distinct.member (h : (Json.obj members).Distinct) : ∀ m ∈ members, m.2.Distinct := by
  cases h with
  | obj _ hmembers => exact hmembers

theorem Distinct.item {items : List Json} (h : (Json.arr items).Distinct) :
    ∀ v ∈ items, v.Distinct := by
  cases h with
  | arr hitems => exact hitems

theorem nodup_record {fields : List (String × Json)} (h : (fields.map Prod.fst).Nodup) :
    ((fields.map fun m => (JsonText.ofString m.1, m.2)).map Prod.fst).Nodup := by
  have hinj : Function.Injective JsonText.ofString := fun _ _ => JsonText.ofString_inj.mp
  have hmap := h.map hinj
  rw [List.map_map] at hmap ⊢
  exact hmap

theorem part?_name_eq_some_iff (h : (members.map Prod.fst).Nodup) {name : JsonText} :
    (obj members).part? (.name name) = some w ↔ (name, w) ∈ members := by
  unfold part?
  rw [Option.map_eq_some_iff]
  constructor
  · rintro ⟨m, hm, rfl⟩
    have hname : m.1 = name := by simpa using List.find?_some hm
    rw [← hname]
    exact List.mem_of_find?_eq_some hm
  · intro hm
    have hex : ∃ m ∈ members, (m.1 == name) = true := ⟨_, hm, by simp⟩
    obtain ⟨m, hfind⟩ := Option.isSome_iff_exists.mp (List.find?_isSome.mpr hex)
    have hname : m.1 = name := by simpa using List.find?_some hfind
    have hmem := List.mem_of_find?_eq_some hfind
    exact ⟨m, hfind, congrArg Prod.snd (List.inj_on_of_nodup_map h hmem hm hname)⟩

theorem field?_eq_part? (v : Json) (name : String) :
    v.field? name = v.part? (.name (.ofString name)) := by
  cases v <;> rfl

variable {a : PathStep}

theorem Distinct.part (h : v.Distinct) (hw : v.part? a = some w) : w.Distinct := by
  cases a with
  | index i =>
    cases v with
    | arr items => exact h.item w (List.mem_of_getElem? hw)
    | _ => cases hw
  | name s =>
    cases v with
    | obj members => exact h.member _ ((part?_name_eq_some_iff h.names).mp hw)
    | _ => cases hw

theorem Distinct.field (h : v.Distinct) (hw : v.field? name = some w) : w.Distinct :=
  h.part (field?_eq_part? v name ▸ hw)

/-- The order of the members does not matter where their names are distinct. -/
theorem part?_of_perm (hp : members.Perm members') (h : (members.map Prod.fst).Nodup) :
    (obj members).part? a = (obj members').part? a := by
  have h' := ((hp.map Prod.fst).nodup_iff).mp h
  cases a with
  | index i => rfl
  | name s =>
    refine Option.ext fun w => ?_
    rw [part?_name_eq_some_iff h, part?_name_eq_some_iff h', hp.mem_iff]

theorem part?_map (f : Json → Json) :
    (obj (members.map fun m => (m.1, f m.2))).part? a = ((obj members).part? a).map f := by
  cases a with
  | index i => rfl
  | name s =>
    show ((members.map _).find? _).map _ = ((members.find? _).map _).map f
    rw [List.find?_map, Option.map_map, Option.map_map]
    rfl

theorem part?_sorted (h : v.Distinct) (a : PathStep) :
    v.sorted.part? a = (v.part? a).map sorted := by
  cases v with
  | obj members =>
    rw [sorted_obj, part?_map, ← part?_of_perm (sortMembers_perm members).symm h.names]
  | arr items =>
    rw [sorted, sortedItems_eq]
    cases a with
    | index i => exact List.getElem?_map
    | name s => rfl
  | _ => cases a <;> rfl

theorem field?_sorted (h : v.Distinct) (name : String) :
    v.sorted.field? name = (v.field? name).map sorted := by
  rw [field?_eq_part?, field?_eq_part?, part?_sorted h]

/-! ## What the order does not change -/

theorem isKind_sorted (v : Json) (k : JsonKind) : v.sorted.isKind k = v.isKind k := by
  cases v <;> cases k <;> rfl

theorem ltInt_sorted (v : Json) (n : Int) : v.sorted.ltInt n = v.ltInt n := by
  cases v <;> rfl

theorem gtInt_sorted (v : Json) (n : Int) : v.sorted.gtInt n = v.gtInt n := by
  cases v <;> rfl

theorem sorted_eq_text {s : String} : v.sorted = .text s ↔ v = .text s := by
  cases v <;> simp [sorted, text]

theorem isObject_sorted : v.sorted.IsObject ↔ v.IsObject := by
  cases v <;> simp [sorted, IsObject]

theorem obstacle?_sorted {depth : Nat} :
    v.sorted.obstacle? depth = none ↔ v.obstacle? depth = none := by
  induction depth generalizing v with
  | zero => cases v <;> exact Iff.rfl
  | succ depth ih =>
    cases v with
    | arr items =>
      rw [sorted, sortedItems_eq, obstacle?_arr, obstacle?_arr, List.forall_mem_map]
      exact forall₂_congr fun _ _ => ih
    | obj members =>
      rw [sorted_obj, obstacle?_obj, obstacle?_obj, List.forall_mem_map]
      simp only [(sortMembers_perm members).mem_iff, ih]
    | _ => exact Iff.rfl

variable {P : Json → Prop}

/-- What does not depend on the order and holds of a part, if there is one, holds of it in order. -/
theorem forall_part_sorted (h : v.Distinct)
    (hP : ∀ w, v.part? a = some w → w.Distinct → (P w.sorted ↔ P w)) :
    (∀ w, v.sorted.part? a = some w → P w) ↔ ∀ w, v.part? a = some w → P w := by
  simp only [part?_sorted h, Option.map_eq_some_iff]
  constructor
  · exact fun hall w hw => (hP w hw (h.part hw)).mp (hall _ ⟨w, hw, rfl⟩)
  · rintro hall _ ⟨w, hw, rfl⟩
    exact (hP w hw (h.part hw)).mpr (hall w hw)

theorem may_sorted (h : v.Distinct)
    (hP : ∀ w, v.part? (.name (.ofString name)) = some w → w.Distinct → (P w.sorted ↔ P w)) :
    v.sorted.May name P ↔ v.May name P := by
  unfold May
  simp only [field?_eq_part?]
  exact forall_part_sorted h hP

end Json

/-! ## Schemas -/

variable {finds : Pattern → JsonText → Prop} {depth : Nat} {passes : Schema → Json → Prop} {v : Json}

open Schema (Standard)

namespace Demand

mutual

/-- By induction on the demand: the order of members matters to no demand on a value, nor to one on
its parts. -/
theorem allows_sorted (hS : Standard finds depth passes) : ∀ (d : Demand) {declared : List String}
    {v : Json}, v.Distinct → v.obstacle? depth = none →
    (d.Allows finds passes declared v.sorted ↔ d.Allows finds passes declared v)
  | .kind kinds, _, v, _, _ => by simp only [Allows, Json.isKind_sorted]
  | .const text, _, v, _, _ => Json.sorted_eq_text
  | .enum texts, _, v, _, _ => by simp only [Allows, Json.IsOneOf, Json.sorted_eq_text]
  | .pattern p, _, v, _, _ => by cases v <;> simp [Allows, Json.sorted]
  | .minimum n, _, v, _, _ => by simp only [Allows, Json.ltInt_sorted]
  | .maximum n, _, v, _, _ => by simp only [Allows, Json.gtInt_sorted]
  | .required names, _, v, hv, _ => by
    simp only [Allows, Json.isObject_sorted, Json.field?_sorted hv, Option.isSome_map]
  | .properties schemas, _, v, hv, hs =>
    forall₂_congr fun m hm => Json.may_sorted hv fun w hw hd =>
      member_sorted hS schemas m hm w hd (Json.obstacle?_part hs hw)
  | .closed, _, v, hv, _ =>
    forall_congr' fun _ => Json.forall_part_sorted hv fun _ _ _ => Iff.rfl
  | .additional demands, _, v, hv, hs => forall_congr' fun _ =>
    Json.forall_part_sorted hv fun _ hw hd => imp_congr_right fun _ =>
      passes_sorted hS demands hd (Json.obstacle?_part hs hw)
  | .eachItem demands, _, v, hv, hs => forall_congr' fun _ =>
    Json.forall_part_sorted hv fun _ hw hd =>
      passes_sorted hS demands hd (Json.obstacle?_part hs hw)
  | .eachName demands, _, v, hv, _ =>
    forall_congr' fun _ => Json.forall_part_sorted hv fun _ _ _ => Iff.rfl
  | .oneOf branches, _, v, hv, hs => by
    have hbranches := fun s hmem => branch_sorted hS branches s hmem v hv hs
    refine exists_congr fun before => exists_congr fun s => exists_congr fun after =>
      and_congr_right ?_
    rintro rfl
    have hothers := ((List.sublist_cons_self s after).append_left before).subset
    exact and_congr (hbranches s (by simp)) (forall₂_congr fun other ho =>
      not_congr (hbranches other (hothers ho)))

theorem passes_sorted (hS : Standard finds depth passes) (demands : List Demand) {v : Json}
    (hv : v.Distinct) (hs : v.obstacle? depth = none) :
    passes demands v.sorted ↔ passes demands v := by
  constructor
  · intro h
    exact hS.complete (fun _ => hs) ((allAllow_sorted hS demands hv hs).mp (hS.sound h))
  · intro h
    refine hS.complete (fun _ => Json.obstacle?_sorted.mpr hs) ?_
    exact (allAllow_sorted hS demands hv hs).mpr (hS.sound h)

theorem allAllow_sorted (hS : Standard finds depth passes) : ∀ (demands : List Demand)
    {declared : List String} {v : Json}, v.Distinct → v.obstacle? depth = none →
    ((∀ d ∈ demands, d.Allows finds passes declared v.sorted) ↔
      ∀ d ∈ demands, d.Allows finds passes declared v)
  | [], _, v, _, _ => by simp
  | d :: rest, _, v, hv, hs => by
    rw [List.forall_mem_cons, List.forall_mem_cons, allows_sorted hS d hv hs,
      allAllow_sorted hS rest hv hs]

theorem member_sorted (hS : Standard finds depth passes) :
    ∀ (schemas : List (String × List Demand)), ∀ m ∈ schemas, ∀ w : Json, w.Distinct →
      w.obstacle? depth = none → (passes m.2 w.sorted ↔ passes m.2 w)
  | [] => List.forall_mem_nil _
  | (_, demands) :: rest =>
    List.forall_mem_cons.mpr ⟨fun _ hd hs => passes_sorted hS demands hd hs, member_sorted hS rest⟩

theorem branch_sorted (hS : Standard finds depth passes) : ∀ (branches : List (List Demand)),
    ∀ s ∈ branches, ∀ w : Json, w.Distinct → w.obstacle? depth = none →
      (passes s w.sorted ↔ passes s w)
  | [] => List.forall_mem_nil _
  | demands :: rest =>
    List.forall_mem_cons.mpr ⟨fun _ hd hs => passes_sorted hS demands hd hs, branch_sorted hS rest⟩

end

end Demand

end Moo
