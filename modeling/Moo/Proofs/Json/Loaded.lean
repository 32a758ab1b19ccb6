import Moo.Json.Parser
import Moo.Proofs.Json.Sorted

/-!
# What is read from documents

A value that is read from a document holds no integer of too many digits and nests no deeper than
the reader goes, so it can be shown as deep; and no object in it has two members of one name
(`parse?_loaded`).
-/

namespace Moo.Json

open Number (Legible)

/-- The value can be shown that deep, and no object in it has a name twice. -/
structure Loaded (depth : Nat) (v : Json) : Prop where
  shown : v.obstacle? depth = none
  distinct : v.Distinct

/-! ## Members -/

variable {k : JsonText} {v : Json} {m : JsonText × Json} {members : List (JsonText × Json)}

theorem mem_put (h : m ∈ put k v members) : m = (k, v) ∨ m ∈ members := by
  induction members with
  | nil => exact .inl (List.mem_singleton.mp h)
  | cons first rest ih =>
    rw [put] at h
    split at h
    · next hk =>
      rcases List.mem_cons.mp h with rfl | h
      · exact .inl (congrArg (fun name => (name, v)) hk)
      · exact .inr (List.mem_cons_of_mem _ h)
    · rcases List.mem_cons.mp h with rfl | h
      · exact .inr List.mem_cons_self
      · exact (ih h).imp_right (List.mem_cons_of_mem _)

theorem nodup_put (h : (members.map Prod.fst).Nodup) :
    ((put k v members).map Prod.fst).Nodup := by
  induction members with
  | nil => exact List.nodup_singleton k
  | cons first rest ih =>
    obtain ⟨hfirst, hrest⟩ := List.nodup_cons.mp h
    rw [put]
    split
    · exact h
    · next hk =>
      refine List.nodup_cons.mpr ⟨fun hmem => ?_, ih hrest⟩
      obtain ⟨m, hm, hname⟩ := List.mem_map.mp hmem
      rcases mem_put hm with rfl | hm
      · exact hk hname.symm
      · exact hfirst (hname ▸ List.mem_map_of_mem hm)

theorem collect_spec (members : List (JsonText × Json)) :
    ((collect members).map Prod.fst).Nodup ∧ ∀ m ∈ collect members, m ∈ members := by
  refine List.foldlRecOn members _
    (motive := fun known => (known.map Prod.fst).Nodup ∧ ∀ m ∈ known, m ∈ members)
    ⟨.nil, List.forall_mem_nil _⟩ fun known h m hm => ⟨nodup_put h.1, fun m' hm' => ?_⟩
  rcases mem_put hm' with rfl | hm'
  · exact hm
  · exact h.2 m' hm'

/-! ## Values -/

variable {depth : Nat} {cs rest : List Char}

theorem loaded_int {n : Int} (h : Legible n) : (Json.int n).Loaded depth :=
  ⟨obstacle?_of_legible h, .int n⟩

theorem loaded_float (x : Binary64) : (Json.float x).Loaded depth :=
  ⟨by cases depth <;> rfl, .float x⟩

theorem loaded_arr {items : List Json} (h : ∀ v ∈ items, v.Loaded depth) :
    (Json.arr items).Loaded (depth + 1) :=
  ⟨obstacle?_arr.mpr fun v hv => (h v hv).shown, .arr fun v hv => (h v hv).distinct⟩

theorem loaded_obj (h : ∀ m ∈ members, m.2.Loaded depth) :
    (Json.obj (collect members)).Loaded (depth + 1) := by
  obtain ⟨hnames, hmembers⟩ := collect_spec members
  exact ⟨obstacle?_obj.mpr fun m hm => (h m (hmembers m hm)).shown,
    .obj hnames fun m hm => (h m (hmembers m hm)).distinct⟩

theorem number?_loaded {negative : Bool} (h : number? negative cs = some (v, rest)) :
    v.Loaded depth := by
  unfold number? at h
  obtain ⟨⟨whole, after⟩, -, h⟩ := Option.bind_eq_some_iff.mp h
  dsimp only at h
  split at h
  · split at h
    · cases h
    · next hlength =>
      obtain ⟨ds, hds, h⟩ := Option.bind_eq_some_iff.mp h
      cases h
      have hle := Number.length_digits?_le hds
      exact loaded_int (Number.legible_withSign (Number.digits?_lt hds) (by omega))
  · obtain ⟨ds, -, h⟩ := Option.bind_eq_some_iff.mp h
    cases h
    exact loaded_float _

theorem scalar?_loaded (h : scalar? cs = some (v, rest)) : v.Loaded depth := by
  unfold scalar? at h
  split at h
  · obtain ⟨⟨s, after⟩, -, h⟩ := Option.map_eq_some_iff.mp h
    cases h
    exact ⟨by cases depth <;> rfl, .str s⟩
  · obtain ⟨after, -, h⟩ := Option.map_eq_some_iff.mp h
    cases h
    exact ⟨by cases depth <;> rfl, .null⟩
  · obtain ⟨after, -, h⟩ := Option.map_eq_some_iff.mp h
    cases h
    exact ⟨by cases depth <;> rfl, .bool true⟩
  · obtain ⟨after, -, h⟩ := Option.map_eq_some_iff.mp h
    cases h
    exact ⟨by cases depth <;> rfl, .bool false⟩
  · obtain ⟨after, -, h⟩ := Option.map_eq_some_iff.mp h
    cases h
    exact loaded_float _
  · obtain ⟨after, -, h⟩ := Option.map_eq_some_iff.mp h
    cases h
    exact loaded_float _
  · split at h
    · cases h
      exact loaded_float _
    · exact number?_loaded h
  · exact number?_loaded h

/-! ## Readers -/

structure ReadersLoad (fuel : Nat) : Prop where
  value : ∀ {depth : Nat} {cs rest : List Char} {v : Json},
    value? fuel depth cs = some (v, rest) → v.Loaded depth
  items : ∀ {depth : Nat} {cs rest : List Char} {items : List Json},
    items? fuel depth cs = some (items, rest) → ∀ v ∈ items, v.Loaded depth
  members : ∀ {depth : Nat} {cs rest : List Char} {members : List (JsonText × Json)},
    members? fuel depth cs = some (members, rest) → ∀ m ∈ members, m.2.Loaded depth

namespace ReadersLoad

variable {fuel : Nat} (h : ReadersLoad fuel)

include h

theorem value_succ (hv : value? (fuel + 1) depth cs = some (v, rest)) : v.Loaded depth := by
  unfold value? at hv
  split at hv
  · split at hv
    · cases hv
    · next hdepth _ =>
      cases hv
      obtain ⟨depth, rfl⟩ := Nat.exists_eq_add_one_of_ne_zero hdepth
      exact loaded_arr (List.forall_mem_nil _)
    · obtain ⟨⟨items, after⟩, hread, hv⟩ := Option.map_eq_some_iff.mp hv
      cases hv
      exact loaded_arr (h.items hread)
  · split at hv
    · cases hv
    · next hdepth _ =>
      cases hv
      obtain ⟨depth, rfl⟩ := Nat.exists_eq_add_one_of_ne_zero hdepth
      exact loaded_obj (List.forall_mem_nil _)
    · obtain ⟨⟨members, after⟩, hread, hv⟩ := Option.map_eq_some_iff.mp hv
      cases hv
      exact loaded_obj (h.members hread)
  · exact scalar?_loaded hv

theorem items_succ {items : List Json} (hv : items? (fuel + 1) depth cs = some (items, rest)) :
    ∀ v ∈ items, v.Loaded depth := by
  unfold items? at hv
  split at hv
  · cases hv
  · next v after hread =>
    have hfirst := h.value hread
    split at hv
    · cases hv
      exact List.forall_mem_singleton.mpr hfirst
    · obtain ⟨⟨others, after⟩, hothers, hv⟩ := Option.map_eq_some_iff.mp hv
      cases hv
      exact List.forall_mem_cons.mpr ⟨hfirst, h.items hothers⟩
    · cases hv

theorem members_succ (hv : members? (fuel + 1) depth cs = some (members, rest)) :
    ∀ m ∈ members, m.2.Loaded depth := by
  unfold members? at hv
  split at hv
  · split at hv
    · cases hv
    · split at hv
      · split at hv
        · cases hv
        · next v after hread =>
          have hfirst := h.value hread
          split at hv
          · cases hv
            exact List.forall_mem_singleton.mpr hfirst
          · obtain ⟨⟨others, after⟩, hothers, hv⟩ := Option.map_eq_some_iff.mp hv
            cases hv
            exact List.forall_mem_cons.mpr ⟨hfirst, h.members hothers⟩
          · cases hv
      · cases hv
  · cases hv

end ReadersLoad

/-- By induction on the fuel, of all three readers at once. -/
theorem readersLoad (fuel : Nat) : ReadersLoad fuel := by
  induction fuel with
  | zero => exact ⟨nofun, nofun, nofun⟩
  | succ fuel ih => exact ⟨ih.value_succ, ih.items_succ, ih.members_succ⟩

/-- What is read from a document can be shown as deep as the reader goes, and its names are
distinct. -/
theorem parse?_loaded {s : String} (h : parse? depth s = some v) : v.Loaded depth := by
  unfold parse? at h
  dsimp only at h
  split at h
  · next w after hread =>
    split at h
    · cases h
      exact (readersLoad _).value hread
    · cases h
  · cases h

end Moo.Json
