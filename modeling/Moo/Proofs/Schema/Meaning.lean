import Moo.Proofs.Schema.Standard

/-!
# What schemas mean

For each shape of schema that documents here use, what a standard verdict on it says of any value at
all, objects or not. The bounds of a number pass over what is no number, so they say something only
together with the kind; a choice between several branches is a plain disjunction when no two
branches can be met at once.
-/

namespace Moo

variable {v : Json}

namespace Json

/-! ## Kinds -/

theorem isKind_object : v.isKind .object = true ↔ v.IsObject := by
  cases v <;> simp [isKind, IsObject]

theorem isKind_array : v.isKind .array = true ↔ ∃ items, v = .arr items := by
  cases v <;> simp [isKind]

theorem isKind_string : v.isKind .string = true ↔ v.IsString := by
  cases v <;> simp [isKind, IsString]

theorem isKind_null : v.isKind .null = true ↔ v = .null := by
  cases v <;> simp [isKind]

theorem isKind_integer : v.isKind .integer = true ↔ ∃ n, v.Amounts n := by
  cases v with
  | int n => exact iff_of_true rfl ⟨n, .int n⟩
  | float x =>
    show x.isWhole = true ↔ _
    rw [Binary64.isWhole_iff]
    constructor
    · rintro ⟨n, h⟩
      exact ⟨n, .float h⟩
    · rintro ⟨n, ⟨⟩ | h⟩
      exact ⟨n, h⟩
  | _ => exact iff_of_false Bool.false_ne_true fun ⟨_, h⟩ => nomatch h

variable {n k : Int}

theorem Amounts.ltInt_iff (h : v.Amounts n) : v.ltInt k = true ↔ n < k := by
  cases h with
  | int => exact decide_eq_true_iff
  | float h => exact h.ltInt_iff

theorem Amounts.gtInt_iff (h : v.Amounts n) : v.gtInt k = true ↔ k < n := by
  cases h with
  | int => exact decide_eq_true_iff
  | float h => exact h.gtInt_iff

/-! ## Parts -/

theorem exists_part?_name_iff {members : List (JsonText × Json)} {name : JsonText} :
    (∃ w, (obj members).part? (.name name) = some w) ↔ ∃ m ∈ members, m.1 = name := by
  unfold part?
  rw [← Option.isSome_iff_exists, Option.isSome_map, List.find?_isSome]
  simp only [beq_iff_eq]

theorem isArrayOf_iff {P : Json → Prop} :
    v.IsArrayOf P ↔ (∃ items, v = .arr items) ∧ ∀ i w, v.part? (.index i) = some w → P w := by
  constructor
  · rintro ⟨items, rfl, h⟩
    exact ⟨⟨items, rfl⟩, fun i w hw => h w (List.mem_of_getElem? hw)⟩
  · rintro ⟨⟨items, rfl⟩, h⟩
    refine ⟨items, rfl, fun w hw => ?_⟩
    obtain ⟨i, hi⟩ := List.getElem?_of_mem hw
    exact h i w hi

theorem isObjectOf_iff {names : List String} :
    v.IsObjectOf names ↔
      v.IsObject ∧ ∀ name w, v.part? (.name name) = some w →
        ∃ known ∈ names, name = .ofString known := by
  constructor
  · rintro ⟨members, rfl, h⟩
    refine ⟨⟨members, rfl⟩, fun name w hw => ?_⟩
    obtain ⟨m, hm, rfl⟩ := exists_part?_name_iff.mp ⟨w, hw⟩
    exact h m hm
  · rintro ⟨⟨members, rfl⟩, h⟩
    refine ⟨members, rfl, fun m hm => ?_⟩
    obtain ⟨w, hw⟩ := exists_part?_name_iff.mpr ⟨m, hm, rfl⟩
    exact h m.1 w hw

end Json

namespace Schema.Standard

variable {finds : Pattern → JsonText → Prop} {depth : Nat} {passes : Schema → Json → Prop}
  {lo hi : Int}
  {s rest : Schema}

/-- Without a choice a schema says just what its demands say, of values that cannot be shown too. -/
theorem plain (hS : Standard finds depth passes) (hs : s.hasChoice = false) :
    passes s v ↔ ∀ d ∈ s, d.Allows finds passes s.declared v :=
  ⟨hS.sound, hS.complete fun h => absurd (hs.symm.trans h) Bool.false_ne_true⟩

theorem kinds (hS : Standard finds depth passes) (hrest : rest.hasChoice = false)
    {kinds : List JsonKind} :
    passes (.kind kinds :: rest) v ↔ (∃ k ∈ kinds, v.isKind k = true) ∧ passes rest v := by
  rw [hS.plain hrest, hS.plain (s := .kind kinds :: rest) hrest, List.forall_mem_cons]
  rfl

theorem kind (hS : Standard finds depth passes) (hrest : rest.hasChoice = false) {k : JsonKind} :
    passes (.kind [k] :: rest) v ↔ v.isKind k = true ∧ passes rest v := by
  rw [hS.kinds hrest]
  simp only [List.mem_singleton, exists_eq_left]

theorem nil (hS : Standard finds depth passes) : passes [] v :=
  (hS.plain rfl).mpr (List.forall_mem_nil _)

theorem single (hS : Standard finds depth passes) {d : Demand} (hd : d.isChoice = false) :
    passes [d] v ↔ d.Allows finds passes (Schema.declared [d]) v := by
  have hs : Schema.hasChoice [d] = false := by simp [hasChoice, hd]
  rw [hS.plain hs, List.forall_mem_singleton]

/-! ## Numbers -/

theorem integer (hS : Standard finds depth passes) :
    passes [.kind [.integer]] v ↔ v.IsInteger fun _ => True := by
  rw [hS.kind rfl, Json.isKind_integer]
  simp only [Json.IsInteger, hS.nil, and_true]

theorem minimum (hS : Standard finds depth passes) {n : Int} (h : v.Amounts n) :
    passes [.minimum lo] v ↔ lo ≤ n := by
  rw [hS.single rfl]
  show v.ltInt lo = false ↔ _
  rw [← Bool.not_eq_true, h.ltInt_iff]
  omega

theorem bounds (hS : Standard finds depth passes) {n : Int} (h : v.Amounts n) :
    passes [.minimum lo, .maximum hi] v ↔ lo ≤ n ∧ n ≤ hi := by
  rw [hS.plain rfl, List.forall_mem_cons, List.forall_mem_singleton]
  show v.ltInt lo = false ∧ v.gtInt hi = false ↔ _
  rw [← Bool.not_eq_true, ← Bool.not_eq_true, h.ltInt_iff, h.gtInt_iff]
  omega

theorem atLeast (hS : Standard finds depth passes) :
    passes [.kind [.integer], .minimum lo] v ↔ v.IsInteger (lo ≤ ·) := by
  rw [hS.kind rfl, Json.isKind_integer]
  constructor
  · rintro ⟨⟨n, hn⟩, h⟩
    exact ⟨n, hn, (hS.minimum hn).mp h⟩
  · rintro ⟨n, hn, h⟩
    exact ⟨⟨n, hn⟩, (hS.minimum hn).mpr h⟩

theorem between (hS : Standard finds depth passes) :
    passes [.kind [.integer], .minimum lo, .maximum hi] v ↔
      v.IsInteger fun n => lo ≤ n ∧ n ≤ hi := by
  rw [hS.kind rfl, Json.isKind_integer]
  constructor
  · rintro ⟨⟨n, hn⟩, h⟩
    exact ⟨n, hn, (hS.bounds hn).mp h⟩
  · rintro ⟨n, hn, h⟩
    exact ⟨⟨n, hn⟩, (hS.bounds hn).mpr h⟩

theorem null (hS : Standard finds depth passes) : passes [.kind [.null]] v ↔ v = .null := by
  rw [hS.kind rfl, Json.isKind_null]
  simp only [hS.nil, and_true]

theorem betweenOrNull (hS : Standard finds depth passes) :
    passes [.kind [.integer, .null], .minimum lo, .maximum hi] v ↔
      v = .null ∨ v.IsInteger fun n => lo ≤ n ∧ n ≤ hi := by
  have hnull : passes [.minimum lo, .maximum hi] .null := by
    rw [hS.plain rfl, List.forall_mem_cons, List.forall_mem_singleton]
    exact ⟨rfl, rfl⟩
  rw [hS.kinds rfl, ← hS.between, hS.kind rfl]
  constructor
  · rintro ⟨⟨k, hk, hv⟩, h⟩
    rcases List.mem_cons.mp hk with rfl | hk
    · exact .inr ⟨hv, h⟩
    · obtain rfl := List.mem_singleton.mp hk
      exact .inl (Json.isKind_null.mp hv)
  · rintro (rfl | ⟨hv, h⟩)
    · exact ⟨⟨.null, by simp, rfl⟩, hnull⟩
    · exact ⟨⟨.integer, by simp, hv⟩, h⟩

/-! ## Texts -/

theorem string (hS : Standard finds depth passes) : passes [.kind [.string]] v ↔ v.IsString := by
  rw [hS.kind rfl, Json.isKind_string]
  simp only [hS.nil, and_true]

theorem enum (hS : Standard finds depth passes) {texts : List String} :
    passes [.enum texts] v ↔ v.IsOneOf texts := hS.single rfl

theorem const (hS : Standard finds depth passes) {text : String} :
    passes [.const text] v ↔ v = .text text := hS.single rfl

theorem pattern (hS : Standard finds depth passes) {p : Pattern} {t : JsonText} :
    passes [.pattern p] (.str t) ↔ finds p t := by
  refine (hS.single rfl).trans ⟨fun h => h t rfl, fun h t' ht => ?_⟩
  cases ht
  exact h

theorem patterned (hS : Standard finds depth passes) {p : Pattern} :
    passes [.kind [.string], .pattern p] v ↔ ∃ t, v = .str t ∧ finds p t := by
  rw [hS.kind rfl, Json.isKind_string]
  constructor
  · rintro ⟨⟨t, rfl⟩, h⟩
    exact ⟨t, rfl, hS.pattern.mp h⟩
  · rintro ⟨t, rfl, h⟩
    exact ⟨⟨t, rfl⟩, hS.pattern.mpr h⟩

/-! ## Arrays -/

theorem array (hS : Standard finds depth passes) :
    passes [.kind [.array]] v ↔ v.IsArrayOf fun _ => True := by
  rw [hS.kind rfl, Json.isKind_array]
  simp only [Json.IsArrayOf, hS.nil, implies_true, and_true]

theorem items (hS : Standard finds depth passes) {s : Schema} :
    passes [.kind [.array], .eachItem s] v ↔ v.IsArrayOf (passes s) := by
  rw [hS.kind rfl, hS.single rfl, Json.isKind_array, Json.isArrayOf_iff]
  rfl

/-! ## Objects -/

variable {required : List String} {members : List (String × Schema)}

theorem openObject (hS : Standard finds depth passes)
    (h : ∀ name ∈ required, name ∈ members.map Prod.fst) :
    passes [.kind [.object], .required required, .properties members] v ↔
      v.IsObject ∧ ∀ m ∈ members, v.Field required m.1 (passes m.2) := by
  rw [hS.kind rfl, Json.isKind_object, hS.plain rfl, List.forall_mem_cons, List.forall_mem_singleton,
    Json.forall_field_iff h]
  exact and_congr_right fun hv => and_congr_left' (forall_prop_of_true hv)

theorem closedObject (hS : Standard finds depth passes)
    (h : ∀ name ∈ required, name ∈ members.map Prod.fst) :
    passes [.kind [.object], .required required, .properties members, .closed] v ↔
      v.IsObjectOf (members.map Prod.fst) ∧ ∀ m ∈ members, v.Field required m.1 (passes m.2) := by
  have hdeclared : declared [.required required, .properties members, .closed] =
      members.map Prod.fst := List.append_nil _
  rw [hS.kind rfl, Json.isKind_object, hS.plain rfl, hdeclared, List.forall_mem_cons,
    List.forall_mem_cons, List.forall_mem_singleton, Json.forall_field_iff h, Json.isObjectOf_iff,
    and_assoc]
  refine and_congr_right fun hv => ?_
  show ((_ → _) ∧ _ ∧ _) ↔ _
  rw [forall_prop_of_true hv]
  constructor
  · rintro ⟨hrequired, hproperties, hclosed⟩
    exact ⟨hclosed, hrequired, hproperties⟩
  · rintro ⟨hclosed, hrequired, hproperties⟩
    exact ⟨hrequired, hproperties, hclosed⟩

/-- An object whose members are all of one sort. -/
theorem uniform (hS : Standard finds depth passes) {names values : Schema} :
    passes [.kind [.object], .eachName names, .additional values] v ↔
      v.IsObject ∧ ∀ name w, v.part? (.name name) = some w →
        passes names (.str name) ∧ passes values w := by
  rw [hS.kind rfl, Json.isKind_object, hS.plain rfl, List.forall_mem_cons, List.forall_mem_singleton]
  refine and_congr_right fun _ => ?_
  constructor
  · rintro ⟨hnames, hvalues⟩ name w hw
    exact ⟨hnames name w hw, hvalues name w hw (List.forall_mem_nil _)⟩
  · exact fun h => ⟨fun name w hw => (h name w hw).1, fun name w hw _ => (h name w hw).2⟩

/-! ## Choices -/

variable {branches : List Schema}

theorem exists_branch (hS : Standard finds depth passes) (h : passes [.oneOf branches] v) :
    ∃ s ∈ branches, passes s v := by
  obtain ⟨before, s, after, rfl, hs, -⟩ := hS.sound h _ (List.mem_singleton.mpr rfl)
  exact ⟨s, by simp, hs⟩

/-- If no two branches are met at once, exactly one is met just if one is. -/
theorem choice (hS : Standard finds depth passes) (hv : v.obstacle? depth = none)
    (h : branches.Pairwise fun s s' => passes s v → ¬ passes s' v) :
    passes [.oneOf branches] v ↔ ∃ s ∈ branches, passes s v := by
  refine ⟨hS.exists_branch, ?_⟩
  rintro ⟨s, hmem, hs⟩
  obtain ⟨before, after, rfl⟩ := List.append_of_mem hmem
  obtain ⟨-, hafter, hbefore⟩ := List.pairwise_append.mp h
  refine hS.complete (fun _ => hv) (List.forall_mem_singleton.mpr ⟨before, s, after, rfl, hs, ?_⟩)
  refine List.forall_mem_append.mpr ⟨fun other ho hpass => ?_, ?_⟩
  · exact hbefore other ho s List.mem_cons_self hpass hs
  · exact fun other ho => (List.pairwise_cons.mp hafter).1 other ho hs

end Schema.Standard

end Moo
