import Moo.Json.Basic

/-!
# What a JSON value is

Properties of JSON values that speak of the value alone: it is some integer, written as one or as a
double without a fraction; it is an object that has a member, or whose member, if there is one, is
so; its members have certain names only. A text is the text of at most one string.
-/

namespace Moo

/-! ## Doubles that are integers -/

namespace Binary64

inductive Equals : Binary64 → Int → Prop where
  | finite {negative : Bool} {significand unit : Nat} {n : Int} :
      (if negative then -(scaled significand unit : Int) else scaled significand unit) = n * scale →
      Equals (.finite negative significand unit) n

variable {x : Binary64} {n k : Int}

theorem scale_pos : (0 : Int) < scale := by
  unfold scale
  -- the power is not to be computed
  generalize 1074 = k
  exact Int.natCast_pos.mpr (Nat.two_pow_pos k)

theorem isWhole_iff : x.isWhole = true ↔ ∃ n, x.Equals n := by
  cases x with
  | nan => exact ⟨nofun, fun ⟨_, h⟩ => nomatch h⟩
  | infinite negative => exact ⟨nofun, fun ⟨_, h⟩ => nomatch h⟩
  | finite negative significand unit =>
    constructor
    · intro h
      have hmod : scaled significand unit % scale = 0 := eq_of_beq h
      obtain ⟨q, hq⟩ := Nat.dvd_of_mod_eq_zero hmod
      cases negative with
      | false =>
        refine ⟨q, .finite ?_⟩
        show ((scaled significand unit : Nat) : Int) = q * scale
        rw [hq, Int.natCast_mul, Int.mul_comm]
      | true =>
        refine ⟨-q, .finite ?_⟩
        show -((scaled significand unit : Nat) : Int) = -q * scale
        rw [hq, Int.natCast_mul, Int.mul_comm, Int.neg_mul]
    · rintro ⟨n, ⟨h⟩⟩
      have hdvd : (scale : Int) ∣ scaled significand unit := by
        cases negative with
        | false => exact ⟨n, h.trans (Int.mul_comm _ _)⟩
        | true => exact Int.dvd_neg.mp ⟨n, h.trans (Int.mul_comm _ _)⟩
      exact beq_iff_eq.mpr (Nat.mod_eq_zero_of_dvd (Int.natCast_dvd_natCast.mp hdvd))

theorem Equals.ltInt_iff (h : x.Equals n) : x.ltInt k = true ↔ n < k := by
  obtain ⟨h⟩ := h
  unfold ltInt
  rw [decide_eq_true_iff, h]
  exact Int.mul_lt_mul_right scale_pos

theorem Equals.gtInt_iff (h : x.Equals n) : x.gtInt k = true ↔ k < n := by
  obtain ⟨h⟩ := h
  unfold gtInt
  rw [decide_eq_true_iff, h]
  exact Int.mul_lt_mul_right scale_pos

end Binary64

/-! ## Texts of strings -/

theorem JsonText.ofString_inj {s s' : String} : JsonText.ofString s = .ofString s' ↔ s = s' := by
  constructor
  · intro h
    have e := congrArg JsonText.string? h
    rw [string?_ofString, string?_ofString] at e
    exact Option.some.inj e
  · exact congrArg _

theorem JsonText.ofString_append (s t : String) :
    JsonText.ofString s ++ JsonText.ofString t = .ofString (s ++ t) := by
  show JsonText.mk (_ ++ _) = _
  unfold ofString
  rw [String.toList_append, List.map_append]

theorem JsonText.ofString_of_append {s t : JsonText} {text : String} (h : s ++ t = .ofString text) :
    (∃ front : String, s = .ofString front) ∧ ∃ back : String, t = .ofString back := by
  have hpoints : s.points ++ t.points = text.toList.map CodePoint.ofChar := congrArg points h
  obtain ⟨front, back, -, hs, ht⟩ := List.append_eq_map_iff.mp hpoints
  refine ⟨⟨String.ofList front, ?_⟩, ⟨String.ofList back, ?_⟩⟩ <;>
    simp only [ofString, String.toList_ofList, hs, ht]

theorem CodePoint.ofChar_of_char? {p : CodePoint} {c : Char} (h : p.char? = some c) :
    ofChar c = p := by
  unfold char? at h
  split at h
  · next hv =>
    cases h
    refine Fin.ext ?_
    show (Char.ofNat p.val).toNat = p.val
    unfold Char.ofNat
    rw [dif_pos hv]
    rfl
  · cases h

theorem JsonText.string?_eq_some {t : JsonText} {s : String} :
    t.string? = some s ↔ t = .ofString s := by
  have hpoints : ∀ (points : List CodePoint) (cs : List Char),
      points.mapM CodePoint.char? = some cs → points = cs.map CodePoint.ofChar := by
    intro points
    induction points with
    | nil =>
      rintro cs h
      cases h
      rfl
    | cons p points ih =>
      intro cs h
      rw [List.mapM_cons] at h
      obtain ⟨c, hc, h⟩ := Option.bind_eq_some_iff.mp h
      obtain ⟨cs', hcs, h⟩ := Option.bind_eq_some_iff.mp h
      cases h
      rw [List.map_cons, CodePoint.ofChar_of_char? hc, ih cs' hcs]
  constructor
  · intro h
    obtain ⟨cs, hcs, rfl⟩ := Option.map_eq_some_iff.mp h
    have ht := hpoints t.points cs hcs
    unfold ofString
    rw [String.toList_ofList, ← ht]
  · rintro rfl
    exact string?_ofString s

namespace Json

variable {v w : Json} {name : String} {P Q : Json → Prop}

/-! ## Numbers -/

/-- The value is the integer, written as one or as a double without a fraction. -/
inductive Amounts : Json → Int → Prop where
  | int (n : Int) : Amounts (.int n) n
  | float {x : Binary64} {n : Int} : x.Equals n → Amounts (.float x) n

def IsInteger (P : Int → Prop) (v : Json) : Prop := ∃ n, v.Amounts n ∧ P n

/-! ## Texts, arrays and objects -/

def IsString (v : Json) : Prop := ∃ s, v = .str s

def IsOneOf (texts : List String) (v : Json) : Prop := ∃ text ∈ texts, v = .text text

def IsArrayOf (P : Json → Prop) (v : Json) : Prop := ∃ items, v = .arr items ∧ ∀ w ∈ items, P w

def IsObject (v : Json) : Prop := ∃ members, v = .obj members

def IsObjectOf (names : List String) (v : Json) : Prop :=
  ∃ members, v = .obj members ∧ ∀ m ∈ members, ∃ name ∈ names, m.1 = .ofString name

/-- The value has a member of the name, and that has the property. -/
def Has (v : Json) (name : String) (P : Json → Prop) : Prop := ∃ w, v.field? name = some w ∧ P w

/-- If the value has a member of the name, that has the property. -/
def May (v : Json) (name : String) (P : Json → Prop) : Prop := ∀ w, v.field? name = some w → P w

theorem member?_record (name : String) (members : List (String × Json)) :
    member? name (members.map fun (k, v) => (.ofString k, v)) = members.lookup name := by
  induction members with
  | nil => rfl
  | cons m rest ih =>
    obtain ⟨k, v⟩ := m
    unfold member? at ih ⊢
    rw [List.map_cons, List.find?_cons, List.lookup_cons]
    by_cases h : k = name
    · subst h
      simp
    · have hk : (JsonText.ofString k == .ofString name) = false :=
        beq_eq_false_iff_ne.mpr fun e => h (JsonText.ofString_inj.mp e)
      have hn : (name == k) = false := beq_eq_false_iff_ne.mpr (Ne.symm h)
      simp only [hk, hn]
      exact ih

theorem field?_record (name : String) (members : List (String × Json)) :
    (record members).field? name = members.lookup name := member?_record name members

theorem isObjectOf_record {members : List (String × Json)} {names : List String} :
    (record members).IsObjectOf names ↔ ∀ m ∈ members, m.1 ∈ names := by
  constructor
  · rintro ⟨found, h, hnames⟩ m hm
    cases h
    obtain ⟨name, hname, heq⟩ := hnames _ (List.mem_map_of_mem hm)
    exact JsonText.ofString_inj.mp heq ▸ hname
  · intro h
    exact ⟨_, rfl, List.forall_mem_map.mpr fun m hm => ⟨m.1, h m hm, rfl⟩⟩

theorem may_of_field? (h : v.field? name = some w) (hw : P w) : v.May name P := by
  intro w' hw'
  cases h.symm.trans hw'
  exact hw

theorem may_of_no_field (h : v.field? name = none) : v.May name P := by
  intro w hw
  cases h.symm.trans hw

theorem has_iff : v.Has name P ↔ (v.field? name).isSome ∧ v.May name P := by
  constructor
  · rintro ⟨w, hw, hP⟩
    refine ⟨by rw [hw]; rfl, fun w' hw' => ?_⟩
    rw [hw] at hw'
    cases hw'
    exact hP
  · rintro ⟨hs, hmay⟩
    obtain ⟨w, hw⟩ := Option.isSome_iff_exists.mp hs
    exact ⟨w, hw, hmay w hw⟩

/-- The value has a member of the name, if that is required, and if it has one, that has the
property. -/
def Field (required : List String) (v : Json) (name : String) (P : Json → Prop) : Prop :=
  if name ∈ required then v.Has name P else v.May name P

@[simp]
theorem field_nil : v.Field [] name P ↔ v.May name P := Iff.rfl

@[simp]
theorem field_cons_self {required : List String} :
    v.Field (name :: required) name P ↔ v.Has name P := by
  unfold Field
  rw [if_pos List.mem_cons_self]

@[simp]
theorem field_cons_ne {other : String} {required : List String} (h : name ≠ other) :
    v.Field (other :: required) name P ↔ v.Field required name P := by
  unfold Field
  simp only [List.mem_cons, h, false_or]

/-- What is required and what each member must be, told member by member. -/
theorem forall_field_iff {α : Type} {required : List String} {members : List (String × α)}
    {P : α → Json → Prop} (h : ∀ name ∈ required, name ∈ members.map Prod.fst) :
    (∀ p ∈ members, v.Field required p.1 (P p.2)) ↔
      (∀ name ∈ required, (v.field? name).isSome = true) ∧ ∀ p ∈ members, v.May p.1 (P p.2) := by
  constructor
  · intro hfields
    refine ⟨fun name hname => ?_, fun p hp => ?_⟩
    · obtain ⟨p, hp, rfl⟩ := List.mem_map.mp (h name hname)
      have hfield := hfields p hp
      unfold Field at hfield
      rw [if_pos hname] at hfield
      exact (has_iff.mp hfield).1
    · have hfield := hfields p hp
      unfold Field at hfield
      split at hfield
      · exact (has_iff.mp hfield).2
      · exact hfield
  · rintro ⟨hreq, hmay⟩ p hp
    unfold Field
    split
    · next hname => exact has_iff.mpr ⟨hreq p.1 hname, hmay p hp⟩
    · exact hmay p hp

end Json

end Moo
