import Moo.Proofs.Number.Digits

/-!
# Integer literals

An integer is written in decimal, or after a prefix in base 16, 8 or 2, with a sign before it,
single underscores between its digits and blanks around it (`Writes`). Whatever it is written as is
read as that integer by the grammar of integers alone, so nothing is rounded
(`writings_are_read_back`).
-/

namespace Moo.Number

open Moo.Text

/-! ## Writing integers -/

/-- The digits, with single underscores between some of them. -/
inductive Spaced : List Char → List Char → Prop where
  | last (c : Char) : Spaced [c] [c]
  | next (c : Char) {ds cs : List Char} : Spaced ds cs → Spaced (c :: ds) (c :: cs)
  | apart (c : Char) {ds cs : List Char} : Spaced ds cs → Spaced (c :: ds) (c :: '_' :: cs)

/-- The bases that a letter after a zero tells. -/
def baseLetters : List (Nat × Char) :=
  [(16, 'x'), (16, 'X'), (8, 'o'), (8, 'O'), (2, 'b'), (2, 'B')]

inductive WritesNat (n : Nat) : List Char → Prop where
  /-- In decimal there are no leading zeros and no more digits than are read. -/
  | decimal {cs : List Char} :
      (Nat.toDigits 10 n).length ≤ maxDecimalDigits → Spaced (Nat.toDigits 10 n) cs → WritesNat n cs
  /-- In another base there may be leading zeros, and digits of either case. -/
  | based {base zeros : Nat} {letter : Char} {ds cs : List Char} :
      (base, letter) ∈ baseLetters →
      ds.map Char.toLower = List.replicate zeros '0' ++ Nat.toDigits base n → Spaced ds cs →
      WritesNat n ('0' :: letter :: cs)

inductive Signed : Int → List Char → Prop where
  | none (n : Nat) : Signed n []
  | plus (n : Nat) : Signed n ['+']
  | minus (n : Nat) : Signed (-n) ['-']

/-- What an integer is written as. -/
inductive Writes (n : Int) : List Char → Prop where
  | mk {sign body left right : List Char} :
      Signed n sign → WritesNat n.natAbs body → (∀ c ∈ left ++ right, c = ' ' ∨ c = '\t') →
      Writes n (left ++ (sign ++ body) ++ right)

variable {base n : Nat} {c : Char} {cs ds : List Char}

/-! ## Underscores -/

namespace Spaced

theorem refl (hne : ds ≠ []) : Spaced ds ds := by
  induction ds with
  | nil => exact absurd rfl hne
  | cons d rest ih =>
    cases rest with
    | nil => exact .last d
    | cons d' rest => exact .next d (ih (List.cons_ne_nil d' rest))

theorem head (h : Spaced ds cs) : ∃ d ds' cs', ds = d :: ds' ∧ cs = d :: cs' := by
  cases h with
  | last d => exact ⟨d, [], [], rfl, rfl⟩
  | next d _ => exact ⟨d, _, _, rfl, rfl⟩
  | apart d _ => exact ⟨d, _, _, rfl, rfl⟩

theorem mem (h : Spaced ds cs) (hc : c ∈ cs) : c ∈ ds ∨ c = '_' := by
  induction h with
  | last d => exact .inl hc
  | next d _ ih =>
    rcases List.mem_cons.mp hc with rfl | hc
    · exact .inl List.mem_cons_self
    · exact (ih hc).imp_left (List.mem_cons_of_mem d)
  | apart d _ ih =>
    rcases List.mem_cons.mp hc with rfl | hc
    · exact .inl List.mem_cons_self
    · rcases List.mem_cons.mp hc with rfl | hc
      · exact .inr rfl
      · exact (ih hc).imp_left (List.mem_cons_of_mem d)

theorem digits? (h : Spaced ds cs) (hd : ∀ d ∈ ds, (digit? base d).isSome) :
    Number.digits? base cs = some (ds.map (digitValue base)) := by
  have value : ∀ {d}, (digit? base d).isSome → digit? base d = some (digitValue base d) :=
    fun hs => (Option.some_get hs).symm.trans (congrArg some (Option.get_eq_getD _))
  induction h with
  | last d =>
    rw [Number.digits?, value (hd d List.mem_cons_self)]
    rfl
  | next d h ih =>
    obtain ⟨hfirst, hrest⟩ := List.forall_mem_cons.mp hd
    obtain ⟨d', ds', cs', rfl, rfl⟩ := h.head
    have hne : d' ≠ '_' := ne_underscore_of_digit (hrest d' List.mem_cons_self)
    rw [Number.digits?, value hfirst, ih hrest]
    · rfl
    · exact List.cons_ne_nil d' cs'
    · intro r hr
      exact hne (List.cons.inj hr).1
  | apart d h ih =>
    obtain ⟨hfirst, hrest⟩ := List.forall_mem_cons.mp hd
    rw [Number.digits?, value hfirst, ih hrest]
    rfl

end Spaced

/-! ## Magnitudes -/

theorem Spaced.plain (h : Spaced ds cs) (hd : ∀ d ∈ ds, (digit? base d).isSome) : Plain cs := by
  intro c hc
  rcases h.mem hc with hc | rfl
  · exact plain_digit (hd c hc)
  · decide

theorem digit_of_mem_toDigits (hb : 1 < base) (hle : base ≤ 16)
    (h : c ∈ Nat.toDigits base n) : (digit? base c).isSome := by
  obtain ⟨d, hd, rfl⟩ := mem_toDigits hb h
  rw [digit?_digitChar hle hd]
  rfl

/-- Digits of either case, with leading zeros. -/
theorem digit_of_map_toLower {zeros : Nat} (hb : 1 < base) (hle : base ≤ 16)
    (h : ds.map Char.toLower = List.replicate zeros '0' ++ Nat.toDigits base n) :
    ∀ d ∈ ds, (digit? base d).isSome := by
  intro d hd
  rw [← digit?_toLower]
  have hmem : d.toLower ∈ List.replicate zeros '0' ++ Nat.toDigits base n := by
    rw [← h]
    exact List.mem_map_of_mem hd
  rcases List.mem_append.mp hmem with hzero | hdigit
  · rw [(List.mem_replicate.mp hzero).2, show '0' = Nat.digitChar 0 from rfl,
      digit?_digitChar hle (Nat.lt_trans Nat.zero_lt_one hb)]
    rfl
  · exact digit_of_mem_toDigits hb hle hdigit

theorem ofDigits_of_map_toLower {zeros : Nat} (hb : 1 < base) (hle : base ≤ 16)
    (h : ds.map Char.toLower = List.replicate zeros '0' ++ Nat.toDigits base n) :
    Binary64.ofDigits base (ds.map (digitValue base)) = n := by
  have hlower : ds.map (digitValue base) = (ds.map Char.toLower).map (digitValue base) := by
    rw [List.map_map]
    exact List.map_congr_left fun d _ => (digitValue_toLower base d).symm
  have hzero : digitValue base '0' = 0 := by
    unfold digitValue
    rw [show '0' = Nat.digitChar 0 from rfl, digit?_digitChar hle (Nat.lt_trans Nat.zero_lt_one hb)]
    rfl
  rw [hlower, h, List.map_append, List.map_replicate, hzero, ofDigits_zeros,
    ofDigits_digitValue hb hle]

theorem baseLetters_range {letter : Char} (h : (base, letter) ∈ baseLetters) :
    1 < base ∧ base ≤ 16 ∧ letter.val < 128 ∧ isNumberBlank letter = false := by
  have all : ∀ p ∈ baseLetters,
      1 < p.1 ∧ p.1 ≤ 16 ∧ p.2.val < 128 ∧ isNumberBlank p.2 = false := by decide
  exact all _ h

theorem magnitude?_of_baseLetter {letter : Char} (h : (base, letter) ∈ baseLetters) (cs : List Char) :
    magnitude? ('0' :: letter :: cs) = prefixed? base cs := by
  simp only [baseLetters, List.mem_cons, Prod.mk.injEq, List.not_mem_nil, or_false] at h
  obtain ⟨rfl, rfl⟩ | ⟨rfl, rfl⟩ | ⟨rfl, rfl⟩ | ⟨rfl, rfl⟩ | ⟨rfl, rfl⟩ | ⟨rfl, rfl⟩ := h <;> rfl

theorem prefixed?_of_spaced (h : Spaced ds cs) (hd : ∀ d ∈ ds, (digit? base d).isSome) :
    prefixed? base cs = some (Binary64.ofDigits base (ds.map (digitValue base))) := by
  have hdigits := h.digits? hd
  obtain ⟨d, ds', cs', rfl, rfl⟩ := h.head
  have hne : d ≠ '_' := ne_underscore_of_digit (hd d List.mem_cons_self)
  unfold prefixed?
  split
  · next rest hrest => exact absurd (List.cons.inj hrest).1 hne
  · show (Number.digits? base (d :: cs')).map _ = _
    rw [hdigits]
    rfl

namespace WritesNat

theorem magnitude? (h : WritesNat n cs) : Number.magnitude? cs = some n := by
  cases h with
  | decimal hlength hs =>
    have hd : ∀ d ∈ Nat.toDigits 10 n, (digit? 10 d).isSome := fun d hd =>
      digit_of_mem_toDigits (by decide) (by decide) hd
    have hdecimal : ∀ c ∈ cs, c.isDigit = true ∨ c = '_' := fun c hc =>
      (hs.mem hc).imp_left isDigit_of_mem_toDigits
    -- only the numeral of zero begins with a zero
    have hzero : ¬ (cs.head? = some '0' ∧ n ≠ 0) := by
      rintro ⟨hhead, hne⟩
      obtain ⟨d, ds', cs', hds, rfl⟩ := hs.head
      exact hne (head?_toDigits (by rw [hds]; exact hhead))
    rw [magnitude?_of_decimal hdecimal,
      plainDecimal?_of_digits (hs.digits? hd) (by rwa [List.length_map]),
      ofDigits_digitValue (by decide) (by decide), if_neg hzero]
  | based hletter hdigits hs =>
    obtain ⟨hb, hle, -⟩ := baseLetters_range hletter
    rw [magnitude?_of_baseLetter hletter, prefixed?_of_spaced hs (digit_of_map_toLower hb hle hdigits),
      ofDigits_of_map_toLower hb hle hdigits]

theorem plain (h : WritesNat n cs) : Plain cs := by
  cases h with
  | decimal _ hs =>
    exact hs.plain fun d hd => digit_of_mem_toDigits (by decide) (by decide) hd
  | based hletter hdigits hs =>
    obtain ⟨hb, hle, hplain⟩ := baseLetters_range hletter
    exact .cons (by decide) (.cons hplain (hs.plain (digit_of_map_toLower hb hle hdigits)))

theorem head (h : WritesNat n cs) : ∃ c rest, cs = c :: rest ∧ c.isDigit = true := by
  cases h with
  | decimal _ hs =>
    obtain ⟨d, ds', cs', hds, rfl⟩ := hs.head
    exact ⟨d, cs', rfl, isDigit_of_mem_toDigits (hds ▸ List.mem_cons_self)⟩
  | based _ _ _ => exact ⟨'0', _, rfl, rfl⟩

end WritesNat

/-! ## Integers -/

theorem Signed.integer? {z : Int} {sign body : List Char} (hs : Signed z sign)
    (hb : WritesNat z.natAbs body) : Number.integer? (sign ++ body) = some z := by
  have hvalue := hb.magnitude?
  unfold Number.integer?
  cases hs with
  | none n =>
    obtain ⟨c, rest, rfl, hc⟩ := hb.head
    have hhead : ∀ x ∈ (c :: rest).head?, x ≠ '-' ∧ x ≠ '+' := by
      rintro x ⟨⟩
      exact ⟨ne_of_isDigit hc (by decide), ne_of_isDigit hc (by decide)⟩
    rw [List.nil_append, splitSign_of_head hhead]
    show (Number.magnitude? _).map (withSign false) = _
    rw [hvalue]
    rfl
  | plus n =>
    show (Number.magnitude? body).map (withSign false) = _
    rw [hvalue]
    rfl
  | minus n =>
    show (Number.magnitude? body).map (withSign true) = _
    rw [hvalue, Int.natAbs_neg]
    rfl

theorem parse_of_integer? {s : String} {z : Int} (h : integer? (normalize s) = some z) :
    parse s = .ok z := by
  unfold parse
  simp only [h]

theorem Signed.plain {z : Int} {sign : List Char} (h : Signed z sign) : Plain sign := by
  cases h with
  | none => exact nofun
  | plus => exact .cons (by decide) nofun
  | minus => exact .cons (by decide) nofun

theorem Writes.integer? {z : Int} {s : String} (h : Writes z s.toList) :
    Number.integer? (normalize s) = some z := by
  generalize hs : s.toList = cs at h
  obtain ⟨hsign, hbody, hblank⟩ := h
  have blank : ∀ c, c = ' ' ∨ c = '\t' → isNumberBlank c = true := by
    rintro c (rfl | rfl) <;> decide
  obtain ⟨hleft, hright⟩ := List.forall_mem_append.mp hblank
  rw [normalize_of_plain hs (List.forall_mem_append.mpr ⟨hsign.plain, hbody.plain⟩)
    (fun c hc => blank c (hleft c hc)) fun c hc => blank c (hright c hc)]
  exact hsign.integer? hbody

/-! ## Main statement -/

def signOf (z : Int) : List Char := if z < 0 then ['-'] else []

theorem signed_signOf (z : Int) : Signed z (signOf z) := by
  unfold signOf
  split
  · obtain ⟨n, hn⟩ := Int.eq_ofNat_of_zero_le (a := -z) (by omega)
    obtain rfl : z = -(n : Int) := by omega
    exact .minus n
  · obtain ⟨n, rfl⟩ := Int.eq_ofNat_of_zero_le (a := z) (by omega)
    exact .none n

theorem Writes.of_body {z : Int} {body : List Char} (h : WritesNat z.natAbs body) :
    Writes z (signOf z ++ body) := by
  have hw : Writes z ([] ++ (signOf z ++ body) ++ []) := .mk (signed_signOf z) h nofun
  rwa [List.nil_append, List.append_nil] at hw

theorem numeral_eq (z : Int) : numeral z = signOf z ++ Nat.toDigits 10 z.natAbs := by
  unfold numeral signOf
  split <;> rfl

/-- An integer is written as its numeral, and as its digits in any base that a letter tells. -/
theorem writes_printed (z : Int) :
    (Legible z → Writes z (numeral z)) ∧
      ∀ base letter, (base, letter) ∈ baseLetters →
        Writes z (signOf z ++ '0' :: letter :: Nat.toDigits base z.natAbs) := by
  refine ⟨fun h => ?_, fun base letter hletter => ?_⟩
  · rw [numeral_eq]
    exact .of_body (.decimal h (.refl Nat.toDigits_ne_nil))
  · obtain ⟨hb, hle, -⟩ := baseLetters_range hletter
    have hlower : (Nat.toDigits base z.natAbs).map Char.toLower =
        List.replicate 0 '0' ++ Nat.toDigits base z.natAbs := by
      refine (List.map_congr_left fun c hc => ?_).trans (List.map_id _)
      obtain ⟨d, hd, rfl⟩ := mem_toDigits hb hc
      exact toLower_digitChar (Nat.lt_of_lt_of_le hd hle)
    exact .of_body (.based hletter hlower (.refl Nat.toDigits_ne_nil))

/-- Every integer is printed in each base, in decimal if its numeral is not too long, and whatever
an integer is written as is read as that integer. The grammar of integers takes it, so that of
decimals, which rounds, is not asked. -/
theorem writings_are_read_back (z : Int) :
    (Legible z → Writes z (numeral z)) ∧
    (∀ base letter, (base, letter) ∈ baseLetters →
      Writes z (signOf z ++ '0' :: letter :: Nat.toDigits base z.natAbs)) ∧
    ∀ s : String, Writes z s.toList → integer? (normalize s) = some z ∧ parse s = .ok z := by
  obtain ⟨hdecimal, hbased⟩ := writes_printed z
  exact ⟨hdecimal, hbased, fun s h => ⟨h.integer?, parse_of_integer? h.integer?⟩⟩

/-- No double lies at this integer. -/
theorem writings_are_read_back_beyond_doubles :
    let z : Int := -9007199254741003
    let s := " \t-0X0_20000000_00000B "
    Legible z ∧ Writes z (numeral z) ∧ parse (String.ofList (numeral z)) = .ok z ∧
      Writes z s.toList ∧ integer? (normalize s) = some z ∧ parse s = .ok z := by
  intro z s
  have hz : Legible z := by
    unfold Legible
    decide
  let ds := ['0', '2', '0', '0', '0', '0', '0', '0', '0', '0', '0', '0', '0', '0', 'B']
  let cs := ['0', '_', '2', '0', '0', '0', '0', '0', '0', '0', '_', '0', '0', '0', '0', '0', 'B']
  have hspaced : Spaced ds cs :=
    .apart _ (.next _ (.next _ (.next _ (.next _ (.next _ (.next _ (.next _
      (.apart _ (.refl nofun)))))))))
  have hletter : (16, 'X') ∈ baseLetters := by decide
  have hdigits : ds.map Char.toLower =
      List.replicate 1 '0' ++ Nat.toDigits 16 9007199254741003 := by decide
  have htext : s.toList = [' ', '\t'] ++ (['-'] ++ '0' :: 'X' :: cs) ++ [' '] := by simp [s, cs]
  have hs : Writes z s.toList :=
    htext ▸ .mk (.minus 9007199254741003) (.based hletter hdigits hspaced) (by simp)
  have h := writings_are_read_back z
  have hnumeral := h.1 hz
  refine ⟨hz, hnumeral, ?_, hs, h.2.2 s hs⟩
  exact (h.2.2 _ (by rw [String.toList_ofList]; exact hnumeral)).2

end Moo.Number
