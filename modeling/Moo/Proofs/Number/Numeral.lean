import Moo.Number.Literal
import Moo.Proofs.Text.Line

/-!
# Reading numerals back

The decimal numeral of an integer, unless it has more digits than are read exactly, is read as that
integer (`parse_numeral`).
-/

namespace Moo.Number

open Moo.Text

/-! ## Digits -/

theorem isDigit_of_mem_toDigits {n : Nat} {c : Char} (h : c ∈ Nat.toDigits 10 n) :
    c.isDigit = true := Nat.isDigit_of_mem_toDigits (by decide) (by decide) h

theorem isDigit_toNat {c : Char} (h : c.isDigit = true) : 48 ≤ c.toNat ∧ c.toNat ≤ 57 := by
  simp only [Char.isDigit, Bool.and_eq_true, decide_eq_true_eq, UInt32.le_iff_toNat_le] at h
  exact h

theorem val_lt_of_isDigit {c : Char} (h : c.isDigit = true) : c.val < 128 := by
  have hc := isDigit_toNat h
  rw [UInt32.lt_iff_toNat_lt]
  show c.toNat < 128
  omega

theorem digit?_of_isDigit {c : Char} (h : c.isDigit = true) :
    digit? 10 c = some (c.toNat - 48) := by
  have hc := isDigit_toNat h
  unfold digit?
  rw [if_pos h]
  exact if_pos (by omega)

theorem ne_of_isDigit {c x : Char} (h : c.isDigit = true) (hx : x.isDigit = false) : c ≠ x := by
  rintro rfl
  rw [h] at hx
  cases hx

theorem isNumberBlank_of_isDigit {c : Char} (h : c.isDigit = true) : isNumberBlank c = false := by
  have hc := isDigit_toNat h
  have hv := val_lt_of_isDigit h
  have hle : ¬ c.val ≤ 13 := by
    rw [UInt32.le_iff_toNat_le]
    show ¬ c.toNat ≤ 13
    omega
  unfold isNumberBlank
  rw [if_pos hv]
  simp [ne_of_isDigit h (x := ' ') (by decide), hle]

theorem foldDigits_of_ascii {cs : List Char} (h : ∀ c ∈ cs, c.val < 128) : foldDigits cs = cs := by
  unfold foldDigits
  refine (List.map_congr_left fun c hc => ?_).trans (List.map_id cs)
  unfold decimal?
  rw [if_pos (h c hc)]
  cases hd : c.isDigit with
  | false => rfl
  | true =>
    have hn := isDigit_toNat hd
    show Char.ofNat (48 + (c.toNat - 48)) = c
    rw [Nat.add_sub_cancel' hn.1]
    exact Char.ofNat_toNat c

/-! ## Runs of digits -/

theorem digits?_of_isDigit {cs : List Char} (hne : cs ≠ []) (h : ∀ c ∈ cs, c.isDigit = true) :
    digits? 10 cs = some (cs.map fun c => c.toNat - 48) := by
  induction cs with
  | nil => exact absurd rfl hne
  | cons c rest ih =>
    obtain ⟨hc, hrest⟩ := List.forall_mem_cons.mp h
    cases rest with
    | nil =>
      rw [digits?, digit?_of_isDigit hc]
      rfl
    | cons c' rest =>
      have hc' : c' ≠ '_' := ne_of_isDigit (hrest c' List.mem_cons_self) (by decide)
      rw [digits?, digit?_of_isDigit hc, ih (List.cons_ne_nil c' rest) hrest]
      · rfl
      · exact List.cons_ne_nil c' rest
      · intro r hr
        exact hc' (List.cons.inj hr).1

theorem ofDigits_toDigits (n : Nat) :
    Binary64.ofDigits 10 ((Nat.toDigits 10 n).map fun c => c.toNat - 48) = n := by
  have hfold : Binary64.ofDigits 10 ((Nat.toDigits 10 n).map fun c => c.toNat - 48) =
      Nat.ofDigitChars 10 (Nat.toDigits 10 n) 0 := by
    rw [Nat.ofDigitChars_eq_foldl, Binary64.ofDigits, List.foldl_map]
    simp only [Nat.mul_comm]
    rfl
  rw [hfold]
  exact Nat.ofDigitChars_ten_toDigits

theorem head?_toDigits {n : Nat} (h : (Nat.toDigits 10 n).head? = some '0') : n = 0 := by
  induction n using Nat.strongRecOn with
  | ind n ih =>
    rw [Nat.toDigits_eq_if (by decide)] at h
    split at h
    · simpa using h
    · next hn =>
      rw [List.head?_append, Option.or_eq_some_iff, List.head?_eq_none_iff] at h
      rcases h with h | h
      -- the digits but the last are those of a tenth, which is not zero here
      · have hdiv := ih (n / 10) (by omega) h
        omega
      · exact absurd h.1 Nat.toDigits_ne_nil

/-! ## Literals -/

variable {cs : List Char}

/-- A run of digits that is not too long is a decimal literal, but with a zero first only if it is
zero. -/
theorem plainDecimal?_of_digits {ds : List Nat} (hds : digits? 10 cs = some ds)
    (hlength : ds.length ≤ maxDecimalDigits) :
    plainDecimal? cs =
      if cs.head? = some '0' ∧ Binary64.ofDigits 10 ds ≠ 0 then none
      else some (Binary64.ofDigits 10 ds) := by
  unfold plainDecimal? decimalDigits?
  rw [hds, Option.filter_some, if_pos (decide_eq_true hlength)]
  rfl

theorem plainDecimal?_toDigits {n : Nat} (h : (Nat.toDigits 10 n).length ≤ maxDecimalDigits) :
    plainDecimal? (Nat.toDigits 10 n) = some n := by
  have hds := digits?_of_isDigit (Nat.toDigits_ne_nil (n := n) (b := 10)) fun c hc =>
    isDigit_of_mem_toDigits hc
  rw [plainDecimal?_of_digits hds (by rwa [List.length_map]), ofDigits_toDigits, if_neg]
  rintro ⟨hhead, hne⟩
  exact hne (head?_toDigits hhead)

theorem magnitude?_of_decimal (h : ∀ c ∈ cs, c.isDigit = true ∨ c = '_') :
    magnitude? cs = plainDecimal? cs := by
  have hsecond : ∀ x rest, cs = '0' :: x :: rest → x.isDigit = true ∨ x = '_' := by
    rintro x rest rfl
    exact h x (by simp)
  unfold magnitude?
  split
  all_goals first
    | rfl
    | exact absurd (hsecond _ _ rfl) (by decide)

theorem splitSign_of_head (h : ∀ c ∈ cs.head?, c ≠ '-' ∧ c ≠ '+') : splitSign cs = (false, cs) := by
  unfold splitSign
  split
  · exact absurd rfl (h '-' rfl).1
  · exact absurd rfl (h '+' rfl).2
  · rfl

theorem splitSign_of_isDigit (h : ∀ c ∈ cs, c.isDigit = true) : splitSign cs = (false, cs) :=
  splitSign_of_head fun c hc =>
    have hd := h c (List.mem_of_head? hc)
    ⟨ne_of_isDigit hd (by decide), ne_of_isDigit hd (by decide)⟩

theorem integer?_toDigits {n : Nat} (h : (Nat.toDigits 10 n).length ≤ maxDecimalDigits) :
    integer? (Nat.toDigits 10 n) = some (n : Int) := by
  have hdigit : ∀ c ∈ Nat.toDigits 10 n, c.isDigit = true := fun c hc => isDigit_of_mem_toDigits hc
  unfold integer?
  rw [splitSign_of_isDigit hdigit]
  show (magnitude? _).map (withSign false) = _
  rw [magnitude?_of_decimal fun c hc => .inl (hdigit c hc), plainDecimal?_toDigits h]
  rfl

theorem integer?_minus_toDigits {n : Nat} (h : (Nat.toDigits 10 n).length ≤ maxDecimalDigits) :
    integer? ('-' :: Nat.toDigits 10 n) = some (-(n : Int)) := by
  have hdigit : ∀ c ∈ Nat.toDigits 10 n, c.isDigit = true := fun c hc => isDigit_of_mem_toDigits hc
  show (magnitude? (Nat.toDigits 10 n)).map (withSign true) = _
  rw [magnitude?_of_decimal fun c hc => .inl (hdigit c hc), plainDecimal?_toDigits h]
  rfl

/-! ## Numerals -/

/-- The characters of a numeral: digits, after a minus if the number is negative. -/
def numeral (n : Int) : List Char :=
  if n < 0 then '-' :: Nat.toDigits 10 n.natAbs else Nat.toDigits 10 n.natAbs

theorem toList_toString_int (n : Int) : (toString n).toList = numeral n := by
  unfold numeral
  cases n with
  | ofNat n =>
    have hn : ¬ Int.ofNat n < 0 := Int.not_lt.mpr (Int.natCast_nonneg n)
    rw [if_neg hn]
    show (Nat.repr n).toList = _
    rw [Nat.toList_repr]
    rfl
  | negSucc n =>
    rw [if_pos (Int.negSucc_lt_zero n)]
    show ("-" ++ Nat.repr (n + 1)).toList = _
    rw [String.toList_append, Nat.toList_repr]
    rfl

theorem mem_numeral {n : Int} {c : Char} (h : c ∈ numeral n) : c.isDigit = true ∨ c = '-' := by
  unfold numeral at h
  split at h
  · rcases List.mem_cons.mp h with h | h
    · exact .inr h
    · exact .inl (isDigit_of_mem_toDigits h)
  · exact .inl (isDigit_of_mem_toDigits h)

theorem integer?_numeral {n : Int}
    (h : (Nat.toDigits 10 n.natAbs).length ≤ maxDecimalDigits) : integer? (numeral n) = some n := by
  unfold numeral
  split
  · rw [integer?_minus_toDigits h]
    congr 1
    omega
  · rw [integer?_toDigits h]
    congr 1
    omega

theorem normalize_numeral (n : Int) : normalize (String.ofList (numeral n)) = numeral n := by
  have hblank : ∀ c ∈ numeral n, isNumberBlank c = false := by
    intro c hc
    rcases mem_numeral hc with hd | rfl
    · exact isNumberBlank_of_isDigit hd
    · decide
  have hascii : ∀ c ∈ numeral n, c.val < 128 := by
    intro c hc
    rcases mem_numeral hc with hd | rfl
    · exact val_lt_of_isDigit hd
    · decide
  unfold normalize
  rw [String.toList_ofList, stripBy_of_none hblank, foldDigits_of_ascii hascii]

theorem parse_numeral {n : Int} (h : (Nat.toDigits 10 n.natAbs).length ≤ maxDecimalDigits) :
    parse (String.ofList (numeral n)) = .ok n := by
  unfold parse
  simp only [normalize_numeral, integer?_numeral h]

end Moo.Number
