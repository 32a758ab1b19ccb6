import Moo.Proofs.Number.Legible

/-!
# Digits and plain texts

A digit of a base up to 16 is told by its code point (`digit?_eq`), in either case alike, and the
digits of a number have the value of that number (`ofDigits_digitValue`). Of a text of ASCII
characters nothing but blanks around it is stripped (`normalize_of_plain`).
-/

namespace Moo.Number

open Moo.Text

/-! ## Digits -/

variable {base n : Nat} {c : Char} {cs : List Char}

theorem char_le_iff (a b : Char) : a ≤ b ↔ a.toNat ≤ b.toNat := by
  rw [Char.le_def, UInt32.le_iff_toNat_le]
  rfl

theorem toNat_toLower (c : Char) :
    c.toLower.toNat = if 65 ≤ c.toNat ∧ c.toNat ≤ 90 then c.toNat + 32 else c.toNat := by
  unfold Char.toLower
  simp only [ge_iff_le, UInt32.le_iff_toNat_le]
  split
  · next h =>
    have hc : 65 ≤ c.toNat ∧ c.toNat ≤ 90 := h
    rw [if_pos hc]
    show (c.val.toNat + 32) % 4294967296 = c.val.toNat + 32
    have hval : c.val.toNat = c.toNat := rfl
    omega
  · next h => exact (if_neg h).symm

theorem digit?_eq (base : Nat) (c : Char) :
    digit? base c =
      let value :=
        if 48 ≤ c.toNat ∧ c.toNat ≤ 57 then c.toNat - 48
        else if 97 ≤ c.toNat ∧ c.toNat ≤ 122 then c.toNat - 87
        else if 65 ≤ c.toNat ∧ c.toNat ≤ 90 then c.toNat - 55
        else base
      if value < base then some value else none := by
  simp only [digit?, Char.isDigit_iff_toNat, char_le_iff, Char.reduceToNat]

theorem digit?_toLower (base : Nat) (c : Char) : digit? base c.toLower = digit? base c := by
  simp only [digit?_eq, toNat_toLower]
  split <;> grind

theorem digit?_digitChar {d : Nat} (hb : base ≤ 16) (h : d < base) :
    digit? base d.digitChar = some d := by
  have small : ∀ base ≤ 16, ∀ d < base, digit? base d.digitChar = some d := by decide
  exact small base hb d h

theorem toLower_digitChar {d : Nat} (h : d < 16) : d.digitChar.toLower = d.digitChar := by
  have small : ∀ d < 16, d.digitChar.toLower = d.digitChar := by decide
  exact small d h

theorem toNat_of_digit (h : (digit? base c).isSome) :
    48 ≤ c.toNat ∧ c.toNat ≤ 57 ∨ 65 ≤ c.toNat ∧ c.toNat ≤ 90 ∨ 97 ≤ c.toNat ∧ c.toNat ≤ 122 := by
  rw [digit?_eq] at h
  grind

theorem ne_underscore_of_digit (h : (digit? base c).isSome) : c ≠ '_' := by
  rintro rfl
  have hc := toNat_of_digit h
  simp at hc

theorem mem_toDigits (hb : 1 < base) (h : c ∈ Nat.toDigits base n) :
    ∃ d < base, c = d.digitChar := by
  induction n using Nat.strongRecOn with
  | ind n ih =>
    rw [Nat.toDigits_eq_if hb] at h
    split at h
    · next hn => exact ⟨n, hn, List.mem_singleton.mp h⟩
    · next hn =>
      rcases List.mem_append.mp h with h | h
      · exact ih (n / base) (Nat.div_lt_self (by omega) hb) h
      · exact ⟨n % base, Nat.mod_lt n (by omega), List.mem_singleton.mp h⟩

def digitValue (base : Nat) (c : Char) : Nat := (digit? base c).getD 0

theorem digitValue_toLower (base : Nat) (c : Char) :
    digitValue base c.toLower = digitValue base c := by
  unfold digitValue
  rw [digit?_toLower]

theorem ofDigits_append_singleton (base : Nat) (ds : List Nat) (d : Nat) :
    Binary64.ofDigits base (ds ++ [d]) = Binary64.ofDigits base ds * base + d :=
  List.foldl_append

theorem ofDigits_zeros (base zeros : Nat) (ds : List Nat) :
    Binary64.ofDigits base (List.replicate zeros 0 ++ ds) = Binary64.ofDigits base ds := by
  induction zeros with
  | zero => rfl
  | succ zeros ih =>
    rw [List.replicate_succ, List.cons_append, ← ih]
    show List.foldl _ (0 * base + 0) _ = _
    rw [Nat.zero_mul]
    rfl

theorem ofDigits_digitValue (hb : 1 < base) (hle : base ≤ 16) (n : Nat) :
    Binary64.ofDigits base ((Nat.toDigits base n).map (digitValue base)) = n := by
  have value : ∀ {d}, d < base → digitValue base d.digitChar = d := fun hd => by
    unfold digitValue
    rw [digit?_digitChar hle hd]
    rfl
  induction n using Nat.strongRecOn with
  | ind n ih =>
    rw [Nat.toDigits_eq_if hb]
    split
    · next hn =>
      show 0 * base + digitValue base n.digitChar = n
      rw [value hn, Nat.zero_mul, Nat.zero_add]
    · next hn =>
      rw [List.map_append, List.map_singleton, ofDigits_append_singleton,
        ih (n / base) (Nat.div_lt_self (by omega) hb), value (Nat.mod_lt n (by omega)),
        Nat.div_add_mod']

/-! ## Plain texts -/

/-- Every character is ASCII and none is stripped. -/
def Plain (cs : List Char) : Prop := ∀ c ∈ cs, c.val < 128 ∧ isNumberBlank c = false

theorem Plain.cons (hc : c.val < 128 ∧ isNumberBlank c = false) (h : Plain cs) : Plain (c :: cs) :=
  List.forall_mem_cons.mpr ⟨hc, h⟩

theorem plain_digit (h : (digit? base c).isSome) : c.val < 128 ∧ isNumberBlank c = false := by
  have hc := toNat_of_digit h
  have hlt : c.val < 128 := by
    rw [UInt32.lt_iff_toNat_lt]
    show c.toNat < 128
    omega
  refine ⟨hlt, ?_⟩
  have hspace : c ≠ ' ' := by
    rintro rfl
    simp at hc
  have hcontrol : ¬ c.val ≤ 13 := by
    rw [UInt32.le_iff_toNat_le]
    show ¬ c.toNat ≤ 13
    omega
  unfold isNumberBlank
  rw [if_pos hlt]
  simp [hspace, hcontrol]

theorem normalize_of_plain {body left right : List Char} {s : String}
    (hs : s.toList = left ++ body ++ right) (hbody : Plain body)
    (hleft : ∀ c ∈ left, isNumberBlank c = true) (hright : ∀ c ∈ right, isNumberBlank c = true) :
    normalize s = body := by
  have hstrip : stripBy isNumberBlank s.toList = body :=
    stripBy_eq_iff.mpr ⟨⟨left, right, hs, hleft, hright⟩,
      fun c hc => (hbody c (List.mem_of_head? hc)).2,
      fun c hc => (hbody c (List.mem_of_getLast? hc)).2⟩
  unfold normalize
  rw [hstrip, foldDigits_of_ascii fun c hc => (hbody c hc).1]

end Moo.Number
