import Moo.Proofs.Number.Literal

/-!
# Signs

A double has an opposite, and a decimal with a minus is rounded to the opposite of what it is
rounded to without (`Binary64.ofDecimal_not`). So a minus before a text that has no sign negates
whatever the text is read as, and a plus changes nothing (`sign_is_symmetric`), whichever grammar
takes the text.
-/

namespace Moo

namespace Binary64

def opposite : Binary64 → Binary64
  | .nan => .nan
  | .infinite negative => .infinite (!negative)
  | .finite negative significand unit => .finite (!negative) significand unit

theorem truncate?_finite (negative : Bool) (significand unit : Nat) :
    (finite negative significand unit).truncate? =
      some (if negative then -((scaled significand unit : Int) / scale)
        else (scaled significand unit : Int) / scale) := by
  unfold truncate?
  rfl

theorem truncate?_opposite (x : Binary64) : x.opposite.truncate? = x.truncate?.map (- ·) := by
  cases x with
  | nan => rfl
  | infinite negative => rfl
  | finite negative significand unit =>
    rw [opposite, truncate?_finite, truncate?_finite]
    generalize (scaled significand unit : Int) / scale = n
    cases negative <;> simp

theorem fit_not (negative : Bool) (significand unit : Nat) :
    fit (!negative) significand unit = (fit negative significand unit).opposite := by
  unfold fit
  split <;> rfl

theorem carry_not (negative : Bool) (significand unit : Nat) :
    carry (!negative) significand unit = (carry negative significand unit).opposite := by
  unfold carry
  split <;> exact fit_not negative _ _

theorem ofRatio_not (negative : Bool) (num den : Nat) :
    ofRatio (!negative) num den = (ofRatio negative num den).opposite := by
  unfold ofRatio
  exact carry_not negative _ _

theorem ofDecimal_not (negative : Bool) (digits : List Nat) (exponent : Int) :
    ofDecimal (!negative) digits exponent = (ofDecimal negative digits exponent).opposite := by
  unfold ofDecimal
  dsimp only
  split
  · rfl
  · split
    · rfl
    · split <;> exact ofRatio_not negative _ _

end Binary64

namespace Number

open Moo.Text

variable {sign c : Char} {cs : List Char}

/-! ## Signs before a text -/

def Unsigned (cs : List Char) : Prop := ∀ c ∈ cs.head?, c ≠ '-' ∧ c ≠ '+'

theorem integer?_minus (h : Unsigned cs) : integer? ('-' :: cs) = (integer? cs).map (- ·) := by
  unfold integer?
  rw [splitSign_of_head h]
  show (magnitude? cs).map (withSign true) = ((magnitude? cs).map (withSign false)).map _
  rw [Option.map_map]
  rfl

theorem integer?_plus (h : Unsigned cs) : integer? ('+' :: cs) = integer? cs := by
  unfold integer?
  rw [splitSign_of_head h]
  rfl

theorem double?_minus (h : Unsigned cs) :
    double? ('-' :: cs) = (double? cs).map Binary64.opposite := by
  have hminus : splitSign ('-' :: cs) = (true, cs) := rfl
  unfold double?
  rw [splitSign_of_head h, hminus]
  dsimp only
  split
  · rfl
  · split
    · rfl
    · rw [Option.map_map]
      exact congrArg (Option.map · _) (funext fun (ds, e) => Binary64.ofDecimal_not false ds e)

theorem double?_plus (h : Unsigned cs) : double? ('+' :: cs) = double? cs := by
  unfold double?
  rw [splitSign_of_head h]
  rfl

/-! ## Normal forms -/

theorem decimal?_lt {d : Nat} (h : decimal? c = some d) : d < 10 := by
  unfold decimal? at h
  split at h
  · split at h
    · next hc =>
      cases h
      have := isDigit_toNat hc
      omega
    · cases h
  · obtain ⟨z, hz, rfl⟩ := Option.map_eq_some_iff.mp h
    have hrange := List.find?_some hz
    simp only [Bool.and_eq_true, decide_eq_true_eq] at hrange
    omega

theorem unsigned_foldDigits (h : Unsigned cs) : Unsigned (foldDigits cs) := by
  cases cs with
  | nil => exact nofun
  | cons c rest =>
    rintro x ⟨⟩
    dsimp only
    cases hd : decimal? c with
    | none => exact h c rfl
    | some d =>
      have small : ∀ d < 10, Char.ofNat (48 + d) ≠ '-' ∧ Char.ofNat (48 + d) ≠ '+' := by decide
      exact small d (decimal?_lt hd)

theorem stripBy_of_head {p : Char → Bool} (h : ∀ c ∈ cs.head?, p c = false) :
    stripBy p cs = dropWhileEnd p cs := by
  unfold stripBy
  rw [dropWhile_of_head h]

theorem dropWhileEnd_cons {p : Char → Bool} (h : p c = false) :
    dropWhileEnd p (c :: cs) = c :: dropWhileEnd p cs := by
  obtain ⟨⟨v, hv, hall⟩, hlast⟩ := dropWhileEnd_eq_iff.mp (rfl : dropWhileEnd p cs = _)
  refine dropWhileEnd_eq_iff.mpr ⟨⟨v, congrArg (c :: ·) hv, hall⟩, fun x hx => ?_⟩
  rw [List.getLast?_cons] at hx
  cases hl : (dropWhileEnd p cs).getLast? with
  | none =>
    rw [hl] at hx
    cases hx
    exact h
  | some y =>
    rw [hl] at hx
    cases hx
    exact hlast _ hl

theorem unsigned_normalize {s : String} (hblank : ∀ c ∈ s.toList.head?, isNumberBlank c = false)
    (h : Unsigned s.toList) : Unsigned (normalize s) := by
  refine unsigned_foldDigits ?_
  rw [stripBy_of_head hblank]
  cases hs : s.toList with
  | nil => exact nofun
  | cons c rest =>
    rw [hs] at hblank h
    rw [dropWhileEnd_cons (hblank c rfl)]
    exact h

theorem normalize_cons {s t : String} (ht : t.toList = sign :: s.toList)
    (hsign : sign.val < 128 ∧ sign.isDigit = false ∧ isNumberBlank sign = false)
    (hblank : ∀ c ∈ s.toList.head?, isNumberBlank c = false) : normalize t = sign :: normalize s := by
  obtain ⟨hascii, hdigit, hno⟩ := hsign
  have hfirst : ∀ c ∈ (sign :: s.toList).head?, isNumberBlank c = false := by
    rintro c ⟨⟩
    exact hno
  have hdecimal : decimal? sign = none := by
    unfold decimal?
    rw [if_pos hascii, hdigit]
    rfl
  unfold normalize
  rw [ht, stripBy_of_head hfirst, stripBy_of_head hblank, dropWhileEnd_cons hno]
  unfold foldDigits
  rw [List.map_cons, hdecimal]

/-! ## Main statement -/

theorem ok_of_toOption {r : Except LiteralError Int} {n : Int} (h : r.toOption = some n) :
    r = .ok n := by
  cases r with
  | ok m =>
    cases h
    rfl
  | error e => cases h

/-- A text that begins with no blank and with no sign is read as some number just if it is with a
plus before it, as the same, and just if it is with a minus before it, as the opposite. If it is
refused, then for the same reason. -/
theorem sign_is_symmetric (s : String) (hblank : ∀ c ∈ s.toList.head?, isNumberBlank c = false)
    (hsign : ∀ c ∈ s.toList.head?, c ≠ '-' ∧ c ≠ '+') :
    parse ("+" ++ s) = parse s ∧ parse ("-" ++ s) = (parse s).map (- ·) := by
  have hu : Unsigned (normalize s) := unsigned_normalize hblank hsign
  have hplus : normalize ("+" ++ s) = '+' :: normalize s :=
    normalize_cons (by rw [String.toList_append]; rfl) (by decide) hblank
  have hminus : normalize ("-" ++ s) = '-' :: normalize s :=
    normalize_cons (by rw [String.toList_append]; rfl) (by decide) hblank
  constructor
  · unfold parse
    simp only [hplus, integer?_plus hu, double?_plus hu]
  · unfold parse
    simp only [hminus, integer?_minus hu, double?_minus hu]
    cases integer? (normalize s) with
    | some z => rfl
    | none =>
      -- only a text that is no integer is asked for as a decimal
      cases double? (normalize s) with
      | none => rfl
      | some x =>
        simp only [Option.map_some, Option.map_none, Binary64.truncate?_opposite]
        cases x.truncate? <;> rfl

/-- With a zero of another script in front the text is no integer, and the tie between two doubles
goes to the even one with either sign. -/
theorem sign_is_symmetric_rounded :
    let s := "٠9_007199254740993e0"
    (∀ c ∈ s.toList.head?, isNumberBlank c = false) ∧ (∀ c ∈ s.toList.head?, c ≠ '-' ∧ c ≠ '+') ∧
      parse s = .ok 9007199254740992 ∧ parse ("+" ++ s) = .ok 9007199254740992 ∧
      parse ("-" ++ s) = .ok (-9007199254740992) := by
  intro s
  have hhead : s.toList.head? = some (Char.ofNat 0x660) := by decide
  have hblank : ∀ c ∈ s.toList.head?, isNumberBlank c = false := by
    rw [hhead]
    rintro c ⟨⟩
    decide
  have hsign : ∀ c ∈ s.toList.head?, c ≠ '-' ∧ c ≠ '+' := by
    rw [hhead]
    rintro c ⟨⟩
    decide
  have hparse : parse s = .ok 9007199254740992 := ok_of_toOption (by decide +kernel)
  obtain ⟨hplus, hminus⟩ := sign_is_symmetric s hblank hsign
  refine ⟨hblank, hsign, hparse, ?_, ?_⟩
  · rw [hplus, hparse]
  · rw [hminus, hparse]
    rfl

end Number

end Moo
