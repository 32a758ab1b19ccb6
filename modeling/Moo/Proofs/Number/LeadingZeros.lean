import Mathlib.Data.List.TakeWhile
import Moo.Proofs.Device.Typed
import Moo.Proofs.Machine.Turn
import Moo.Proofs.Number.Digits
import Moo.Proofs.Number.Rounding

/-!
# Leading zeros

The grammar of integers takes no decimal numeral with a zero before it but that of zero. Such a text
is read as a decimal and so as the nearest double (`parse_padded`): as the number that it is the
numeral of, if that is a double, and else as another number or as none (`leading_zeros`).
-/

namespace Moo

namespace Number

open Moo.Text

variable {cs : List Char} {c : Char} {zeros n : Nat}

/-! ## Digits as decimals -/

theorem splitAt_of_none {p : Char → Bool} (h : ∀ c ∈ cs, p c = false) : splitAt p cs = (cs, none) := by
  have hall : cs.dropWhile (fun c => !p c) = [] :=
    List.dropWhile_eq_nil_iff.mpr fun c hc => by rw [h c hc]; rfl
  unfold splitAt
  rw [hall]

theorem scientific?_of_isDigit (hne : cs ≠ []) (h : ∀ c ∈ cs, c.isDigit = true) :
    scientific? cs = some (cs.map fun c => c.toNat - 48, 0) := by
  have hpower : splitAt (fun c => c == 'e' || c == 'E') cs = (cs, none) := by
    refine splitAt_of_none fun c hc => ?_
    simp [ne_of_isDigit (h c hc) (x := 'e') (by decide),
      ne_of_isDigit (h c hc) (x := 'E') (by decide)]
  have hpoint : splitAt (· == '.') cs = (cs, none) := by
    refine splitAt_of_none fun c hc => ?_
    simp [ne_of_isDigit (h c hc) (x := '.') (by decide)]
  have hempty : cs.isEmpty = false := List.isEmpty_eq_false_iff.mpr hne
  have hwhole : digitsOrEmpty? 10 cs = some (cs.map fun c => c.toNat - 48) := by
    unfold digitsOrEmpty?
    rw [hempty]
    exact digits?_of_isDigit hne h
  unfold scientific?
  rw [hpower]
  dsimp only
  rw [hpoint]
  dsimp only
  rw [hempty, hwhole]
  simp [digitsOrEmpty?]

theorem double?_of_isDigit (hne : cs ≠ []) (h : ∀ c ∈ cs, c.isDigit = true) :
    double? cs = some (Binary64.ofDecimal false (cs.map fun c => c.toNat - 48) 0) := by
  have hlower : cs.map Char.toLower = cs := by
    refine (List.map_congr_left fun c hc => ?_).trans (List.map_id cs)
    have hdigit := isDigit_toNat (h c hc)
    refine Char.toNat_inj.mp ?_
    rw [toNat_toLower, if_neg (by omega)]
    rfl
  have hword : ∀ word : String, (∃ x ∈ word.toList, x.isDigit = false) →
      String.ofList (cs.map Char.toLower) ≠ word := by
    rintro word ⟨x, hx, hdigit⟩ rfl
    rw [String.toList_ofList, hlower] at hx
    rw [h x hx] at hdigit
    cases hdigit
  unfold double?
  rw [splitSign_of_isDigit h]
  dsimp only
  rw [if_neg (not_or.mpr ⟨hword "inf" ⟨'i', by decide, by decide⟩,
      hword "infinity" ⟨'i', by decide, by decide⟩⟩),
    if_neg (hword "nan" ⟨'n', by decide, by decide⟩), scientific?_of_isDigit hne h]
  rfl

/-! ## Numerals with zeros before them -/

def padded (zeros n : Nat) : List Char := List.replicate zeros '0' ++ Nat.toDigits 10 n

theorem isDigit_of_mem_padded (h : c ∈ padded zeros n) : c.isDigit = true := by
  rcases List.mem_append.mp h with h | h
  · rw [(List.mem_replicate.mp h).2]
    rfl
  · exact isDigit_of_mem_toDigits h

theorem padded_ne_nil : padded zeros n ≠ [] := List.append_ne_nil_of_right_ne_nil _ Nat.toDigits_ne_nil

theorem padded_values :
    (padded zeros n).map (fun c => c.toNat - 48) =
      List.replicate zeros 0 ++ (Nat.toDigits 10 n).map fun c => c.toNat - 48 := by
  unfold padded
  rw [List.map_append, List.map_replicate]
  rfl

theorem ofDigits_padded :
    Binary64.ofDigits 10 ((padded zeros n).map fun c => c.toNat - 48) = n := by
  rw [padded_values, ofDigits_zeros, ofDigits_toDigits]

theorem normalize_padded : normalize (String.ofList (padded zeros n)) = padded zeros n := by
  unfold normalize
  rw [String.toList_ofList, stripBy_of_none fun c hc =>
      isNumberBlank_of_isDigit (isDigit_of_mem_padded hc),
    foldDigits_of_ascii fun c hc => val_lt_of_isDigit (isDigit_of_mem_padded hc)]

theorem significantDigits_padded (hn : n ≠ 0) :
    Binary64.significantDigits ((padded zeros n).map fun c => c.toNat - 48) =
      (Nat.toDigits 10 n).length := by
  rw [padded_values]
  induction zeros with
  | zero =>
    -- the first digit of a numeral is no zero
    obtain ⟨c, rest, hc⟩ := List.exists_cons_of_ne_nil (Nat.toDigits_ne_nil (n := n) (b := 10))
    have hdigit := isDigit_toNat (isDigit_of_mem_toDigits (hc ▸ List.mem_cons_self))
    have hne : c ≠ '0' := by
      rintro rfl
      exact hn (head?_toDigits (by rw [hc]; rfl))
    have hvalue : c.toNat - 48 ≠ 0 := by
      intro h
      exact hne (Char.toNat_inj.mp (show c.toNat = 48 by omega))
    rw [hc, List.replicate_zero, List.nil_append, List.map_cons, Binary64.significantDigits,
      if_neg hvalue, List.length_map, List.length_cons]
  | succ zeros ih => exact ih

/-- With zeros before it only zero is an integer literal. -/
theorem integer?_padded (h : zeros + (Nat.toDigits 10 n).length ≤ maxDecimalDigits) :
    integer? (padded zeros n) = if 0 < zeros ∧ n ≠ 0 then none else some (n : Int) := by
  have hdigit : ∀ c ∈ padded zeros n, c.isDigit = true := fun c hc => isDigit_of_mem_padded hc
  have hlength : ((padded zeros n).map fun c => c.toNat - 48).length ≤ maxDecimalDigits := by
    rw [List.length_map, padded, List.length_append, List.length_replicate]
    exact h
  have hhead : ((padded zeros n).head? = some '0' ∧ n ≠ 0) ↔ 0 < zeros ∧ n ≠ 0 := by
    refine and_congr_left fun hn => ?_
    cases zeros with
    | zero => exact iff_of_false (fun hc => hn (head?_toDigits hc)) (Nat.lt_irrefl 0)
    | succ zeros => exact iff_of_true rfl (Nat.succ_pos zeros)
  have hplain : plainDecimal? (padded zeros n) = if 0 < zeros ∧ n ≠ 0 then none else some n := by
    rw [plainDecimal?_of_digits (digits?_of_isDigit padded_ne_nil hdigit) hlength, ofDigits_padded]
    exact if_congr hhead rfl rfl
  unfold integer?
  rw [splitSign_of_isDigit hdigit]
  show (magnitude? _).map (withSign false) = _
  rw [magnitude?_of_decimal fun c hc => .inl (hdigit c hc), hplain, apply_ite (Option.map _)]
  rfl

/-- A natural number with more than 310 digits is beyond all doubles. -/
theorem overflow_le_of_length (h : 310 < (Nat.toDigits 10 n).length) : Binary64.overflow ≤ n := by
  obtain ⟨k, hk, hpower⟩ : ∃ k, k = 310 ∧ Binary64.overflow ≤ Nat.pow 10 k :=
    ⟨310, rfl, by decide +kernel⟩
  have hdigits : ¬ (Nat.toDigits 10 n).length ≤ k := by omega
  rw [length_toDigits_le_iff (by omega)] at hdigits
  exact Nat.le_trans hpower (Nat.le_of_not_lt hdigits)

theorem truncate?_padded (hn : n ≠ 0) :
    (Binary64.ofDecimal false ((padded zeros n).map fun c => c.toNat - 48) 0).truncate? =
      if n < Binary64.overflow then some (Binary64.rounded n : Int) else none := by
  unfold Binary64.ofDecimal
  rw [ofDigits_padded, significantDigits_padded hn, Int.add_zero]
  dsimp only
  rw [if_neg (by simp only [Bool.or_eq_true, decide_eq_true_eq]; omega)]
  by_cases hlength : 310 < (Nat.toDigits 10 n).length
  · rw [if_pos (by omega), if_neg (Nat.not_lt.mpr (overflow_le_of_length hlength))]
    rfl
  · rw [if_neg (by omega), if_pos (Int.le_refl 0)]
    show (Binary64.ofRatio false (n * 1) 1).truncate? = _
    rw [Nat.mul_one, Binary64.truncate?_ofRatio_one hn]

/-- With zeros before it, the numeral of a natural number is read as the nearest double. -/
theorem parse_padded (h : zeros + (Nat.toDigits 10 n).length ≤ maxDecimalDigits) :
    parse (String.ofList (padded zeros n)) =
      if zeros = 0 then .ok (n : Int)
      else if n < Binary64.overflow then .ok (Binary64.rounded n : Int)
      else .error .notFinite := by
  have hdouble := double?_of_isDigit padded_ne_nil fun c (hc : c ∈ padded zeros n) =>
    isDigit_of_mem_padded hc
  unfold parse
  simp only [normalize_padded, integer?_padded h, hdouble]
  by_cases hzeros : zeros = 0
  · rw [if_neg (by omega), if_pos hzeros]
  · rw [if_neg hzeros]
    by_cases hn : n = 0
    · subst hn
      have hoverflow : 0 < Binary64.overflow := by decide +kernel
      rw [if_neg (by omega), if_pos hoverflow, Binary64.rounded_of_no_excess rfl]
    · rw [if_pos ⟨Nat.pos_of_ne_zero hzeros, hn⟩]
      dsimp only
      rw [truncate?_padded hn]
      by_cases hlt : n < Binary64.overflow
      · rw [if_pos hlt, if_pos hlt]
      · rw [if_neg hlt, if_neg hlt]

/-! ## At a console -/

/-- At a console the typed line makes the command that reads a number store `value`, after one
prompt. -/
def Stores (typed : List Char) (value : Nat) : Prop :=
  ∀ (ω : Type) (note : Event → ω → ω) (m : Machine) (a : ω) (lines : List (List Char))
    (outs prompts : String),
    (Host.noting Console.device note).perform .readNumber
        ⟨m, ⟨(typed ++ ['\n']) :: lines, outs, prompts⟩, a⟩ =
      .ok () ⟨m.store value, ⟨lines, outs, prompts ++ Console.prompt .byte⟩,
        note (.valueChanged value) a⟩

/-- At a console the typed line makes the command that reads a number complain and go on with the
next line. -/
def Refused (typed : List Char) : Prop :=
  ∀ (ω : Type) (note : Event → ω → ω) (m : Machine) (a : ω) (lines : List (List Char))
    (outs prompts : String),
    (Host.noting Console.device note).perform .readNumber
        ⟨m, ⟨(typed ++ ['\n']) :: lines, outs, prompts⟩, a⟩ =
      (Host.noting Console.device note).perform .readNumber
        ⟨m, ⟨lines, outs, prompts ++ Console.prompt .byte ++ Console.complaint⟩, a⟩

theorem accept_of_isDigit (h : ∀ c ∈ cs, c.isDigit = true) :
    Console.accept .byte (cs ++ ['\n']) = (parse (String.ofList cs)).toOption := by
  unfold Console.accept
  dsimp only
  rw [chomp_newline fun c hc =>
      ⟨ne_of_isDigit (h c hc) (by decide), ne_of_isDigit (h c hc) (by decide)⟩,
    stripBy_of_none fun c hc => isBlank_of_isDigit (h c hc)]
  cases parse (String.ofList cs) <;> rfl

theorem stores_of_parse {n : Nat} (h : ∀ c ∈ cs, c.isDigit = true)
    (hn : parse (String.ofList cs) = .ok (n : Int)) : Stores cs (n % 256) := by
  intro ω note m a lines outs prompts
  have hread : Console.device.read .byte ⟨(cs ++ ['\n']) :: lines, outs, prompts⟩ =
      .ok n ⟨lines, outs, prompts ++ Console.prompt .byte⟩ := by
    rw [Console.device_read]
    unfold Console.read Console.ask
    simp only [accept_of_isDigit h, hn]
    rfl
  have hwrap : Machine.wrap n = n % 256 := by
    unfold Machine.wrap
    omega
  rw [Host.noting_perform]
  show (Turn.reads .byte fun n => m.valueSet n).carry _ _ _ = _
  unfold Turn.carry Turn.on
  simp only [hread]
  unfold Machine.valueSet
  rw [hwrap]
  rfl

theorem refused_of_parse {e : LiteralError} (h : ∀ c ∈ cs, c.isDigit = true)
    (he : parse (String.ofList cs) = .error e) : Refused cs := by
  intro ω note m a lines outs prompts
  have hread : Console.device.read .byte ⟨(cs ++ ['\n']) :: lines, outs, prompts⟩ =
      Console.device.read .byte
        ⟨lines, outs, prompts ++ Console.prompt .byte ++ Console.complaint⟩ := by
    rw [Console.device_read]
    unfold Console.read
    dsimp only
    rw [Console.ask, accept_of_isDigit h, he]
    rfl
  rw [Host.noting_perform, Host.noting_perform]
  show (Turn.reads .byte fun n => m.valueSet n).carry _ _ _ =
    (Turn.reads .byte fun n => m.valueSet n).carry _ _ _
  unfold Turn.carry Turn.on
  simp only [hread]

/-! ## Main statement -/

/-- A numeral with zeros before it is read as its number if that is a double, and at a console what
a cell holds of it is stored. If it is none, then as the nearest double; and a number that is beyond
all doubles is refused. -/
theorem leading_zeros (zeros n : Nat)
    (h : zeros + (Nat.toDigits 10 n).length ≤ maxDecimalDigits) :
    let typed := padded zeros n
    (zeros = 0 ∨ Binary64.IsDouble n →
      parse (String.ofList typed) = .ok (n : Int) ∧ Stores typed (n % 256)) ∧
    (0 < zeros → ¬ Binary64.IsDouble n → n < Binary64.overflow →
      let r := Binary64.rounded n
      Binary64.Nearest n r ∧ r ≠ n ∧
        parse (String.ofList typed) = .ok (r : Int) ∧ Stores typed (r % 256)) ∧
    (0 < zeros → Binary64.overflow ≤ n →
      parse (String.ofList typed) = .error .notFinite ∧ Refused typed) := by
  intro typed
  have hdigit : ∀ c ∈ typed, c.isDigit = true := fun c hc => isDigit_of_mem_padded hc
  have hparse := parse_padded h
  refine ⟨fun hn => ?_, fun hzeros hn hlt => ?_, fun hzeros hle => ?_⟩
  · have hok : parse (String.ofList typed) = .ok (n : Int) := by
      rcases hn with hzeros | hdouble
      · rw [hparse, if_pos hzeros]
      · have hlt := hdouble.lt_overflow
        have hr := (Binary64.nearest_rounded hlt).eq_iff.mpr hdouble
        rw [hparse, if_pos hlt, hr, ite_self]
    exact ⟨hok, stores_of_parse hdigit hok⟩
  · have hnearest := Binary64.nearest_rounded hlt
    have hok : parse (String.ofList typed) = .ok (Binary64.rounded n : Int) := by
      rw [hparse, if_neg (Nat.ne_of_gt hzeros), if_pos hlt]
    exact ⟨hnearest, fun hr => hn (hnearest.eq_iff.mp hr), hok, stores_of_parse hdigit hok⟩
  · have herror : parse (String.ofList typed) = .error .notFinite := by
      rw [hparse, if_neg (Nat.ne_of_gt hzeros), if_neg (Nat.not_lt.mpr hle)]
    exact ⟨herror, refused_of_parse hdigit herror⟩

/-- Ten is a double. Above `2^53` no odd number is. -/
theorem leading_zeros_of_ten_and_odd :
    2 + (Nat.toDigits 10 10).length ≤ maxDecimalDigits ∧
      parse "0010" = .ok 10 ∧ Stores "0010".toList 10 ∧
    1 + (Nat.toDigits 10 9007199254740995).length ≤ maxDecimalDigits ∧
      parse "09007199254740995" = .ok 9007199254740996 ∧ Stores "09007199254740995".toList 4 := by
  have hten : 2 + (Nat.toDigits 10 10).length ≤ maxDecimalDigits := by decide
  have hodd : 1 + (Nat.toDigits 10 9007199254740995).length ≤ maxDecimalDigits := by decide
  have hdouble : Binary64.IsDouble 10 :=
    Binary64.isDouble_iff.mpr ⟨10, 0, by decide, by decide, by decide⟩
  have hlt : 9007199254740995 < Binary64.overflow := by decide +kernel
  have hrounded : Binary64.rounded 9007199254740995 = 9007199254740996 := by decide +kernel
  have hnone : ¬ Binary64.IsDouble 9007199254740995 := by
    rw [← (Binary64.nearest_rounded hlt).eq_iff, hrounded]
    decide
  obtain ⟨hread, hstores⟩ := (leading_zeros 2 10 hten).1 (.inr hdouble)
  obtain ⟨-, -, hread', hstores'⟩ := (leading_zeros 1 9007199254740995 hodd).2.1 (by decide) hnone hlt
  rw [hrounded] at hread' hstores'
  exact ⟨hten, hread, hstores, hodd, hread', hstores'⟩

/-- A zero before a numeral changes what it is read as, and the cell that is stored. -/
theorem leading_zero_changes_number :
    1 + (Nat.toDigits 10 9007199254740993).length ≤ maxDecimalDigits ∧
      padded 1 9007199254740993 = "09007199254740993".toList ∧
      parse "9007199254740993" = .ok 9007199254740993 ∧
      parse "09007199254740993" = .ok 9007199254740992 ∧
      Stores "09007199254740993".toList 0 ∧ 9007199254740993 % 256 = 1 := by
  have htyped : padded 1 9007199254740993 = "09007199254740993".toList := by decide
  have hread : parse "09007199254740993" = .ok ((9007199254740992 : Nat) : Int) := by decide +kernel
  have hstores : Stores "09007199254740993".toList (9007199254740992 % 256) :=
    stores_of_parse (fun c hc => isDigit_of_mem_padded (htyped ▸ hc)) hread
  exact ⟨by decide, htyped, by decide +kernel, hread, hstores, rfl⟩

end Number

end Moo
