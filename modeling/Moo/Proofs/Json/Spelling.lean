import Moo.Json.Parser
import Moo.Json.Printer
import Moo.Proofs.Number.Legible

/-!
# Strings and numerals are read back

What a document holds between the quotes of a string is read as the string (`string?_encoded`), and
what it holds for an integer of no more digits than can be read is read as the integer, if what
follows stops a number (`number?_toDigits`).
-/

namespace Moo.Json

open Text (hex hexDigit)

/-! ## Strings -/

theorem hexValue?_hexDigit {n : Nat} (h : n < 16) : hexValue? (hexDigit n) = some n := by
  revert n
  decide

theorem unit?_hex {n : Nat} (h : n < 0x10000) (rest : List Char) :
    unit? (hex 4 n ++ rest) = some (n, rest) := by
  have hdigit : ∀ k, hexValue? (hexDigit (k % 16)) = some (k % 16) := fun k =>
    hexValue?_hexDigit (Nat.mod_lt k (by decide))
  have hvalue : ((n / 16 / 16 / 16 % 16 * 16 + n / 16 / 16 % 16) * 16 + n / 16 % 16) * 16 +
      n % 16 = n := by omega
  simp only [hex, List.nil_append, List.cons_append, unit?, hdigit, Option.bind_eq_bind,
    Option.bind_some, hvalue]
  rfl

theorem toNat_not_half (c : Char) : ¬ (0xd800 ≤ c.toNat ∧ c.toNat < 0xe000) := by
  have h : c.toNat.isValidChar := c.valid
  unfold Nat.isValidChar at h
  omega

theorem toNat_lt (c : Char) : c.toNat < 0x110000 := (CodePoint.ofChar c).isLt

theorem ofNat_toNat (c : Char) {n : Nat} (h : n = c.toNat) :
    Fin.ofNat 0x110000 n = CodePoint.ofChar c :=
  Fin.ext ((Nat.mod_eq_of_lt (h ▸ toNat_lt c)).trans h)

theorem unicode?_hex {c : Char} (h : c.toNat < 0x10000) (rest : List Char) :
    unicode? (hex 4 c.toNat ++ rest) = some (.ofChar c, rest) := by
  have hhalf := toNat_not_half c
  unfold unicode?
  rw [unit?_hex h, Option.bind_eq_bind, Option.bind_some]
  dsimp only
  rw [if_neg (by omega), ofNat_toNat c rfl]

theorem unicode?_pair {c : Char} (h : ¬ c.toNat < 0x10000) (rest : List Char) :
    unicode? (hex 4 (0xd800 + (c.toNat - 0x10000) / 0x400) ++
      (escapeUnit (0xdc00 + (c.toNat - 0x10000) % 0x400) ++ rest)) = some (.ofChar c, rest) := by
  have hlt := toNat_lt c
  generalize hhigh : 0xd800 + (c.toNat - 0x10000) / 0x400 = high
  generalize hlow : 0xdc00 + (c.toNat - 0x10000) % 0x400 = low
  have hpair : lowHalf? high (escapeUnit low ++ rest) = some (.ofChar c, rest) := by
    unfold escapeUnit
    rw [List.cons_append, List.cons_append, lowHalf?, unit?_hex (by omega), Option.bind_eq_bind,
      Option.bind_some]
    dsimp only
    rw [if_pos (by omega), ofNat_toNat c (by omega)]
  unfold unicode?
  rw [unit?_hex (by omega), Option.bind_eq_bind, Option.bind_some]
  dsimp only
  rw [if_pos (by omega), hpair]

theorem stringBody_unit {acc : List CodePoint} {cs rest : List Char} {c : CodePoint}
    (h : unicode? cs = some (c, rest)) (fuel : Nat) :
    stringBody (fuel + 1) acc ('\\' :: 'u' :: cs) = stringBody fuel (c :: acc) rest := by
  have hquote : ('\\' : Char) ≠ '\x22' := by decide
  rw [stringBody.eq_def]
  simp only [if_neg hquote, if_true, h]

theorem stringBody_escapeChar (c : Char) (fuel : Nat) (acc : List CodePoint) (rest : List Char) :
    stringBody (fuel + 1) acc (escapeChar c ++ rest) = stringBody fuel (.ofChar c :: acc) rest := by
  unfold escapeChar
  -- the characters with an escape of their own
  iterate 7
    split
    · next h => subst h; rfl
  split
  · next hquote hslash _ _ _ _ _ hplain =>
    rw [List.singleton_append, stringBody.eq_def]
    dsimp only
    rw [if_neg hquote, if_neg hslash, if_neg (by omega)]
  split
  · next hunit => exact stringBody_unit (unicode?_hex hunit rest) fuel
  · next hpair =>
    dsimp only
    rw [List.append_assoc]
    exact stringBody_unit (unicode?_pair hpair rest) fuel

theorem stringBody_escaped (cs : List Char) (rest : List Char) (fuel : Nat) (acc : List CodePoint)
    (h : cs.length < fuel) :
    stringBody fuel acc (cs.flatMap escapeChar ++ '\x22' :: rest) =
      some (⟨acc.reverse ++ cs.map .ofChar⟩, rest) := by
  induction cs generalizing fuel acc with
  | nil =>
    obtain ⟨fuel, rfl⟩ := Nat.exists_eq_add_of_lt h
    rw [List.map_nil, List.append_nil]
    rfl
  | cons c cs ih =>
    obtain ⟨fuel, rfl⟩ := Nat.exists_eq_add_of_lt (Nat.zero_lt_of_lt h)
    rw [List.length_cons] at h
    rw [List.flatMap_cons, List.append_assoc, Nat.zero_add, stringBody_escapeChar,
      ih _ _ (by omega), List.reverse_cons, List.append_assoc, List.map_cons]
    rfl

theorem escapeChar_ne_nil (c : Char) : escapeChar c ≠ [] := by
  unfold escapeChar escapeUnit
  repeat' split
  all_goals exact List.cons_ne_nil _ _

theorem length_le_flatMap (cs : List Char) : cs.length ≤ (cs.flatMap escapeChar).length := by
  induction cs with
  | nil => exact Nat.le_refl 0
  | cons c cs ih =>
    have hpos := List.length_pos_iff.mpr (escapeChar_ne_nil c)
    rw [List.flatMap_cons, List.length_append, List.length_cons]
    omega

theorem toList_encodeString (s : String) :
    (encodeString (.ofString s)).toList = '\x22' :: (s.toList.flatMap escapeChar ++ ['\x22']) := by
  have hpoint : ∀ c, escapePoint (.ofChar c) = escapeChar c := by
    intro c
    unfold escapePoint
    rw [CodePoint.char?_ofChar]
  unfold encodeString JsonText.ofString
  rw [String.toList_ofList, List.flatMap_map]
  simp only [hpoint]
  rfl

theorem string?_encoded (s : String) (rest : List Char) :
    string? (s.toList.flatMap escapeChar ++ '\x22' :: rest) = some (.ofString s, rest) := by
  have hlen := length_le_flatMap s.toList
  unfold string?
  refine stringBody_escaped s.toList rest _ [] ?_
  rw [List.length_append]
  omega

theorem hexDigit_ne_return {n : Nat} (h : n < 16) : hexDigit n ≠ '\r' := by
  revert n
  decide

theorem return_not_mem_hex (width n : Nat) : '\r' ∉ hex width n := by
  induction width generalizing n with
  | zero => exact List.not_mem_nil
  | succ width ih =>
    rw [hex, List.mem_append, not_or, List.mem_singleton]
    exact ⟨ih _, (hexDigit_ne_return (Nat.mod_lt _ (by decide))).symm⟩

theorem return_not_mem_escapeUnit (n : Nat) : '\r' ∉ escapeUnit n := by
  unfold escapeUnit
  simp [return_not_mem_hex]

theorem return_not_mem_escapeChar (c : Char) : '\r' ∉ escapeChar c := by
  unfold escapeChar
  iterate 7
    split
    · decide
  split
  · next hreturn _ _ _ _ => exact fun h => hreturn (List.mem_singleton.mp h).symm
  split
  · exact return_not_mem_escapeUnit _
  · exact fun h => (List.mem_append.mp h).elim (return_not_mem_escapeUnit _)
      (return_not_mem_escapeUnit _)

theorem return_not_mem_encodeString (s : String) :
    '\r' ∉ (encodeString (.ofString s)).toList := by
  rw [toList_encodeString]
  simp [return_not_mem_escapeChar]

/-! ## Numbers -/

/-- What may follow a value: a comma, a line break, or nothing. -/
def Stops (rest : List Char) : Prop := ∀ c, rest.head? = some c → c = ',' ∨ c = '\n'

variable {rest : List Char}

theorem stops_comma (rest : List Char) : Stops (',' :: rest) :=
  fun _ h => .inl (Option.some.inj h).symm

theorem stops_newline (rest : List Char) : Stops ('\n' :: rest) :=
  fun _ h => .inr (Option.some.inj h).symm

theorem Stops.cases (h : Stops rest) :
    rest = [] ∨ (∃ more, rest = ',' :: more) ∨ ∃ more, rest = '\n' :: more := by
  cases rest with
  | nil => exact .inl rfl
  | cons c more =>
    rcases h c rfl with rfl | rfl
    · exact .inr (.inl ⟨more, rfl⟩)
    · exact .inr (.inr ⟨more, rfl⟩)

theorem spanDigits_append {ds : List Char} (hds : ∀ c ∈ ds, c.isDigit = true) (h : Stops rest) :
    spanDigits (ds ++ rest) = (ds, rest) := by
  have hnone : rest.takeWhile Char.isDigit = [] ∧ rest.dropWhile Char.isDigit = rest := by
    obtain rfl | ⟨more, rfl⟩ | ⟨more, rfl⟩ := h.cases <;> exact ⟨rfl, rfl⟩
  unfold spanDigits
  rw [List.takeWhile_append_of_pos hds, List.dropWhile_append_of_pos hds, hnone.1, hnone.2,
    List.append_nil]

theorem wholePart?_toDigits (n : Nat) (h : Stops rest) :
    wholePart? (Nat.toDigits 10 n ++ rest) = some (Nat.toDigits 10 n, rest) := by
  have hspan := spanDigits_append (fun c hc => Number.isDigit_of_mem_toDigits (n := n) hc) h
  cases hds : Nat.toDigits 10 n with
  | nil => exact absurd hds Nat.toDigits_ne_nil
  | cons c ds =>
    rw [hds] at hspan
    by_cases hc : c = '0'
    · -- the only numeral with a zero in front is zero
      have hn : n = 0 := Number.head?_toDigits (by rw [hds, hc]; rfl)
      rw [hn] at hds
      cases hds
      rfl
    · unfold wholePart?
      split
      · next heq => exact absurd (List.cons.inj heq).1 hc
      · rw [hspan]
        rfl

theorem number?_toDigits {n : Nat} (hn : Number.Legible n)
    (negative : Bool) (h : Stops rest) :
    number? negative (Nat.toDigits 10 n ++ rest) =
      some (.int (Number.withSign negative n), rest) := by
  have hfraction : fractionPart rest = ([], rest) := by
    obtain rfl | ⟨more, rfl⟩ | ⟨more, rfl⟩ := h.cases <;> rfl
  have hpower : exponentPart rest = (none, rest) := by
    obtain rfl | ⟨more, rfl⟩ | ⟨more, rfl⟩ := h.cases <;> rfl
  have hlength : (Nat.toDigits 10 n).length ≤ Number.maxDecimalDigits := hn
  have hdigits := Number.digits?_of_isDigit (Nat.toDigits_ne_nil (n := n) (b := 10))
    fun c hc => Number.isDigit_of_mem_toDigits hc
  unfold number?
  rw [wholePart?_toDigits n h, Option.bind_eq_bind, Option.bind_some]
  simp only [hfraction, hpower, hdigits, Number.ofDigits_toDigits, Nat.not_lt.mpr hlength, if_false,
    List.isEmpty_nil, Option.isNone_none, Bool.and_self, if_true, Option.bind_eq_bind,
    Option.bind_some]
  rfl

end Moo.Json
