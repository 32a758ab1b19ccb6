import Moo.Proofs.Json.Value
import Moo.Proofs.Schema.Pattern
import Moo.Schema.Search

/-!
# The search of the written-out validator

The characters that a piece consumes are a prefix of the text: so many characters of the class for
`times`, any positive number of them for `oneOrMore`. So the search succeeds just where the pattern
is found (`Pattern.isFoundIn_iff`).
-/

namespace Moo

namespace Piece

variable {k : CharClass}

theorem restAfter_append {p rest : List Char} (h : ∀ c ∈ p, k.contains c = true) :
    restAfter k p.length (p ++ rest) = [rest] := by
  induction p with
  | nil => rfl
  | cons c p ih =>
    obtain ⟨hc, hp⟩ := List.forall_mem_cons.mp h
    show (if k.contains c then restAfter k p.length (p ++ rest) else []) = _
    rw [if_pos hc, ih hp]

theorem mem_restsAfterMany {cs rest : List Char} :
    rest ∈ restsAfterMany k cs ↔ ∃ p, cs = p ++ rest ∧ ∀ c ∈ p, k.contains c = true := by
  induction cs with
  | nil =>
    constructor
    · intro h
      exact ⟨[], (List.mem_singleton.mp h).symm, fun c hc => absurd hc List.not_mem_nil⟩
    · rintro ⟨p, hp, -⟩
      rw [(List.append_eq_nil_iff.mp hp.symm).2]
      exact List.mem_singleton.mpr rfl
  | cons c cs ih =>
    unfold restsAfterMany
    by_cases hc : k.contains c = true
    · rw [if_pos hc, List.mem_append, List.mem_singleton, ih]
      constructor
      · rintro (⟨p, rfl, hp⟩ | rfl)
        · exact ⟨c :: p, rfl, List.forall_mem_cons.mpr ⟨hc, hp⟩⟩
        · exact ⟨[], rfl, fun c hc => absurd hc List.not_mem_nil⟩
      · rintro ⟨p, hp, h⟩
        cases p with
        | nil => exact .inr hp.symm
        | cons d p =>
          obtain ⟨rfl, rfl⟩ := List.cons.inj hp
          exact .inl ⟨p, rfl, (List.forall_mem_cons.mp h).2⟩
    · rw [if_neg hc, List.mem_singleton]
      constructor
      · rintro rfl
        exact ⟨[], rfl, fun c hc => absurd hc List.not_mem_nil⟩
      · rintro ⟨p, hp, h⟩
        cases p with
        | nil => exact hp.symm
        | cons d p =>
          obtain ⟨rfl, -⟩ := List.cons.inj hp
          exact absurd (h c (List.mem_cons_self)) hc

theorem mem_restAfter {n : Nat} {cs rest : List Char} :
    rest ∈ restAfter k n cs ↔
      ∃ p, cs = p ++ rest ∧ p.length = n ∧ ∀ c ∈ p, k.contains c = true := by
  constructor
  · intro h
    induction n generalizing cs with
    | zero =>
      exact ⟨[], (List.mem_singleton.mp h).symm, rfl, fun c hc => absurd hc List.not_mem_nil⟩
    | succ n ih =>
      cases cs with
      | nil => exact absurd h List.not_mem_nil
      | cons c cs =>
        unfold restAfter at h
        split at h
        · next hc =>
          obtain ⟨p, rfl, hp, hk⟩ := ih h
          exact ⟨c :: p, rfl, congrArg (· + 1) hp, List.forall_mem_cons.mpr ⟨hc, hk⟩⟩
        · exact absurd h List.not_mem_nil
  · rintro ⟨p, rfl, rfl, hk⟩
    rw [restAfter_append hk]
    exact List.mem_singleton.mpr rfl

/-- What a piece leaves follows a text that it describes. -/
theorem mem_rests {p : Piece} {cs rest : List Char} :
    rest ∈ p.rests cs ↔ ∃ taken, cs = taken ++ rest ∧ p.Takes taken := by
  cases p with
  | text t =>
    show rest ∈ (if t.isPrefixOf cs then [cs.drop t.length] else []) ↔ _
    constructor
    · intro h
      split at h
      · next hp =>
        obtain ⟨tail, rfl⟩ := List.isPrefixOf_iff_prefix.mp hp
        rw [List.drop_left, List.mem_singleton] at h
        exact ⟨t, by rw [h], rfl⟩
      · exact absurd h List.not_mem_nil
    · rintro ⟨taken, rfl, rfl⟩
      rw [if_pos (List.isPrefixOf_iff_prefix.mpr (List.prefix_append _ _)), List.drop_left]
      exact List.mem_singleton.mpr rfl
  | times k n => exact mem_restAfter
  | oneOrMore k =>
    cases cs with
    | nil =>
      refine iff_of_false List.not_mem_nil ?_
      rintro ⟨taken, h, hne, -⟩
      exact hne (List.append_eq_nil_iff.mp h.symm).1
    | cons c cs =>
      show rest ∈ (if k.contains c then restsAfterMany k cs else []) ↔ _
      constructor
      · intro h
        split at h
        · next hc =>
          obtain ⟨p, rfl, hp⟩ := mem_restsAfterMany.mp h
          exact ⟨c :: p, rfl, List.cons_ne_nil _ _, List.forall_mem_cons.mpr ⟨hc, hp⟩⟩
        · exact absurd h List.not_mem_nil
      · rintro ⟨taken, h, hne, hk⟩
        obtain ⟨d, p, rfl⟩ := List.exists_cons_of_ne_nil hne
        obtain ⟨rfl, rfl⟩ := List.cons.inj h
        obtain ⟨hc, hp⟩ := List.forall_mem_cons.mp hk
        rw [if_pos hc]
        exact mem_restsAfterMany.mpr ⟨p, rfl, hp⟩

end Piece

namespace Pattern

theorem matchesChars_iff {p : Pattern} {cs : List Char} :
    matchesChars p cs = true ↔ p.Spells cs ∨ ∃ spelled, cs = spelled ++ ['\n'] ∧ p.Spells spelled := by
  induction p generalizing cs with
  | nil => simp [matchesChars, Spells]
  | cons piece p ih =>
    have hrests : matchesChars (piece :: p) cs = true ↔
        ∃ taken rest, cs = taken ++ rest ∧ piece.Takes taken ∧ matchesChars p rest = true := by
      rw [matchesChars, List.any_eq_true]
      constructor
      · rintro ⟨rest, hrest, hp⟩
        obtain ⟨taken, hcs, htakes⟩ := Piece.mem_rests.mp hrest
        exact ⟨taken, rest, hcs, htakes, hp⟩
      · rintro ⟨taken, rest, hcs, htakes, hp⟩
        exact ⟨rest, Piece.mem_rests.mpr ⟨taken, hcs, htakes⟩, hp⟩
    rw [hrests]
    constructor
    · rintro ⟨taken, rest, rfl, htakes, hp⟩
      rcases ih.mp hp with hspells | ⟨spelled, rfl, hspells⟩
      · exact .inl ⟨taken, rest, rfl, htakes, hspells⟩
      · exact .inr ⟨taken ++ spelled, (List.append_assoc _ _ _).symm, taken, spelled, rfl, htakes,
          hspells⟩
    · rintro (⟨taken, rest, rfl, htakes, hp⟩ | ⟨_, rfl, taken, rest, rfl, htakes, hp⟩)
      · exact ⟨taken, rest, rfl, htakes, ih.mpr (.inl hp)⟩
      · exact ⟨taken, rest ++ ['\n'], List.append_assoc _ _ _, htakes, ih.mpr (.inr ⟨rest, rfl, hp⟩)⟩

theorem isFoundIn_iff {p : Pattern} {t : JsonText} : p.isFoundIn t = true ↔ p.Found t := by
  unfold isFoundIn Found
  cases hs : t.string? with
  | none =>
    refine iff_of_false Bool.false_ne_true ?_
    rintro ⟨s, rfl, -⟩
    rw [JsonText.string?_ofString] at hs
    cases hs
  | some s =>
    obtain rfl := JsonText.string?_eq_some.mp hs
    rw [matchesChars_iff]
    constructor
    · exact fun h => ⟨s, rfl, h⟩
    · rintro ⟨s', hs', h⟩
      rwa [JsonText.ofString_inj.mp hs']

end Pattern

end Moo
