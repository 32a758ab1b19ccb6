import Moo.Schema.Pattern

/-!
# What patterns describe

A pattern spells the texts that its pieces make up in order. A search finds it in such a text, and
in one with a newline behind it: the anchor at the end of a pattern holds before a final newline too
(`Pattern.Found`). What is proved of validators asks no more of their search than that it finds a
pattern in what it spells (`FindsSpelled`), unless it is about just that newline.
-/

namespace Moo

def Piece.Takes : Piece → List Char → Prop
  | .text t, cs => cs = t
  | .times k n, cs => cs.length = n ∧ ∀ c ∈ cs, k.contains c = true
  | .oneOrMore k, cs => cs ≠ [] ∧ ∀ c ∈ cs, k.contains c = true

namespace Pattern

/-- The pieces in order make up the text. -/
def Spells : Pattern → List Char → Prop
  | [], cs => cs = []
  | p :: ps, cs => ∃ taken rest, cs = taken ++ rest ∧ p.Takes taken ∧ Spells ps rest

variable {p : Piece} {ps : Pattern} {cs : List Char}

theorem spells_singleton : Spells [p] cs ↔ p.Takes cs := by
  constructor
  · rintro ⟨taken, rest, rfl, hp, rfl⟩
    rwa [List.append_nil]
  · exact fun h => ⟨cs, [], (List.append_nil cs).symm, h, rfl⟩

theorem spells_text_cons {t : List Char} :
    Spells (.text t :: ps) cs ↔ ∃ rest, cs = t ++ rest ∧ Spells ps rest := by
  constructor
  · rintro ⟨_, rest, hcs, rfl, hps⟩
    exact ⟨rest, hcs, hps⟩
  · rintro ⟨rest, hcs, hps⟩
    exact ⟨t, rest, hcs, rfl, hps⟩

/-- A search for the pattern succeeds. Halves of surrogate pairs are in no class. -/
def Found (p : Pattern) (t : JsonText) : Prop :=
  ∃ s : String, t = .ofString s ∧
    (p.Spells s.toList ∨ ∃ cs, s.toList = cs ++ ['\n'] ∧ p.Spells cs)

end Pattern

/-- The search finds a pattern in every text that it spells. -/
def FindsSpelled (finds : Pattern → JsonText → Prop) : Prop :=
  ∀ (p : Pattern) (s : String), p.Spells s.toList → finds p (.ofString s)

theorem findsSpelled_found : FindsSpelled Pattern.Found := fun _ s h => ⟨s, rfl, .inl h⟩

end Moo
