import Moo.Proofs.Run.Described

/-!
# Identifiers in receipts

The hash of a receipt and the names of its cells are texts under a pattern, and a search for a
pattern lets one newline through behind the text that the pattern spells (`found_hash_iff`,
`found_position_iff`). So, with a validator that searches, these texts are exact in every receipt
without problems, but for that newline (`identifiers_are_exact_but_for_newline`), and the newline is
no reason to refuse a receipt (`problems_brief`).
-/

namespace Moo.Run.Receipt

variable {v : Json} {s : String} {P : String → Prop}

/-! ## Exact texts -/

/-- A label and 64 hexadecimal digits, and nothing else. -/
def IsExactHash (s : String) : Prop :=
  ∃ ds, s.toList = "sha256:".toList ++ ds ∧ ds.length = 64 ∧
    ∀ c ∈ ds, '0' ≤ c ∧ c ≤ '9' ∨ 'a' ≤ c ∧ c ≤ 'f'

/-- Decimal digits, at least one, and nothing else. -/
def IsExactPosition (s : String) : Prop := s ≠ "" ∧ ∀ c ∈ s.toList, '0' ≤ c ∧ c ≤ '9'

/-- The text has the property, or one that has it comes before a newline. -/
def UpToNewline (P : String → Prop) (s : String) : Prop := P s ∨ ∃ d, P d ∧ s = d ++ "\n"

theorem IsExactHash.length (h : IsExactHash s) : s.length = 71 := by
  obtain ⟨ds, hs, hlen, -⟩ := h
  rw [← String.length_toList, hs, List.length_append, hlen]
  rfl

theorem spells_hash {cs : List Char} : hashPattern.Spells cs ↔
    ∃ ds, cs = "sha256:".toList ++ ds ∧ ds.length = 64 ∧
      ∀ c ∈ ds, '0' ≤ c ∧ c ≤ '9' ∨ 'a' ≤ c ∧ c ≤ 'f' := by
  have hclass : ∀ c, hexDigits.contains c = true ↔ '0' ≤ c ∧ c ≤ '9' ∨ 'a' ≤ c ∧ c ≤ 'f' := by
    simp [hexDigits, CharClass.contains]
  unfold hashPattern
  simp only [Pattern.spells_text_cons, Pattern.spells_singleton, Piece.Takes, hclass]

theorem spells_position {cs : List Char} :
    positionPattern.Spells cs ↔ cs ≠ [] ∧ ∀ c ∈ cs, '0' ≤ c ∧ c ≤ '9' := by
  have hclass : ∀ c, digits.contains c = true ↔ '0' ≤ c ∧ c ≤ '9' := by
    simp [digits, CharClass.contains]
  unfold positionPattern
  simp only [Pattern.spells_singleton, Piece.Takes, hclass]

/-- What is found in the text of a string is spelled by the string, or by what a newline follows. -/
theorem found_ofString_iff {p : Pattern} :
    p.Found (.ofString s) ↔ UpToNewline (fun s => p.Spells s.toList) s := by
  constructor
  · rintro ⟨s', hs, h⟩
    obtain rfl := JsonText.ofString_inj.mp hs
    refine h.imp_right ?_
    rintro ⟨cs, hcs, hspells⟩
    refine ⟨String.ofList cs, by simpa using hspells, ?_⟩
    rw [← String.toList_inj, hcs]
    simp
  · intro h
    refine ⟨s, rfl, h.imp_right ?_⟩
    rintro ⟨d, hspells, rfl⟩
    exact ⟨d.toList, by simp, hspells⟩

theorem found_hash_iff : hashPattern.Found (.ofString s) ↔ UpToNewline IsExactHash s := by
  simp only [found_ofString_iff, spells_hash]
  rfl

theorem found_position_iff :
    positionPattern.Found (.ofString s) ↔ UpToNewline IsExactPosition s := by
  have hempty : ∀ d : String, d.toList ≠ [] ↔ d ≠ "" := fun d => by simp
  simp only [found_ofString_iff, spells_position, hempty]
  rfl

/-! ## A brief receipt -/

/-- A receipt with this hash and with a single cell, under this name. -/
def brief (hash cell : String) : Json :=
  .record [
    ("engine", .text "cow"),
    ("module", .record [("hash", .text hash)]),
    ("run", .record [("timestamp", .text ""), ("uuid", .text "")]),
    ("status", .text "ok"),
    ("logs", .arr []),
    ("machine", .record [
      ("cursor", .int 0),
      ("programCounter", .int 0),
      ("register", .null),
      ("memorySize", .int 1),
      ("cells", .record [(cell, .int 1)])])]

/-- It has no problems just if the two texts are exact or an exact one before a newline. So the
newline is let through wherever it stands. -/
theorem problems_brief {V : Validator} {depth : Nat} (hV : V.Follows Pattern.Found depth)
    (hash cell : String) :
    problems V (brief hash cell) = .ok [] ↔
      UpToNewline IsExactHash hash ∧ UpToNewline IsExactPosition cell := by
  have hdigest : IsDigest Pattern.Found (.text hash) ↔ hashPattern.Found (.ofString hash) := by
    simp [IsDigest, Json.text]
  have hone : Json.IsInteger (fun n => 1 ≤ n ∧ n ≤ 255) (.int 1) := ⟨1, .int 1, by decide⟩
  have hcells : IsCells Pattern.Found (.record [(cell, .int 1)]) ↔
      positionPattern.Found (.ofString cell) := by
    simp [IsCells, Json.record, Json.IsObject, Json.part?, hone]
  have hcount : IsCount (.int 0) := ⟨0, .int 0, Int.le_refl 0⟩
  have hsize : Json.IsInteger (1 ≤ ·) (.int 1) := ⟨1, .int 1, Int.le_refl 1⟩
  have hstring : (Json.text "").IsString := ⟨_, rfl⟩
  have hstatus : Json.IsOneOf ["ok", "badEval", "error"] (.text "ok") := ⟨"ok", by simp, rfl⟩
  have hlogs : Json.IsArrayOf IsLogEntry (.arr []) := ⟨[], rfl, List.forall_mem_nil _⟩
  rw [problems_eq_nil_iff hV (Json.may_of_no_field rfl), described_iff, ← found_hash_iff,
    ← found_position_iff]
  simp [brief, Json.Has, Json.May, Json.field?_record, List.lookup_cons, isSource_iff, isStamp_iff,
    isMachine_iff, Json.isObjectOf_record, hdigest, hcells, hcount, hsize, hstring, hstatus, hlogs]

/-! ## Main statement -/

/-- If patterns are searched for, then in every receipt without problems the hash is exact and has
71 characters, or an exact one comes before a newline, and so is every name of a cell. -/
theorem identifiers_are_exact_but_for_newline {V : Validator} {depth : Nat}
    (hV : V.Follows Pattern.Found depth) (v : Json) (h : problems V v = .ok []) :
    (v.Has "module" fun module => module.Has "hash" fun w =>
      ∃ s, w = .text s ∧
        (IsExactHash s ∧ s.length = 71 ∨ ∃ d, IsExactHash d ∧ s = d ++ "\n")) ∧
    v.May "machine" fun machine => machine.Has "cells" fun w =>
      ∃ cells, w = .obj cells ∧ ∀ m ∈ cells, ∃ s, m.1 = .ofString s ∧
        (IsExactPosition s ∨ ∃ d, IsExactPosition d ∧ s = d ++ "\n") := by
  have hv := described_of_problems hV h
  constructor
  · obtain ⟨module, hmodule, hsource⟩ := hv.module
    obtain ⟨w, hw, t, rfl, s, rfl, hs⟩ := hsource.hash
    refine ⟨module, hmodule, _, hw, s, rfl, ?_⟩
    exact (found_hash_iff.mp ⟨s, rfl, hs⟩).imp_left fun hexact => ⟨hexact, hexact.length⟩
  · intro machine hmachine
    obtain ⟨w, hw, ⟨cells, rfl⟩, hcells⟩ := (hv.machine machine hmachine).cells
    refine ⟨_, hw, cells, rfl, fun m hm => ?_⟩
    obtain ⟨u, hu⟩ := Json.exists_part?_name_iff.mpr ⟨m, hm, rfl⟩
    obtain ⟨s, hname, hs⟩ := (hcells m.1 u hu).1
    exact ⟨s, hname, found_position_iff.mp ⟨s, rfl, hs⟩⟩

/-- An exact hash, and a newline behind the position of the cell. -/
theorem identifiers_are_exact_but_for_newline_one_cell :
    let v := brief ("sha256:" ++ String.ofList (List.replicate 64 'e')) "7\n"
    (Validator.reference 9).Follows Pattern.Found 9 ∧ problems (.reference 9) v = .ok [] ∧
      (v.Has "module" fun module => module.Has "hash" fun w =>
        ∃ s, w = .text s ∧
          (IsExactHash s ∧ s.length = 71 ∨ ∃ d, IsExactHash d ∧ s = d ++ "\n")) ∧
      v.May "machine" fun machine => machine.Has "cells" fun w =>
        ∃ cells, w = .obj cells ∧ ∀ m ∈ cells, ∃ s, m.1 = .ofString s ∧
          (IsExactPosition s ∨ ∃ d, IsExactPosition d ∧ s = d ++ "\n") := by
  intro v
  have hdigits : ∀ c ∈ List.replicate 64 'e', '0' ≤ c ∧ c ≤ '9' ∨ 'a' ≤ c ∧ c ≤ 'f' := by
    simp
  have hhash : IsExactHash ("sha256:" ++ String.ofList (List.replicate 64 'e')) :=
    ⟨List.replicate 64 'e', by simp, List.length_replicate, hdigits⟩
  have hcell : UpToNewline IsExactPosition "7\n" :=
    .inr ⟨"7", ⟨by decide, by simp⟩, rfl⟩
  have hV := Validator.follows_reference 9
  have hv : problems (.reference 9) v = .ok [] := (problems_brief hV _ _).mpr ⟨.inl hhash, hcell⟩
  exact ⟨hV, hv, identifiers_are_exact_but_for_newline hV v hv⟩

/-- A receipt without problems whose hash is 72 characters long and whose cell is at no position. -/
theorem newlines_are_let_through :
    let hash := "sha256:0000000000000000000000000000000000000000000000000000000000000000\n"
    problems (.reference 9) (brief hash "0\n") = .ok [] ∧
      ((brief hash "0\n").Has "module" fun module => module.Has "hash" (· = .text hash)) ∧
      hash.length = 72 ∧ ¬ IsExactHash hash ∧
      ((brief hash "0\n").Has "machine" fun machine => machine.Has "cells" fun w =>
        ∃ cells, w = .obj cells ∧ (.ofString "0\n", .int 1) ∈ cells) ∧
      ¬ IsExactPosition "0\n" := by
  intro hash
  have hlength : hash.length = 72 := by decide +kernel
  have hhash : UpToNewline IsExactHash hash := by
    refine .inr ⟨"sha256:" ++ String.ofList (List.replicate 64 '0'), ⟨List.replicate 64 '0', ?_⟩, ?_⟩
    · exact ⟨by simp, List.length_replicate, by simp⟩
    · decide +kernel
  have hcell : UpToNewline IsExactPosition "0\n" := .inr ⟨"0", ⟨by decide, by simp⟩, rfl⟩
  have hproblems := (problems_brief (Validator.follows_reference 9) hash "0\n").mpr ⟨hhash, hcell⟩
  refine ⟨hproblems, ⟨_, rfl, _, rfl, rfl⟩, hlength, fun h => ?_,
    ⟨_, rfl, _, rfl, _, rfl, List.mem_cons_self⟩, ?_⟩
  · cases hlength.symm.trans h.length
  · rintro ⟨-, hdigits⟩
    exact absurd (hdigits '\n' (by decide)) (by decide)

end Moo.Run.Receipt
