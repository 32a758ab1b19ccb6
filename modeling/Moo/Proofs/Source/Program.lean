import Moo.Proofs.Command.Names
import Moo.Proofs.Source.Words

/-!
# Programs in source text

A separator is a text without letters that is not empty. The scanner forgets at a separator what
came before but for the position (`Token.scan_append`, `Token.scan_shift`), so the tokens of two
texts with a separator between them are those of the one and then those of the other, moved
(`Token.ofText_separated`). Reading a program from a text therefore turns such a text into the two
programs one after the other, and undoes writing one down (`texts_spell_programs`).
-/

namespace Moo

open Text (isWord)

namespace Token

/-- A text that keeps two words apart. -/
structure Separator (s : String) : Prop where
  nonempty : s ≠ ""
  letterless : ∀ c ∈ s.toList, isWord c = false

def shift (n : Nat) (k : Token) : Token := ⟨k.text, k.start + n, k.stop + n⟩

variable {a b s : String} {u v gathered : List Char} {c : Char} {pos : Nat}

/-! ## The scanner at a separator -/

theorem scan_append (hc : isWord c = false) (pos : Nat) (gathered u v : List Char) :
    scan pos gathered (u ++ c :: v) = scan pos gathered u ++ scan (pos + u.length + 1) [] v := by
  induction u generalizing pos gathered with
  | nil => exact scan_cons_of_other hc
  | cons d u ih =>
    rw [List.cons_append, List.length_cons, ← Nat.add_assoc, Nat.add_right_comm pos]
    cases hd : isWord d with
    | true =>
      rw [scan_cons_of_letter hd, scan_cons_of_letter hd]
      exact ih _ _
    | false =>
      rw [scan_cons_of_other hd, scan_cons_of_other hd, ih, List.append_assoc]

theorem scan_letterless (hs : ∀ c ∈ u, isWord c = false) (pos : Nat) (v : List Char) :
    scan pos [] (u ++ v) = scan (pos + u.length) [] v := by
  induction u generalizing pos with
  | nil => rfl
  | cons c u ih =>
    obtain ⟨hc, hu⟩ := List.forall_mem_cons.mp hs
    rw [List.cons_append, scan_cons_of_other hc, ih hu, List.length_cons, Nat.add_comm u.length,
      ← Nat.add_assoc]
    rfl

theorem ofGathered_shift (h : gathered.length ≤ pos) (n : Nat) :
    ofGathered gathered (pos + n) = (ofGathered gathered pos).map (shift n) := by
  unfold ofGathered
  split
  · rfl
  · rw [List.map_singleton, shift, ← Nat.sub_add_comm h]

/-- Where the scanner starts matters to the positions only. -/
theorem scan_shift (h : gathered.length ≤ pos) (n : Nat) (v : List Char) :
    scan (pos + n) gathered v = (scan pos gathered v).map (shift n) := by
  induction v generalizing pos gathered with
  | nil => exact ofGathered_shift h n
  | cons c v ih =>
    cases hc : isWord c with
    | true =>
      rw [scan_cons_of_letter hc, scan_cons_of_letter hc, Nat.add_right_comm]
      exact ih (Nat.succ_le_succ h)
    | false =>
      rw [scan_cons_of_other hc, scan_cons_of_other hc, Nat.add_right_comm, List.map_append,
        ofGathered_shift h, ih (Nat.zero_le _)]

theorem ofText_separated (hs : Separator s) : ofText (a ++ s ++ b) =
    ofText a ++ (ofText b).map (shift (a.length + s.length)) := by
  obtain ⟨c, rest, hcs⟩ : ∃ c rest, s.toList = c :: rest := by
    refine List.exists_cons_of_ne_nil fun hnil => hs.nonempty ?_
    rw [← String.toList_inj, hnil]
    rfl
  have hletterless := hs.letterless
  rw [hcs] at hletterless
  obtain ⟨hc, hrest⟩ := List.forall_mem_cons.mp hletterless
  have hlength : 0 + a.toList.length + 1 + rest.length = 0 + (a.length + s.length) := by
    rw [← String.length_toList, ← String.length_toList, hcs, List.length_cons]
    omega
  unfold ofText
  rw [String.toList_append, String.toList_append, hcs, List.append_assoc, List.cons_append,
    scan_append hc, scan_letterless hrest, hlength, scan_shift (Nat.zero_le _)]

/-! ## Words by themselves -/

theorem scan_letters (hu : ∀ c ∈ u, isWord c = true) (pos : Nat) (gathered : List Char) :
    scan pos gathered u = ofGathered (u.reverse ++ gathered) (pos + u.length) := by
  induction u generalizing pos gathered with
  | nil => rfl
  | cons c u ih =>
    obtain ⟨hc, hletters⟩ := List.forall_mem_cons.mp hu
    rw [scan_cons_of_letter hc, ih hletters, List.reverse_cons, List.append_assoc, List.length_cons,
      Nat.add_comm u.length, Nat.add_assoc]
    rfl

theorem ofText_letters (hne : a ≠ "") (ha : ∀ c ∈ a.toList, isWord c = true) :
    ofText a = [⟨a, 0, a.length⟩] := by
  have hne' : a.toList.isEmpty = false := by
    rw [List.isEmpty_eq_false_iff]
    intro hnil
    exact hne (String.toList_inj.mp hnil)
  unfold ofText
  rw [scan_letters ha, ofGathered]
  simp [hne', String.length_toList]

end Token

/-! ## Programs -/

namespace Catalogue

open Token (Separator)

variable {t : Catalogue} {a b s : String} {c : Command} {program : List Command}

theorem program_separated (hs : Separator s) :
    t.program (a ++ s ++ b) = t.program a ++ t.program b := by
  unfold Catalogue.program
  rw [Token.ofText_separated hs, List.filterMap_append, List.filterMap_map]
  rfl

theorem program_eq_nil (h : ∀ k ∈ Token.ofText a, k.text ∉ t.names) : t.program a = [] :=
  List.filterMap_eq_nil_iff.mpr fun k hk => named?_eq_none_iff.mpr (h k hk)

theorem program_commented {s' comment : String} (hs : Separator s) (hs' : Separator s')
    (h : ∀ k ∈ Token.ofText comment, k.text ∉ t.names) :
    t.program (a ++ s ++ comment ++ s' ++ b) = t.program a ++ t.program b := by
  rw [program_separated hs', program_separated hs, program_eq_nil h, List.append_nil]

/-- The command can be written down: its name is a word, and no later row has the same name. -/
structure Spells (t : Catalogue) (c : Command) : Prop where
  listed : c ∈ t.commands
  nonempty : c.name ≠ ""
  letters : ∀ x ∈ c.name.toList, isWord x = true
  last : ∀ k ∈ t.commands, k.name = c.name → k.id ≤ c.id

theorem Spells.program_name (h : t.Spells c) : t.program c.name = [c] := by
  have hfound : t.named? c.name = some c := named?_eq_some_iff.mpr ⟨h.listed, rfl, h.last⟩
  unfold Catalogue.program
  rw [Token.ofText_letters h.nonempty h.letters]
  simp [hfound]

/-- The names of the commands, with `gap i` between the `i`-th one, from zero on, and the next. -/
def spelled (gap : Nat → String) : List Command → String
  | [] => ""
  | [c] => c.name
  | c :: d :: rest => c.name ++ gap 0 ++ spelled (fun i => gap (i + 1)) (d :: rest)

theorem program_spelled {gap : Nat → String} (hp : ∀ c ∈ program, t.Spells c)
    (hgap : ∀ i, Separator (gap i)) : t.program (spelled gap program) = program := by
  induction program generalizing gap with
  | nil => rfl
  | cons c rest ih =>
    obtain ⟨hc, hrest⟩ := List.forall_mem_cons.mp hp
    cases rest with
    | nil => exact hc.program_name
    | cons d rest =>
      show t.program (c.name ++ gap 0 ++ spelled (fun i => gap (i + 1)) (d :: rest)) = _
      rw [program_separated (hgap 0), hc.program_name, ih hrest fun i => hgap (i + 1)]
      rfl

theorem role_eq_keyword {k : Token} : k.role t = .keyword ↔ (t.named? k.text).isSome = true := by
  rw [← contains_eq_isSome, Token.role]
  cases t.contains k.text <;> simp

/-- The keywords of a text stand for its program. -/
theorem highlight_keywords (t : Catalogue) (text : String) :
    ((t.highlight text).filter (·.2 = .keyword)).map (fun k => t.named? k.1.text) =
      (t.program text).map some := by
  unfold highlight Catalogue.program
  induction Token.ofText text with
  | nil => rfl
  | cons k rest ih =>
    cases hk : t.named? k.text with
    | none =>
      have hrole : ¬ k.role t = .keyword := by simp [role_eq_keyword, hk]
      simpa [hrole, hk] using ih
    | some c =>
      have hrole : k.role t = .keyword := by simp [role_eq_keyword, hk]
      simpa [hrole, hk] using ih

end Catalogue

/-! ## Main statement -/

open Token (Separator)

/-- Where a separator stands between two texts, the tokens are those of the first text and then
those of the second one, moved behind it, and the program is that of the first text and then that of
the second one. So a text between two separators changes nothing if its words name no command.
Commands that can be written down are read back from their names, whatever separators stand between
them. And the keywords of a text, looked up one by one, are the commands of its program. -/
theorem texts_spell_programs (t : Catalogue) :
    (∀ a s b : String, Separator s →
      Token.ofText (a ++ s ++ b) =
          Token.ofText a ++ (Token.ofText b).map (Token.shift (a.length + s.length)) ∧
        t.program (a ++ s ++ b) = t.program a ++ t.program b) ∧
    (∀ a s comment s' b : String, Separator s → Separator s' →
      (∀ k ∈ Token.ofText comment, k.text ∉ t.names) →
        t.program (a ++ s ++ comment ++ s' ++ b) = t.program (a ++ s ++ s' ++ b)) ∧
    (∀ (program : List Command) (gap : Nat → String), (∀ c ∈ program, t.Spells c) →
      (∀ i, Separator (gap i)) → t.program (Catalogue.spelled gap program) = program) ∧
    ∀ text : String,
      ((t.highlight text).filter (·.2 = .keyword)).map (fun k => t.named? k.1.text) =
        (t.program text).map some := by
  refine ⟨fun a s b hs => ⟨Token.ofText_separated hs, Catalogue.program_separated hs⟩, ?_,
    fun program gap => Catalogue.program_spelled, t.highlight_keywords⟩
  intro a s comment s' b hs hs' hcomment
  have hnone : t.program (a ++ s ++ "" ++ s' ++ b) = t.program a ++ t.program b :=
    Catalogue.program_commented hs hs' (List.forall_mem_nil _)
  rw [Catalogue.program_commented hs hs' hcomment, ← hnone, String.append_empty]

/-- A catalogue with a name that is no word and one that two rows have. The later of these is read
back, with another command behind a comma, and words that only together are a name are a comment. -/
theorem texts_spell_programs_later_row :
    let t : Catalogue :=
      ⟨1, [("up", .increment), ("a b", .clear), ("up", .decrement), ("é", .left)]⟩
    let later : Command := ⟨1, 2, "up", .decrement⟩
    let program : List Command := [later, ⟨1, 3, "é", .left⟩]
    (∀ c ∈ program, t.Spells c) ∧ Separator ", " ∧ t.program "up, é" = program ∧
      t.program ("up, é" ++ ", " ++ "up") = program ++ [later] ∧
      t.program ("up, é" ++ ", " ++ "a b" ++ ", " ++ "up") =
        t.program ("up, é" ++ ", " ++ ", " ++ "up") := by
  intro t later program
  have hup : "up".toList.all isWord = true := by rfl
  have hé : "é".toList.all isWord = true := by rfl
  have hlater : t.Spells later := ⟨by decide, by decide, List.all_eq_true.mp hup, by decide⟩
  have hleft : t.Spells ⟨1, 3, "é", .left⟩ :=
    ⟨by decide, by decide, List.all_eq_true.mp hé, by decide⟩
  have hspells : ∀ c ∈ program, t.Spells c :=
    List.forall_mem_cons.mpr ⟨hlater, List.forall_mem_singleton.mpr hleft⟩
  have hblank : ", ".toList.all (fun c => isWord c == false) = true := by rfl
  have hcomma : Separator ", " := ⟨by decide, by simpa using hblank⟩
  obtain ⟨hseparated, hcommented, hspelled, -⟩ := texts_spell_programs t
  have hread : t.program "up, é" = program :=
    hspelled program (fun _ => ", ") hspells fun _ => hcomma
  refine ⟨hspells, hcomma, hread, ?_, hcommented _ _ _ _ _ hcomma hcomma (by decide +kernel)⟩
  rw [(hseparated _ _ _ hcomma).2, hread, hlater.program_name]

end Moo
