import Moo.Text.Line

/-!
# Stripping and splitting lines

What stripping leaves of a text is told by what it has at its ends (`dropWhileEnd_eq_iff`,
`stripBy_eq_iff`), and the lines of a text by where its newlines are (`splits_lines`).
-/

namespace Moo.Text

variable {p : Char → Bool} {cs u v : List Char}

/-! ## Stripping -/

/-- This is left of a text when all that satisfies `p` is dropped from its end. -/
structure TrimsTo (p : Char → Bool) (cs u : List Char) : Prop where
  dropped : ∃ v, cs = u ++ v ∧ ∀ c ∈ v, p c = true
  last : ∀ c ∈ u.getLast?, p c = false

structure StripsTo (p : Char → Bool) (cs u : List Char) : Prop where
  dropped : ∃ v w, cs = v ++ u ++ w ∧ (∀ c ∈ v, p c = true) ∧ ∀ c ∈ w, p c = true
  first : ∀ c ∈ u.head?, p c = false
  last : ∀ c ∈ u.getLast?, p c = false

theorem dropWhile_of_head (h : ∀ c ∈ cs.head?, p c = false) : cs.dropWhile p = cs := by
  cases cs with
  | nil => rfl
  | cons c rest => exact List.dropWhile_cons_of_neg (by rw [h c rfl]; decide)

theorem head_dropWhile (p : Char → Bool) (cs : List Char) :
    ∀ c ∈ (cs.dropWhile p).head?, p c = false := by
  intro c hc
  have hnot := List.head?_dropWhile_not p cs
  rw [Option.mem_def.mp hc] at hnot
  exact hnot

theorem dropWhileEnd_append (hv : ∀ c ∈ v, p c = true) (hu : ∀ c ∈ u.getLast?, p c = false) :
    dropWhileEnd p (u ++ v) = u := by
  unfold dropWhileEnd
  rw [List.reverse_append, List.dropWhile_append_of_pos (by simpa using hv), dropWhile_of_head,
    List.reverse_reverse]
  rwa [List.head?_reverse]

theorem dropWhileEnd_eq_iff : dropWhileEnd p cs = u ↔ TrimsTo p cs u := by
  constructor
  · rintro rfl
    refine ⟨⟨(cs.reverse.takeWhile p).reverse, ?_, fun c hc => ?_⟩, ?_⟩
    · unfold dropWhileEnd
      rw [← List.reverse_append, List.takeWhile_append_dropWhile, List.reverse_reverse]
    · exact List.all_eq_true.mp List.all_takeWhile c (List.mem_reverse.mp hc)
    · unfold dropWhileEnd
      rw [List.getLast?_reverse]
      exact head_dropWhile p _
  · rintro ⟨⟨v, rfl, hv⟩, hu⟩
    exact dropWhileEnd_append hv hu

theorem stripBy_eq_iff : stripBy p cs = u ↔ StripsTo p cs u := by
  unfold stripBy
  constructor
  · intro h
    obtain ⟨⟨w, hw, hall⟩, hlast⟩ := dropWhileEnd_eq_iff.mp h
    refine ⟨⟨cs.takeWhile p, w, ?_, List.all_eq_true.mp List.all_takeWhile, hall⟩, fun c hc => ?_,
      hlast⟩
    · rw [List.append_assoc, ← hw, List.takeWhile_append_dropWhile]
    · refine head_dropWhile p cs c ?_
      rw [hw, List.head?_append, Option.mem_def.mp hc]
      rfl
  · rintro ⟨⟨v, w, rfl, hv, hw⟩, hfirst, hlast⟩
    rw [List.append_assoc, List.dropWhile_append_of_pos hv]
    cases u with
    | nil =>
      -- nothing is left, so what is dropped at the end may be dropped at the front
      have hnone := @List.dropWhile_append_of_pos _ p w [] hw
      rw [List.append_nil] at hnone
      rw [List.nil_append, hnone]
      rfl
    | cons c rest =>
      rw [dropWhile_of_head (by exact hfirst)]
      exact dropWhileEnd_append hw hlast

theorem stripBy_of_none (h : ∀ c ∈ cs, p c = false) : stripBy p cs = cs :=
  stripBy_eq_iff.mpr ⟨⟨[], [], by simp, by simp, by simp⟩, fun c hc => h c (List.mem_of_head? hc),
    fun c hc => h c (List.mem_of_getLast? hc)⟩

def isLineEnd (c : Char) : Bool := c == '\n' || c == '\r'

theorem chomp_eq_iff : chomp cs = u ↔ TrimsTo isLineEnd cs u := dropWhileEnd_eq_iff

theorem chomp_newline (h : ∀ c ∈ cs, c ≠ '\n' ∧ c ≠ '\r') : chomp (cs ++ ['\n']) = cs := by
  refine dropWhileEnd_append (by simp) fun c hc => ?_
  obtain ⟨hn, hr⟩ := h c (List.mem_of_getLast? hc)
  simp [hn, hr]

/-! ## Splitting -/

/-- The text is split after each newline: what comes up to the first one is a line, and so is what
comes after the last one, if there is anything. -/
inductive Splits : List Char → List (List Char) → Prop where
  | none : Splits [] []
  | last {line : List Char} : line ≠ [] → '\n' ∉ line → Splits line [line]
  | line {line rest : List Char} {more : List (List Char)} :
      '\n' ∉ line → Splits rest more →
      Splits (line ++ '\n' :: rest) ((line ++ ['\n']) :: more)

theorem lines_cons_newline (h : '\n' ∉ cs) (rest : List Char) :
    lines (cs ++ '\n' :: rest) = (cs ++ ['\n']) :: lines rest := by
  induction cs with
  | nil => exact if_pos rfl
  | cons c cs ih =>
    rw [List.mem_cons, not_or] at h
    rw [List.cons_append, lines, if_neg (Ne.symm h.1), ih h.2]
    rfl

theorem splits_lines (cs : List Char) : Splits cs (lines cs) := by
  induction cs with
  | nil => exact .none
  | cons c rest ih =>
    unfold lines
    split
    · next hc =>
      rw [hc]
      exact .line List.not_mem_nil ih
    · next hc =>
      -- the character stands before the first line of what follows, if there is one
      have front : ∀ line : List Char, '\n' ∉ line → '\n' ∉ c :: line :=
        fun line h => List.not_mem_cons_of_ne_of_not_mem (Ne.symm hc) h
      generalize lines rest = ls at ih ⊢
      cases ih with
      | none => exact .last (List.cons_ne_nil _ _) (front [] List.not_mem_nil)
      | last hne hn => exact .last (List.cons_ne_nil _ _) (front _ hn)
      | line hn hrest => exact .line (front _ hn) hrest

theorem lines_flatten {ls : List (List Char)} (h : ∀ l ∈ ls, '\n' ∉ l) :
    lines (ls.map (· ++ ['\n'])).flatten = ls.map (· ++ ['\n']) := by
  induction ls with
  | nil => rfl
  | cons l ls ih =>
    obtain ⟨hl, hls⟩ := List.forall_mem_cons.mp h
    rw [List.map_cons, List.flatten_cons, List.append_assoc, List.singleton_append,
      lines_cons_newline hl, ih hls]

end Moo.Text
