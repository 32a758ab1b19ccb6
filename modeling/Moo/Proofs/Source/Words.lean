import Mathlib.Data.List.Sort
import Moo.Source

/-!
# Words

`k.IsWordOf text`: the token `k` is a piece of the text, letters throughout, that can be made longer
at neither end. The tokens of a text are all its words in order (`tokens_are_maximal_words`). The
scanner gets there because what it has gathered starts right behind a character that is no letter
(`Token.Gathers`); there are no others, since two words that share a position are the same
(`Token.IsWordOf.eq_of_common`).
-/

namespace Moo

open Text (isWord)

namespace Token

/-- The token is the text between its two positions, letters throughout, with no letter right before
or behind it. -/
structure IsWordOf (text : String) (k : Token) : Prop where
  nonempty : k.start < k.stop
  inside : k.stop ≤ text.length
  slice : k.text.toList = text.toList.extract k.start k.stop
  letters : ∀ c ∈ k.text.toList, isWord c = true
  before : ∀ c, 0 < k.start → text.toList[k.start - 1]? = some c → isWord c = false
  behind : ∀ c, text.toList[k.stop]? = some c → isWord c = false

/-- The tokens are words of the text, apart from each other and in order, and no letter of the text
is left out. -/
structure Divide (text : String) (tokens : List Token) : Prop where
  rising : tokens.IsChain (·.start < ·.start)
  apart : tokens.IsChain (·.stop < ·.start)
  words : ∀ k ∈ tokens, k.IsWordOf text
  covered : ∀ i c, text.toList[i]? = some c → isWord c = true →
    ∃ k ∈ tokens, k.start ≤ i ∧ i < k.stop

variable {text : String} {tokens tokens' : List Token} {k l : Token} {i pos : Nat}
  {before gathered rest : List Char} {c : Char}

/-! ## Words share no position -/

theorem IsWordOf.letter (h : k.IsWordOf text) (hi : k.start ≤ i) (hi' : i < k.stop) :
    ∃ c, text.toList[i]? = some c ∧ isWord c = true := by
  have hlt : i < text.toList.length := by
    rw [String.length_toList]
    exact Nat.lt_of_lt_of_le hi' h.inside
  refine ⟨text.toList[i], List.getElem?_eq_getElem hlt, h.letters _ ?_⟩
  rw [h.slice, List.mem_iff_getElem?]
  refine ⟨i - k.start, ?_⟩
  rw [List.getElem?_take_of_lt (by omega), List.getElem?_drop, Nat.add_sub_cancel' hi,
    List.getElem?_eq_getElem hlt]

theorem IsWordOf.start_le (hk : k.IsWordOf text) (hl : l.IsWordOf text) (hlt : i < k.stop)
    (hle : l.start ≤ i) : l.start ≤ k.start := by
  by_contra hbefore
  obtain ⟨c, hc, hletter⟩ := hk.letter (i := l.start - 1) (by omega) (by omega)
  have hno := hl.before c (by omega) hc
  rw [hletter] at hno
  cases hno

theorem IsWordOf.stop_le (hk : k.IsWordOf text) (hl : l.IsWordOf text) (hle : k.start ≤ i)
    (hlt : i < l.stop) : k.stop ≤ l.stop := by
  by_contra hbehind
  obtain ⟨c, hc, hletter⟩ := hk.letter (i := l.stop) (by omega) (by omega)
  have hno := hl.behind c hc
  rw [hletter] at hno
  cases hno

theorem IsWordOf.eq_of_common (hk : k.IsWordOf text) (hl : l.IsWordOf text) (hi : k.start ≤ i)
    (hi' : i < k.stop) (hle : l.start ≤ i) (hlt : i < l.stop) : k = l := by
  have hstart : k.start = l.start :=
    Nat.le_antisymm (hl.start_le hk hlt hi) (hk.start_le hl hi' hle)
  have hstop : k.stop = l.stop :=
    Nat.le_antisymm (hk.stop_le hl hi hlt) (hl.stop_le hk hle hi')
  have htext : k.text = l.text := by
    rw [← String.toList_inj, hk.slice, hl.slice, hstart, hstop]
  cases k
  cases l
  cases hstart
  cases hstop
  cases htext
  rfl

/-- The tokens are all the words there are. -/
theorem Divide.mem_iff (h : Divide text tokens) : k ∈ tokens ↔ k.IsWordOf text := by
  refine ⟨h.words k, fun hk => ?_⟩
  obtain ⟨c, hc, hletter⟩ := hk.letter (Nat.le_refl _) hk.nonempty
  obtain ⟨l, hl, hle, hlt⟩ := h.covered k.start c hc hletter
  rwa [hk.eq_of_common (h.words l hl) (Nat.le_refl _) hk.nonempty hle hlt]

/-- A text is divided in one way only. -/
theorem Divide.unique (h : Divide text tokens) (h' : Divide text tokens') : tokens = tokens' := by
  let Before (k l : Token) : Prop := k.start < l.start
  have : Trans Before Before Before := ⟨Nat.lt_trans⟩
  have : Std.Irrefl Before := ⟨fun _ => Nat.lt_irrefl _⟩
  have : Std.Antisymm Before := ⟨fun _ _ h h' => absurd h (Nat.lt_asymm h')⟩
  exact List.Pairwise.eq_of_mem_iff (r := Before) h.rising.pairwise h'.rising.pairwise
    fun k => h.mem_iff.trans h'.mem_iff.symm

/-! ## What is gathered -/

/-- The text is what came before, the letters gathered and the rest, and what came before does not
end with a letter. -/
structure Gathers (text : String) (before gathered rest : List Char) : Prop where
  text : text.toList = before ++ (gathered.reverse ++ rest)
  letters : ∀ c ∈ gathered, isWord c = true
  boundary : ∀ c ∈ before.getLast?, isWord c = false

theorem Gathers.cons (h : Gathers text before gathered (c :: rest)) (hc : isWord c = true) :
    Gathers text before (c :: gathered) rest where
  text := by rw [h.text, List.reverse_cons, List.append_assoc, List.singleton_append]
  letters := List.forall_mem_cons.mpr ⟨hc, h.letters⟩
  boundary := h.boundary

theorem Gathers.pass (h : Gathers text before gathered (c :: rest)) (hc : isWord c = false) :
    Gathers text (before ++ gathered.reverse ++ [c]) [] rest where
  text := by simp [h.text]
  letters := List.forall_mem_nil _
  boundary := by simpa using hc

/-- What is gathered before a character that is no letter, or before the end, is a word. -/
theorem Gathers.isWordOf (h : Gathers text before gathered rest) (hne : gathered ≠ [])
    (hrest : ∀ c ∈ rest.head?, isWord c = false) :
    IsWordOf text
      ⟨String.ofList gathered.reverse, before.length, before.length + gathered.length⟩ where
  nonempty := Nat.lt_add_of_pos_right (List.length_pos_iff.mpr hne)
  inside := by
    rw [← String.length_toList, h.text]
    simp only [List.length_append, List.length_reverse]
    omega
  slice := by
    rw [String.toList_ofList, h.text, List.extract, List.drop_left, Nat.add_sub_cancel_left,
      ← List.length_reverse, List.take_left]
  letters c hc := by
    rw [String.toList_ofList, List.mem_reverse] at hc
    exact h.letters c hc
  before c hpos hc := by
    change 0 < before.length at hpos
    change text.toList[before.length - 1]? = some c at hc
    rw [h.text, List.getElem?_append_left (by omega), ← List.getLast?_eq_getElem?] at hc
    exact h.boundary c hc
  behind c hc := by
    change text.toList[before.length + gathered.length]? = some c at hc
    rw [h.text, List.getElem?_append_right (by omega), Nat.add_sub_cancel_left,
      ← List.length_reverse, List.getElem?_append_right (Nat.le_refl _), Nat.sub_self,
      ← List.head?_eq_getElem?] at hc
    exact hrest c hc

/-! ## The scanner -/

structure DivideFrom (text : String) (pos : Nat) (tokens : List Token) : Prop where
  later : ∀ k ∈ tokens, pos ≤ k.start
  apart : tokens.Pairwise (·.stop < ·.start)
  words : ∀ k ∈ tokens, k.IsWordOf text
  covered : ∀ i c, pos ≤ i → text.toList[i]? = some c → isWord c = true →
    ∃ k ∈ tokens, k.start ≤ i ∧ i < k.stop

theorem ofGathered_of_ne_nil (h : gathered ≠ []) (stop : Nat) :
    ofGathered gathered stop =
      [⟨String.ofList gathered.reverse, stop - gathered.length, stop⟩] := by
  unfold ofGathered
  rw [if_neg (by simpa using h)]

theorem scan_cons_of_letter (hc : isWord c = true) :
    scan pos gathered (c :: rest) = scan (pos + 1) (c :: gathered) rest := if_pos hc

theorem scan_cons_of_other (hc : isWord c = false) :
    scan pos gathered (c :: rest) = ofGathered gathered pos ++ scan (pos + 1) [] rest := by
  rw [scan, hc]
  rfl

/-- What is gathered comes first among the tokens of the text. -/
theorem Gathers.divideFrom (h : Gathers text before gathered rest)
    (hrest : ∀ c ∈ rest.head?, isWord c = false)
    (htokens : DivideFrom text (before.length + gathered.length + 1) tokens) :
    DivideFrom text before.length
      (ofGathered gathered (before.length + gathered.length) ++ tokens) := by
  -- the position right behind what is gathered has no letter
  have covered : ∀ i c, before.length + gathered.length ≤ i → text.toList[i]? = some c →
      isWord c = true → ∃ k ∈ tokens, k.start ≤ i ∧ i < k.stop := by
    intro i c hi hc hletter
    rcases Nat.lt_or_eq_of_le hi with hlt | rfl
    · exact htokens.covered i c hlt hc hletter
    · rw [h.text, List.getElem?_append_right (by omega), Nat.add_sub_cancel_left,
        ← List.length_reverse, List.getElem?_append_right (Nat.le_refl _), Nat.sub_self,
        ← List.head?_eq_getElem?] at hc
      rw [hrest c hc] at hletter
      cases hletter
  by_cases hne : gathered = []
  · subst hne
    exact ⟨fun k hk => Nat.le_of_succ_le (htokens.later k hk), htokens.apart, htokens.words,
      covered⟩
  · rw [ofGathered_of_ne_nil hne, Nat.add_sub_cancel, List.singleton_append]
    refine ⟨List.forall_mem_cons.mpr ⟨Nat.le_refl _, fun k hk => ?_⟩,
      List.pairwise_cons.mpr ⟨fun k hk => htokens.later k hk, htokens.apart⟩,
      List.forall_mem_cons.mpr ⟨h.isWordOf hne hrest, htokens.words⟩, fun i c hi hc hletter => ?_⟩
    · have hle := htokens.later k hk
      omega
    · rcases Nat.lt_or_ge i (before.length + gathered.length) with hlt | hge
      · exact ⟨_, List.mem_cons_self, hi, hlt⟩
      · obtain ⟨k, hk, hin⟩ := covered i c hge hc hletter
        exact ⟨k, List.mem_cons_of_mem _ hk, hin⟩

theorem DivideFrom.nil (h : text.length ≤ pos) : DivideFrom text pos [] where
  later := List.forall_mem_nil _
  apart := .nil
  words := List.forall_mem_nil _
  covered i c hi hc := by
    rw [List.getElem?_eq_none (by rw [String.length_toList]; omega)] at hc
    cases hc

/-- The scanner divides the text from where it has started to gather. -/
theorem Gathers.scan (h : Gathers text before gathered rest) :
    DivideFrom text before.length (Token.scan (before.length + gathered.length) gathered rest) := by
  induction rest generalizing before gathered with
  | nil =>
    have hlength : text.length = before.length + gathered.length := by
      rw [← String.length_toList, h.text]
      simp
    rw [Token.scan, ← List.append_nil (ofGathered _ _)]
    exact h.divideFrom nofun (.nil (by omega))
  | cons c rest ih =>
    cases hc : isWord c with
    | true =>
      rw [scan_cons_of_letter hc]
      exact ih (h.cons hc)
    | false =>
      have htokens := ih (h.pass hc)
      simp only [List.length_append, List.length_reverse, List.length_singleton, List.length_nil,
        Nat.add_zero] at htokens
      rw [scan_cons_of_other hc]
      exact h.divideFrom (by simpa using hc) htokens

theorem divide_ofText (text : String) : Divide text (ofText text) := by
  have hstart : Gathers text [] [] text.toList := ⟨rfl, List.forall_mem_nil _, nofun⟩
  have h : DivideFrom text 0 (ofText text) := hstart.scan
  refine ⟨List.Pairwise.isChain (h.apart.imp_of_mem fun {k l} hk _ hlt => ?_),
    List.Pairwise.isChain h.apart, h.words, fun i c => h.covered i c (Nat.zero_le i)⟩
  exact Nat.lt_trans (h.words k hk).nonempty hlt

end Token

/-! ## Main statement -/

/-- The tokens of a text are its maximal words, and no other list of tokens is: their starts rise,
each ends before the next one starts, each is the text between its two positions, letters
throughout, with no letter right before or behind it, and every letter of the text lies in one of
them. -/
theorem tokens_are_maximal_words (text : String) (tokens : List Token) :
    Token.Divide text tokens ↔ tokens = Token.ofText text := by
  constructor
  · intro h
    exact h.unique (Token.divide_ofText text)
  · rintro rfl
    exact Token.divide_ofText text

end Moo
