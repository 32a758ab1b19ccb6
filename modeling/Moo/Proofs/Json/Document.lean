import Moo.Proofs.Json.Sorted
import Moo.Proofs.Json.Spelling

/-!
# Documents are read back

`Reads depth t v`: wherever the text `t` stands in a document, it is read as the value `v`, which
opens at most `depth` containers. The indented document of a plain value is read back as the value
with its members in order (`parse?_pretty`), if it nests no deeper and its integers are no longer
than is read.
-/

namespace Moo.Json

/-! ## Texts that are read as values -/

/-- What a value does not begin with: a blank, or the end of an array or an object. -/
def notInFront : List Char := [' ', '\t', '\n', '\r', ']', '\x7d']

def Begins (t : List Char) : Prop := ∃ c cs, t = c :: cs ∧ c ∉ notInFront

/-- Wherever it stands, the text is read as the value. -/
structure Reads (depth : Nat) (t : List Char) (v : Json) : Prop where
  begins : Begins t
  value : ∀ fuel rest, Stops rest → 2 * t.length < fuel →
    value? fuel depth (t ++ rest) = some (v, rest)

theorem Begins.append {t : List Char} (h : Begins t) (rest : List Char) : Begins (t ++ rest) := by
  obtain ⟨c, cs, rfl, hc⟩ := h
  exact ⟨c, cs ++ rest, rfl, hc⟩

theorem Begins.skipBlanks {t : List Char} (h : Begins t) : skipBlanks t = t := by
  obtain ⟨c, cs, rfl, hc⟩ := h
  have hblank : (c == ' ' || c == '\t' || c == '\n' || c == '\r') = false := by
    simp only [notInFront, List.mem_cons, not_or] at hc
    simp [hc]
  exact List.dropWhile_cons_of_neg (Bool.eq_false_iff.mp hblank)

def breakAt (depth : Nat) : List Char := (newline depth).toList

theorem breakAt_eq (depth : Nat) : breakAt depth = '\n' :: List.replicate (2 * depth) ' ' := by
  unfold breakAt newline
  rw [String.toList_append]
  exact congrArg ('\n' :: ·) String.toList_ofList

theorem stops_breakAt (depth : Nat) (rest : List Char) : Stops (breakAt depth ++ rest) := by
  rw [breakAt_eq]
  exact stops_newline _

theorem skipBlanks_breakAt (depth : Nat) (rest : List Char) :
    skipBlanks (breakAt depth ++ rest) = skipBlanks rest := by
  refine List.dropWhile_append_of_pos fun c hc => ?_
  rw [breakAt_eq, List.mem_cons] at hc
  rcases hc with rfl | hc
  · rfl
  · rw [(List.mem_replicate.mp hc).2]
    rfl

/-! ### Scalars -/

variable {depth : Nat}

theorem value?_of_scalar {c : Char} (hopen : c ≠ '[') (hbrace : c ≠ '\x7b') (fuel depth : Nat)
    (cs : List Char) : value? (fuel + 1) depth (c :: cs) = scalar? (c :: cs) := by
  rw [value?.eq_def]
  dsimp only
  split
  · next heq => exact absurd (List.cons.inj heq).1 hopen
  · next heq => exact absurd (List.cons.inj heq).1 hbrace
  · rfl

theorem Reads.of_scalar {c : Char} {cs : List Char} {v : Json}
    (hc : c ∉ '[' :: '\x7b' :: notInFront)
    (h : ∀ rest, Stops rest → scalar? (c :: (cs ++ rest)) = some (v, rest)) :
    Reads depth (c :: cs) v := by
  rw [List.mem_cons, List.mem_cons, not_or, not_or] at hc
  refine ⟨⟨c, cs, rfl, hc.2.2⟩, fun fuel rest hrest hfuel => ?_⟩
  obtain ⟨fuel, rfl⟩ := Nat.exists_eq_add_of_lt hfuel
  exact (value?_of_scalar hc.1 hc.2.1 _ depth _).trans (h rest hrest)

theorem reads_null : Reads depth "null".toList .null :=
  .of_scalar (by decide) fun _ _ => rfl

theorem reads_bool (b : Bool) : Reads depth (if b then "true" else "false").toList (.bool b) := by
  cases b with
  | false => exact .of_scalar (by decide) fun _ _ => rfl
  | true => exact .of_scalar (by decide) fun _ _ => rfl

theorem scalar?_digit {c : Char} (h : c.isDigit = true) (cs : List Char) :
    scalar? (c :: cs) = number? false (c :: cs) := by
  unfold scalar?
  split
  all_goals first
    | rfl
    | next heq =>
      rw [(List.cons.inj heq).1] at h
      exact absurd h (by decide)

theorem scalar?_minus {c : Char} (h : c.isDigit = true) (cs : List Char) :
    scalar? ('-' :: c :: cs) = number? true (c :: cs) := by
  have hword : word? "Infinity" (c :: cs) = none := by
    have hc : ('I' == c) = false :=
      beq_eq_false_iff_ne.mpr (Number.ne_of_isDigit h (by decide)).symm
    have htext : "Infinity".toList = 'I' :: "nfinity".toList := rfl
    unfold word?
    rw [htext, List.isPrefixOf_cons_cons, hc]
    rfl
  rw [scalar?, hword]

theorem reads_int {n : Int} (hn : Number.Legible n) :
    Reads depth (toString n).toList (.int n) := by
  have hdigit : ∀ c ∈ Nat.toDigits 10 n.natAbs, c.isDigit = true := fun c hc =>
    Number.isDigit_of_mem_toDigits hc
  have hnumber : ∀ negative rest, Stops rest → number? negative (Nat.toDigits 10 n.natAbs ++ rest) =
      some (.int (Number.withSign negative n.natAbs), rest) :=
    fun negative _ => number?_toDigits hn negative
  rw [Number.toList_toString_int]
  unfold Number.numeral
  cases hds : Nat.toDigits 10 n.natAbs with
  | nil => exact absurd hds Nat.toDigits_ne_nil
  | cons c ds =>
    rw [hds] at hdigit hnumber
    have hc := hdigit c List.mem_cons_self
    split
    · next hneg =>
      have hvalue : Number.withSign true n.natAbs = n := by
        show -(n.natAbs : Int) = n
        omega
      refine .of_scalar (by decide) fun rest hrest => ?_
      rw [List.cons_append, scalar?_minus hc, ← List.cons_append, hnumber true rest hrest, hvalue]
    · next hpos =>
      have hvalue : Number.withSign false n.natAbs = n := by
        show (n.natAbs : Int) = n
        omega
      have hdigits : ∀ x ∈ '[' :: '\x7b' :: notInFront, x.isDigit = false := by
        simp [notInFront]
      have hfront : c ∉ '[' :: '\x7b' :: notInFront := fun h =>
        Bool.false_ne_true ((hdigits c h).symm.trans hc)
      refine .of_scalar hfront fun rest hrest => ?_
      rw [scalar?_digit hc, ← List.cons_append, hnumber false rest hrest, hvalue]

theorem reads_text (s : String) : Reads depth (encodeString (.ofString s)).toList (.text s) := by
  rw [toList_encodeString]
  refine .of_scalar (by decide) fun rest _ => ?_
  rw [List.append_assoc]
  show (string? (_ ++ '\x22' :: rest)).map _ = _
  rw [string?_encoded]
  rfl

/-! ### Containers -/

/-- Texts with a comma and a line break between them. -/
def listed (depth : Nat) (texts : List (List Char)) : List Char :=
  (',' :: breakAt depth).intercalate texts

theorem listed_singleton (depth : Nat) (t : List Char) : listed depth [t] = t :=
  List.intercalate_singleton

theorem listed_cons_cons (depth : Nat) (t u : List Char) (texts : List (List Char)) :
    listed depth (t :: u :: texts) = t ++ ',' :: (breakAt depth ++ listed depth (u :: texts)) := by
  unfold listed
  rw [List.intercalate_cons_cons, List.append_assoc, List.cons_append]

theorem listed_map {α : Type} (depth : Nat) (f : α → List Char) (a b : α) (l : List α) :
    listed depth ((a :: b :: l).map f) =
      f a ++ ',' :: (breakAt depth ++ listed depth ((b :: l).map f)) :=
  listed_cons_cons depth _ _ _

theorem toList_block_nil (opening closing : String) (depth : Nat) :
    (block opening closing depth []).toList = opening.toList ++ closing.toList :=
  String.toList_append

theorem toList_block {opening closing : String} {texts : List String} (h : texts ≠ [])
    (depth : Nat) :
    (block opening closing depth texts).toList =
      opening.toList ++ (breakAt (depth + 1) ++ (listed (depth + 1) (texts.map String.toList) ++
        (breakAt depth ++ closing.toList))) := by
  have hne : texts.isEmpty = false := List.isEmpty_eq_false_iff.mpr h
  have hcomma : ("," ++ newline (depth + 1)).toList = ',' :: breakAt (depth + 1) := by
    rw [String.toList_append]
    rfl
  unfold block
  rw [hne]
  simp only [Bool.false_eq_true, if_false, String.toList_append, String.toList_intercalate, hcomma,
    List.append_assoc]
  rfl

theorem begins_listed {texts : List (List Char)} (hne : texts ≠ []) (h : ∀ t ∈ texts, Begins t)
    (depth : Nat) : Begins (listed depth texts) := by
  obtain ⟨t, texts, rfl⟩ := List.exists_cons_of_ne_nil hne
  have ht := h t List.mem_cons_self
  cases texts with
  | nil =>
    rw [listed_singleton]
    exact ht
  | cons u texts =>
    rw [listed_cons_cons]
    exact ht.append _

theorem items?_last {fuel : Nat} {cs rest after : List Char} {v : Json}
    (hv : value? fuel depth cs = some (v, rest)) (hb : skipBlanks rest = ']' :: after) :
    items? (fuel + 1) depth cs = some ([v], after) := by
  rw [items?, hv]
  simp only [hb]

theorem items?_more {fuel : Nat} {cs rest after : List Char} {v : Json}
    (hv : value? fuel depth cs = some (v, rest)) (hb : skipBlanks rest = ',' :: after) :
    items? (fuel + 1) depth cs =
      (items? fuel depth (skipBlanks after)).map fun found => (v :: found.1, found.2) := by
  rw [items?, hv]
  simp only [hb]

theorem items?_listed {α : Type} {text : α → List Char} {value : α → Json} {items : List α}
    (hne : items ≠ []) (h : ∀ a ∈ items, Reads depth (text a) (value a)) (k j : Nat)
    (rest : List Char) (fuel : Nat) (hfuel : 2 * (listed k (items.map text)).length + 1 < fuel) :
    items? fuel depth (listed k (items.map text) ++ (breakAt j ++ ']' :: rest)) =
      some (items.map value, rest) := by
  induction items generalizing fuel with
  | nil => exact absurd rfl hne
  | cons a items ih =>
    obtain ⟨fuel, rfl⟩ := Nat.exists_eq_add_one_of_ne_zero (Nat.ne_zero_of_lt hfuel)
    obtain ⟨ha, hitems⟩ := List.forall_mem_cons.mp h
    cases items with
    | nil =>
      rw [List.map_singleton, listed_singleton] at hfuel ⊢
      exact items?_last (ha.value _ _ (stops_breakAt j _) (by omega)) (skipBlanks_breakAt j _)
    | cons b items =>
      rw [listed_map] at hfuel ⊢
      simp only [List.length_append, List.length_cons] at hfuel
      have hbegins : Begins (listed k ((b :: items).map text)) :=
        begins_listed (List.cons_ne_nil _ _)
          (List.forall_mem_map.mpr fun c hc => (hitems c hc).begins) k
      rw [List.append_assoc, List.cons_append, List.append_assoc,
        items?_more (ha.value _ _ (stops_comma _) (by omega)) rfl, skipBlanks_breakAt,
        (hbegins.append _).skipBlanks, ih (List.cons_ne_nil b items) hitems _ (by omega)]
      rfl

def memberText (name : JsonText) (t : List Char) : List Char :=
  (encodeString name).toList ++ ':' :: ' ' :: t

theorem memberText_eq (s : String) (t : List Char) :
    memberText (.ofString s) t =
      '\x22' :: (s.toList.flatMap escapeChar ++ '\x22' :: ':' :: ' ' :: t) := by
  unfold memberText
  rw [toList_encodeString, List.cons_append, List.append_assoc]
  rfl

theorem begins_memberText {name : JsonText} (h : ∃ s, name = .ofString s) (t : List Char) :
    Begins (memberText name t) := by
  obtain ⟨s, rfl⟩ := h
  exact ⟨'\x22', _, memberText_eq s t, by decide⟩

theorem memberText_append (name : JsonText) (t rest : List Char) :
    memberText name t ++ rest = memberText name (t ++ rest) := by
  unfold memberText
  rw [List.append_assoc]
  rfl

theorem length_le_memberText (name : JsonText) (t : List Char) :
    t.length ≤ (memberText name t).length := by
  unfold memberText
  simp only [List.length_append, List.length_cons]
  omega

theorem members?_last {fuel : Nat} {name : JsonText} {cs rest after : List Char} {v : Json}
    (hname : ∃ s, name = .ofString s) (hv : value? fuel depth (skipBlanks cs) = some (v, rest))
    (hb : skipBlanks rest = '\x7d' :: after) :
    members? (fuel + 1) depth (memberText name cs) = some ([(name, v)], after) := by
  obtain ⟨s, rfl⟩ := hname
  have hblank : skipBlanks (':' :: ' ' :: cs) = ':' :: ' ' :: cs := rfl
  have hvalue : value? fuel depth (skipBlanks (' ' :: cs)) = some (v, rest) := hv
  rw [memberText_eq, members?, string?_encoded]
  simp only [hblank, hvalue, hb]

theorem members?_more {fuel : Nat} {name : JsonText} {cs rest after : List Char} {v : Json}
    (hname : ∃ s, name = .ofString s) (hv : value? fuel depth (skipBlanks cs) = some (v, rest))
    (hb : skipBlanks rest = ',' :: after) :
    members? (fuel + 1) depth (memberText name cs) =
      (members? fuel depth (skipBlanks after)).map fun found =>
        ((name, v) :: found.1, found.2) := by
  obtain ⟨s, rfl⟩ := hname
  have hblank : skipBlanks (':' :: ' ' :: cs) = ':' :: ' ' :: cs := rfl
  have hvalue : value? fuel depth (skipBlanks (' ' :: cs)) = some (v, rest) := hv
  rw [memberText_eq, members?, string?_encoded]
  simp only [hblank, hvalue, hb]

theorem members?_listed {text : JsonText × Json → List Char} {value : JsonText × Json → Json}
    {members : List (JsonText × Json)} (hne : members ≠ [])
    (hnames : ∀ m ∈ members, ∃ s, m.1 = JsonText.ofString s)
    (h : ∀ m ∈ members, Reads depth (text m) (value m)) (k j : Nat) (rest : List Char) (fuel : Nat)
    (hfuel : 2 * (listed k (members.map fun m => memberText m.1 (text m))).length + 1 < fuel) :
    members? fuel depth
        (listed k (members.map fun m => memberText m.1 (text m)) ++ (breakAt j ++ '\x7d' :: rest)) =
      some (members.map fun m => (m.1, value m), rest) := by
  induction members generalizing fuel with
  | nil => exact absurd rfl hne
  | cons m members ih =>
    obtain ⟨fuel, rfl⟩ := Nat.exists_eq_add_one_of_ne_zero (Nat.ne_zero_of_lt hfuel)
    obtain ⟨hname, hnames⟩ := List.forall_mem_cons.mp hnames
    obtain ⟨hm, hmembers⟩ := List.forall_mem_cons.mp h
    have hlen := length_le_memberText m.1 (text m)
    have hvalue : ∀ rest, Stops rest → 2 * (text m).length < fuel →
        value? fuel depth (skipBlanks (text m ++ rest)) = some (value m, rest) := by
      intro rest hrest hlt
      rw [(hm.begins.append rest).skipBlanks]
      exact hm.value _ _ hrest hlt
    cases members with
    | nil =>
      rw [List.map_singleton, listed_singleton] at hfuel ⊢
      rw [memberText_append]
      exact members?_last hname (hvalue _ (stops_breakAt j _) (by omega)) (skipBlanks_breakAt j _)
    | cons n members =>
      rw [listed_map] at hfuel ⊢
      simp only [List.length_append, List.length_cons] at hfuel
      have hbegins : Begins (listed k ((n :: members).map fun m => memberText m.1 (text m))) :=
        begins_listed (List.cons_ne_nil _ _)
          (List.forall_mem_map.mpr fun c hc => begins_memberText (hnames c hc) _) k
      rw [List.append_assoc, List.cons_append, List.append_assoc, memberText_append,
        members?_more hname (hvalue _ (stops_comma _) (by omega)) rfl, skipBlanks_breakAt,
        (hbegins.append _).skipBlanks, ih (List.cons_ne_nil n members) hnames hmembers _ (by omega)]
      rfl

theorem put_of_not_mem {k : JsonText} {known : List (JsonText × Json)}
    (h : k ∉ known.map Prod.fst) (v : Json) : put k v known = known ++ [(k, v)] := by
  induction known with
  | nil => rfl
  | cons m known ih =>
    rw [List.map_cons, List.mem_cons, not_or] at h
    rw [put, if_neg (Ne.symm h.1), ih h.2, List.cons_append]

theorem foldl_put {rest known : List (JsonText × Json)}
    (h : ((known ++ rest).map Prod.fst).Nodup) :
    rest.foldl (fun known m => put m.1 m.2 known) known = known ++ rest := by
  induction rest generalizing known with
  | nil => exact (List.append_nil known).symm
  | cons m rest ih =>
    have hm : m.1 ∉ known.map Prod.fst := by
      rw [List.map_append, List.map_cons, List.nodup_append] at h
      exact fun hmem => h.2.2 _ hmem _ List.mem_cons_self rfl
    rw [List.foldl_cons, put_of_not_mem hm, ih (by rwa [List.append_assoc]), List.append_assoc]
    rfl

theorem collect_of_nodup {members : List (JsonText × Json)} (h : (members.map Prod.fst).Nodup) :
    collect members = members := by
  have hnil : (([] ++ members).map Prod.fst).Nodup := h
  exact foldl_put hnil

theorem Begins.ne_cons {t : List Char} (h : Begins t) {c : Char} (hc : c ∈ notInFront)
    (cs : List Char) : t ≠ c :: cs := by
  rintro rfl
  obtain ⟨c', cs', heq, hc'⟩ := h
  exact hc' ((List.cons.inj heq).1 ▸ hc)

theorem value?_open {cs t : List Char} (hs : skipBlanks cs = t) (h : Begins t) (fuel : Nat) :
    value? (fuel + 1) (depth + 1) ('[' :: cs) =
      (items? fuel depth t).map fun found => (.arr found.1, found.2) := by
  subst hs
  have hclosed : ∀ after, skipBlanks cs = ']' :: after → False := h.ne_cons (by decide)
  simp only [value?]

theorem value?_brace {cs t : List Char} (hs : skipBlanks cs = t) (h : Begins t) (fuel : Nat) :
    value? (fuel + 1) (depth + 1) ('\x7b' :: cs) =
      (members? fuel depth t).map fun found => (.obj (collect found.1), found.2) := by
  subst hs
  have hclosed : ∀ after, skipBlanks cs = '\x7d' :: after → False := h.ne_cons (by decide)
  simp only [value?]

theorem reads_block {opening closing : String} {o c : Char} {texts : List String} {v : Json}
    {d : Nat} (ho : opening.toList = [o]) (hc : closing.toList = [c]) (hfront : o ∉ notInFront)
    (hne : texts ≠ [])
    (h : ∀ fuel rest, 2 * (listed (d + 1) (texts.map String.toList)).length + 1 < fuel →
      value? (fuel + 1) depth (o :: (breakAt (d + 1) ++
        (listed (d + 1) (texts.map String.toList) ++ (breakAt d ++ c :: rest)))) = some (v, rest)) :
    Reads depth (block opening closing d texts).toList v := by
  rw [toList_block hne, ho, hc]
  refine ⟨⟨o, _, rfl, hfront⟩, fun fuel rest _ hfuel => ?_⟩
  obtain ⟨fuel, rfl⟩ := Nat.exists_eq_add_one_of_ne_zero (Nat.ne_zero_of_lt hfuel)
  simp only [List.length_append, List.length_cons, List.length_nil] at hfuel
  have hread := h fuel rest (by omega)
  simpa only [List.append_assoc, List.cons_append, List.nil_append] using hread

theorem reads_arr {text : Json → String} {value : Json → Json} {items : List Json}
    (h : ∀ v ∈ items, Reads depth (text v).toList (value v)) (d : Nat) :
    Reads (depth + 1) (block "[" "]" d (items.map text)).toList (.arr (items.map value)) := by
  by_cases hne : items = []
  · subst hne
    rw [List.map_nil, List.map_nil, toList_block_nil]
    refine ⟨⟨'[', [']'], rfl, by decide⟩, fun fuel rest _ hfuel => ?_⟩
    obtain ⟨fuel, rfl⟩ := Nat.exists_eq_add_one_of_ne_zero (Nat.ne_zero_of_lt hfuel)
    rfl
  · have hmap : items.map text ≠ [] := fun h => hne (List.map_eq_nil_iff.mp h)
    have htexts : (items.map text).map String.toList = items.map fun a => (text a).toList :=
      List.map_map
    refine reads_block (o := '[') (c := ']') rfl rfl (by decide) hmap fun fuel rest hfuel => ?_
    rw [htexts] at hfuel ⊢
    have hbegins : Begins (listed (d + 1) (items.map fun a => (text a).toList)) :=
      begins_listed (fun h => hne (List.map_eq_nil_iff.mp h))
        (List.forall_mem_map.mpr fun a ha => (h a ha).begins) _
    have hrest := hbegins.append (breakAt d ++ ']' :: rest)
    rw [value?_open ((skipBlanks_breakAt (d + 1) _).trans hrest.skipBlanks) hrest,
      items?_listed hne h _ _ _ _ hfuel]
    rfl

theorem reads_obj {text : JsonText × Json → String} {value : JsonText × Json → Json}
    {members : List (JsonText × Json)} (hnodup : (members.map Prod.fst).Nodup)
    (hnames : ∀ m ∈ members, ∃ s, m.1 = JsonText.ofString s)
    (h : ∀ m ∈ members, Reads depth (text m).toList (value m)) (d : Nat) :
    Reads (depth + 1)
      (block "\x7b" "\x7d" d (members.map fun m => encodeString m.1 ++ ": " ++ text m)).toList
      (.obj (members.map fun m => (m.1, value m))) := by
  by_cases hne : members = []
  · subst hne
    rw [List.map_nil, List.map_nil, toList_block_nil]
    refine ⟨⟨'\x7b', ['\x7d'], rfl, by decide⟩, fun fuel rest _ hfuel => ?_⟩
    obtain ⟨fuel, rfl⟩ := Nat.exists_eq_add_one_of_ne_zero (Nat.ne_zero_of_lt hfuel)
    rfl
  · have htext : ∀ m : JsonText × Json, (encodeString m.1 ++ ": " ++ text m).toList =
        memberText m.1 (text m).toList := by
      intro m
      unfold memberText
      rw [String.toList_append, String.toList_append, List.append_assoc]
      rfl
    have htexts : (members.map fun m => encodeString m.1 ++ ": " ++ text m).map String.toList =
        members.map fun m => memberText m.1 (text m).toList := by
      rw [List.map_map]
      exact List.map_congr_left fun m _ => htext m
    have hcollect : ((members.map fun m => (m.1, value m)).map Prod.fst).Nodup := by
      rw [List.map_map]
      exact hnodup
    refine reads_block (o := '\x7b') (c := '\x7d') rfl rfl (by decide)
      (fun h => hne (List.map_eq_nil_iff.mp h)) fun fuel rest hfuel => ?_
    rw [htexts] at hfuel ⊢
    have hbegins : Begins (listed (d + 1) (members.map fun m => memberText m.1 (text m).toList)) :=
      begins_listed (fun h => hne (List.map_eq_nil_iff.mp h))
        (List.forall_mem_map.mpr fun m hm => begins_memberText (hnames m hm) _) _
    have hrest := hbegins.append (breakAt d ++ '\x7d' :: rest)
    rw [value?_brace ((skipBlanks_breakAt (d + 1) _).trans hrest.skipBlanks) hrest,
      members?_listed hne hnames h _ _ _ _ hfuel]
    show some (Json.obj (collect _), rest) = _
    rw [collect_of_nodup hcollect]

/-! ## Plain values -/

/-- The value opens at most `depth` containers, its integers satisfy `P`, its texts and names are
those of strings, the names in each object are distinct, and it holds no doubles. -/
inductive Plain (P : Int → Prop) : Nat → Json → Prop where
  | null {depth : Nat} : Plain P depth .null
  | bool {depth : Nat} (b : Bool) : Plain P depth (.bool b)
  | int {depth : Nat} {n : Int} : P n → Plain P depth (.int n)
  | text {depth : Nat} (s : String) : Plain P depth (.text s)
  | arr {depth : Nat} {items : List Json} : (∀ v ∈ items, Plain P depth v) →
      Plain P (depth + 1) (.arr items)
  | obj {depth : Nat} {members : List (JsonText × Json)} : (members.map Prod.fst).Nodup →
      (∀ m ∈ members, ∃ s, m.1 = JsonText.ofString s) → (∀ m ∈ members, Plain P depth m.2) →
      Plain P (depth + 1) (.obj members)

theorem prettyItems_eq (d : Nat) (items : List Json) :
    prettyItems d items = items.map (prettyAt d) := by
  induction items with
  | nil => rfl
  | cons v rest ih => rw [prettyItems, ih, List.map_cons]

theorem prettyMembers_eq (d : Nat) (members : List (JsonText × Json)) :
    prettyMembers d members = members.map fun m => (m.1, prettyAt d m.2) := by
  induction members with
  | nil => rfl
  | cons m rest ih => rw [prettyMembers, ih, List.map_cons]

namespace Plain

variable {P : Int → Prop} {v : Json}

theorem distinct (h : Plain P depth v) : v.Distinct := by
  induction h with
  | null => exact .null
  | bool b => exact .bool b
  | int _ => exact .int _
  | text s => exact .str _
  | arr _ ih => exact .arr ih
  | obj hnames _ _ ih => exact .obj hnames ih

theorem mono (h : Plain P depth v) {depth' : Nat} (hle : depth ≤ depth') : Plain P depth' v := by
  induction h generalizing depth' with
  | null => exact .null
  | bool b => exact .bool b
  | int hn => exact .int hn
  | text s => exact .text s
  | arr _ ih =>
    obtain ⟨depth', rfl⟩ := Nat.exists_eq_add_one_of_ne_zero (Nat.ne_zero_of_lt hle)
    exact .arr fun v hv => ih v hv (Nat.le_of_succ_le_succ hle)
  | obj hnodup hnames _ ih =>
    obtain ⟨depth', rfl⟩ := Nat.exists_eq_add_one_of_ne_zero (Nat.ne_zero_of_lt hle)
    exact .obj hnodup hnames fun m hm => ih m hm (Nat.le_of_succ_le_succ hle)

theorem obstacle?_eq_none (h : Plain Number.Legible depth v) : v.obstacle? depth = none := by
  induction h with
  | @null depth => cases depth <;> rfl
  | @bool depth b => cases depth <;> rfl
  | int hn => exact obstacle?_of_legible hn
  | text s => exact obstacle?_text s
  | arr _ ih => exact obstacle?_arr.mpr ih
  | obj _ _ _ ih => exact obstacle?_obj.mpr ih

theorem record {fields : List (String × Json)} (hnames : (fields.map Prod.fst).Nodup)
    (h : ∀ m ∈ fields, Plain P depth m.2) : Plain P (depth + 1) (.record fields) :=
  .obj (nodup_record hnames) (List.forall_mem_map.mpr fun m _ => ⟨m.1, rfl⟩)
    (List.forall_mem_map.mpr h)

/-! ### Line breaks in documents -/

theorem return_not_mem_breakAt (d : Nat) : '\r' ∉ breakAt d := by
  rw [breakAt_eq]
  simp

theorem return_not_mem_listed {texts : List (List Char)} (h : ∀ t ∈ texts, '\r' ∉ t) (d : Nat) :
    '\r' ∉ listed d texts := by
  induction texts with
  | nil => exact List.not_mem_nil
  | cons t texts ih =>
    obtain ⟨ht, htexts⟩ := List.forall_mem_cons.mp h
    cases texts with
    | nil =>
      rw [listed_singleton]
      exact ht
    | cons u texts =>
      rw [listed_cons_cons]
      simp [ht, return_not_mem_breakAt, ih htexts]

theorem unbroken_block {opening closing : String} {texts : List String} {d : Nat}
    (ho : '\r' ∉ opening.toList) (hc : '\r' ∉ closing.toList)
    (h : ∀ t ∈ texts, '\r' ∉ t.toList) : '\r' ∉ (block opening closing d texts).toList := by
  by_cases hne : texts = []
  · subst hne
    rw [toList_block_nil]
    simp [ho, hc]
  · have hlisted := return_not_mem_listed (List.forall_mem_map.mpr h) (d + 1)
    rw [toList_block hne]
    simp [ho, hc, return_not_mem_breakAt, hlisted]

theorem unbroken (h : Plain P depth v) (d : Nat) : '\r' ∉ (prettyAt d v).toList := by
  induction h generalizing d with
  | null =>
    rw [prettyAt]
    decide
  | bool b =>
    rw [prettyAt]
    cases b <;> decide
  | @int depth n _ =>
    rw [prettyAt, Number.toList_toString_int]
    intro hr
    exact (Number.mem_numeral hr).elim (by decide) (by decide)
  | text s => exact return_not_mem_encodeString s
  | arr _ ih =>
    rw [prettyAt, prettyItems_eq]
    exact unbroken_block (by decide) (by decide) (List.forall_mem_map.mpr fun v hv => ih v hv _)
  | @obj depth members hnodup hnames _ ih =>
    rw [prettyAt, prettyMembers_eq, sortMembers_map, List.map_map]
    refine unbroken_block (by decide) (by decide) (List.forall_mem_map.mpr fun m hm => ?_)
    have hm := (sortMembers_perm members).mem_iff.mp hm
    obtain ⟨s, hs⟩ := hnames m hm
    rw [Function.comp_apply, hs, String.toList_append, String.toList_append]
    simp [return_not_mem_encodeString, ih m hm]

theorem return_not_mem_document (h : Plain P depth v) : '\r' ∉ (v.pretty ++ "\n").toList := by
  rw [String.toList_append, List.mem_append, not_or]
  exact ⟨h.unbroken 0, by decide⟩

end Plain

/-! ## Reading documents -/

theorem Plain.reads {v : Json} (h : Plain Number.Legible depth v) (d : Nat) :
    Reads depth (prettyAt d v).toList v.sorted := by
  induction h generalizing d with
  | null => exact reads_null
  | bool b => exact reads_bool b
  | int hn => exact reads_int hn
  | text s => exact reads_text s
  | arr _ ih =>
    rw [prettyAt, prettyItems_eq, sorted, sortedItems_eq]
    exact reads_arr (fun v hv => ih v hv (d + 1)) d
  | @obj depth members hnodup hnames _ ih =>
    have hperm := sortMembers_perm members
    rw [prettyAt, prettyMembers_eq, sortMembers_map, List.map_map, sorted_obj]
    exact reads_obj ((hperm.map Prod.fst).nodup_iff.mpr hnodup)
      (fun m hm => hnames m (hperm.mem_iff.mp hm))
      (fun m hm => ih m (hperm.mem_iff.mp hm) (d + 1)) d

/-- The document of a value, with a line break after it, is read back as the value with its members
in order. -/
theorem parse?_pretty {v : Json} (h : Plain Number.Legible depth v) :
    parse? depth (v.pretty ++ "\n") = some v.sorted := by
  have hreads := h.reads 0
  have htext : (v.pretty ++ "\n").toList = (prettyAt 0 v).toList ++ ['\n'] := String.toList_append
  have hblank : skipBlanks ['\n'] = [] := rfl
  have hvalue := hreads.value (2 * ((prettyAt 0 v).toList ++ ['\n']).length + 2) ['\n']
    (stops_newline []) (by rw [List.length_append]; omega)
  unfold parse?
  rw [htext, (hreads.begins.append _).skipBlanks]
  simp only [hvalue, hblank]
  rfl

end Moo.Json
