import Moo.Disk.Basic

/-!
# Files that were written

A path is writable when it leads to a file, or to nothing where a file can be. After a text was
written to a writable path, the path leads to a file with its bytes (`Disk.Writable.holds`), which
reads as the text (`Disk.readText_writeText`).
-/

namespace Moo

theorem Text.unifyNewlines_other {c : Char} (h : c ≠ '\r') (cs : List Char) :
    unifyNewlines (c :: cs) = c :: unifyNewlines cs := by
  rw [unifyNewlines, if_neg h]
  exact fun _ heq _ => h heq

theorem Text.unifyNewlines_of_unbroken {cs : List Char} (h : '\r' ∉ cs) :
    unifyNewlines cs = cs := by
  induction cs with
  | nil => rfl
  | cons c cs ih =>
    rw [List.mem_cons, not_or] at h
    rw [unifyNewlines_other (Ne.symm h.1), ih h.2]

namespace Disk

variable {d d' : Disk} {p : Path} {place place' : List String} {node : Node} {text : String}

theorem decode?_eq (text : String) :
    decode? text.toUTF8.data = some (String.ofList (Text.unifyNewlines text.toList)) := by
  have hbytes : String.fromUTF8? ⟨text.toUTF8.data⟩ = some text := dif_pos text.isValidUTF8
  unfold decode?
  rw [hbytes, Option.map_some]

theorem decode?_toUTF8 (h : '\r' ∉ text.toList) : decode? text.toUTF8.data = some text := by
  rw [decode?_eq, Text.unifyNewlines_of_unbroken h, String.ofList_toList]

/-! ## What is put is there, and directories stay -/

theorem length_lt_of_mem_parents (h : place' ∈ parents place) : place'.length < place.length := by
  obtain ⟨n, hn, rfl⟩ := List.mem_map.mp h
  have hlt := List.mem_range.mp hn
  rw [List.length_take]
  omega

theorem at?_of_isPrefixOf (h : place.isPrefixOf d.home = true) : d.at? place = some .directory :=
  if_pos h

theorem at?_of_not_isPrefixOf (h : place.isPrefixOf d.home = false) :
    d.at? place = (d.nodes.find? fun n => n.1 == place).map (·.2) := by
  unfold at?
  rw [h]
  rfl

theorem at?_put_self (h : d.at? place ≠ some .directory) :
    (d.put place node).at? place = some node := by
  have hhome : place.isPrefixOf d.home = false :=
    Bool.eq_false_iff.mpr fun hp => h (at?_of_isPrefixOf hp)
  have hkept : (d.nodes.filter fun n => n.1 != place).find? (fun n => n.1 == place) = none := by
    rw [List.find?_eq_none]
    intro n hn
    simpa using (List.mem_filter.mp hn).2
  have hmissing : (((parents place).filter fun q => (d.at? q).isNone).map (·, Node.directory)).find?
      (fun n => n.1 == place) = none := by
    rw [List.find?_eq_none]
    intro n hn
    obtain ⟨q, hq, rfl⟩ := List.mem_map.mp hn
    have hlt := length_lt_of_mem_parents (List.mem_filter.mp hq).1
    simp only [beq_iff_eq]
    rintro rfl
    exact Nat.lt_irrefl _ hlt
  rw [at?_of_not_isPrefixOf (d := d.put place node) hhome]
  unfold put
  dsimp only
  rw [List.find?_append, List.find?_append, hkept, hmissing]
  simp

theorem at?_put_directory (h : d.at? place ≠ some .directory)
    (h' : d.at? place' = some .directory) : (d.put place node).at? place' = some .directory := by
  have hne : place' ≠ place := by
    rintro rfl
    exact h h'
  cases hhome : place'.isPrefixOf d.home with
  | true => exact at?_of_isPrefixOf (d := d.put place node) hhome
  | false =>
    rw [at?_of_not_isPrefixOf hhome] at h'
    rw [at?_of_not_isPrefixOf (d := d.put place node) hhome]
    obtain ⟨n, hn, hdir⟩ := Option.map_eq_some_iff.mp h'
    have hkept :
        (d.nodes.filter fun n => n.1 != place).find? (fun n => n.1 == place') = some n := by
      have hkeep : ∀ n : List String × Node, (n.1 != place && n.1 == place') = (n.1 == place') := by
        intro n
        by_cases hn : n.1 = place'
        · simp [hn, hne]
        · simp [hn]
      rw [List.find?_filter]
      simp only [Bool.decide_and, Bool.decide_eq_true, hkeep]
      exact hn
    unfold put
    dsimp only
    rw [List.find?_append, List.find?_append, hkept]
    simp [hdir]

theorem follow_put (h : d.at? place ≠ some .directory) {parts : List String}
    {start found : List String} (hf : d.follow start parts = .ok found) :
    (d.put place node).follow start parts = .ok found := by
  induction parts generalizing start with
  | nil => exact hf
  | cons part rest ih =>
    unfold follow at hf ⊢
    split at hf
    · next hup =>
      rw [if_pos hup]
      exact ih hf
    · next hup =>
      rw [if_neg hup]
      split at hf
      · cases hf
      · next hlong =>
        rw [if_neg hlong]
        split at hf
        · next hlast =>
          rw [if_pos hlast]
          exact hf
        · next hlast =>
          rw [if_neg hlast]
          split at hf
          · next hdir =>
            rw [at?_put_directory h hdir]
            exact ih hf
          · cases hf
          · cases hf

theorem locate_put (h : d.at? place ≠ some .directory) {found : List String}
    (hp : d.locate p = .ok found) : (d.put place node).locate p = .ok found := by
  unfold locate at hp ⊢
  split at hp
  · cases hp
  · next hname =>
    rw [if_neg hname]
    split at hp
    · cases hp
    · next hlong =>
      rw [if_neg hlong]
      exact follow_put h hp

/-! ## Writing -/

/-- The path leads to a file, or to nothing where a file can be. -/
def Writable (d : Disk) (p : Path) : Prop :=
  ∃ place, d.locate p = .ok place ∧
    (d.at? place = none ∨ ∃ bytes, d.at? place = some (.file bytes))

def Holds (d : Disk) (p : Path) (bytes : Array UInt8) : Prop :=
  ∃ place, d.locate p = .ok place ∧ d.at? place = some (.file bytes)

theorem writeText_of_not_special (hp : d.locate p = .ok place)
    (hn : d.at? place = none ∨ ∃ bytes, d.at? place = some (.file bytes)) :
    d.writeText p text = .ok (d.put place (.file text.toUTF8.data)) := by
  unfold writeText
  rcases hn with hn | ⟨bytes, hn⟩ <;> simp only [hp, bind, Except.bind, hn] <;> rfl

theorem readText_of_file {bytes : Array UInt8} (hp : d.locate p = .ok place)
    (hn : d.at? place = some (.file bytes)) (hb : decode? bytes = some text) :
    d.readText p = .ok text := by
  unfold readText
  simp only [hp, bind, Except.bind, hn, hb]
  rfl

theorem readText_of_isFile (h : d.isFile p = .ok true) :
    (∃ text, d.readText p = .ok text) ∨ d.readText p = .error .notUtf8 := by
  unfold isFile at h
  cases hp : d.locate p with
  | error e =>
    rw [hp] at h
    cases e <;> cases h
  | ok place =>
    simp only [hp] at h
    split at h
    · next bytes hn =>
      cases hb : decode? bytes with
      | some text => exact .inl ⟨text, readText_of_file hp hn hb⟩
      | none =>
        refine .inr ?_
        unfold readText
        simp only [hp, bind, Except.bind, hn, hb]
        rfl
    · cases h

theorem Holds.readText {bytes : Array UInt8} (h : d.Holds p bytes) (hb : decode? bytes = some text) :
    d.readText p = .ok text := by
  obtain ⟨place, hplace, hnode⟩ := h
  exact readText_of_file hplace hnode hb

theorem Writable.holds (h : d.Writable p) (text : String) :
    ∃ d', d.writeText p text = .ok d' ∧ d'.Holds p text.toUTF8.data := by
  obtain ⟨place, hplace, hnode⟩ := h
  have hfile : d.at? place ≠ some .directory := by
    rcases hnode with h | ⟨bytes, h⟩ <;> rw [h] <;> exact nofun
  exact ⟨_, writeText_of_not_special hplace hnode, place, locate_put hfile hplace,
    at?_put_self hfile⟩

theorem readText_writeText (h : d.Writable p) (hr : '\r' ∉ text.toList) :
    ∃ d', d.writeText p text = .ok d' ∧ d'.readText p = .ok text := by
  obtain ⟨d', hwrite, hholds⟩ := h.holds text
  exact ⟨d', hwrite, hholds.readText (decode?_toUTF8 hr)⟩

end Disk

end Moo
