import Moo.Json.Shown
import Moo.Proofs.Number.Legible
import Moo.Schema.Path

/-!
# What can be shown

A container can be shown just if what is in it can be shown one level less deep, and what can be
shown can be shown deeper. So every part of a value that can be shown can be shown.
-/

namespace Moo

namespace Json

variable {v w : Json} {depth : Nat} {a : PathStep}

theorem obstacle?_int {n : Int} (h : ¬ Number.Legible n) :
    (int n).obstacle? depth = some .tooLong := if_pos (Nat.not_le.mp h)

theorem obstacle?_of_legible {n : Int} (h : Number.Legible n) :
    (int n).obstacle? depth = none := if_neg (Nat.not_lt.mpr h)

theorem obstacle?_text (s : String) : (text s).obstacle? depth = none := by
  cases depth <;> rfl

theorem obstacle?_arr {items : List Json} :
    (arr items).obstacle? (depth + 1) = none ↔ ∀ w ∈ items, w.obstacle? depth = none := by
  show itemsObstacle? depth items = none ↔ _
  induction items with
  | nil => exact iff_of_true rfl (List.forall_mem_nil _)
  | cons w rest ih => rw [itemsObstacle?, Option.or_eq_none_iff, ih, List.forall_mem_cons]

theorem obstacle?_obj {members : List (JsonText × Json)} :
    (obj members).obstacle? (depth + 1) = none ↔ ∀ m ∈ members, m.2.obstacle? depth = none := by
  show membersObstacle? depth members = none ↔ _
  induction members with
  | nil => exact iff_of_true rfl (List.forall_mem_nil _)
  | cons m rest ih =>
    obtain ⟨k, w⟩ := m
    rw [membersObstacle?, Option.or_eq_none_iff, ih, List.forall_mem_cons]

theorem obstacle?_succ (h : v.obstacle? depth = none) : v.obstacle? (depth + 1) = none := by
  induction depth generalizing v with
  | zero =>
    cases v with
    | arr items => cases h
    | obj members => cases h
    | _ => exact h
  | succ depth ih =>
    cases v with
    | arr items => exact obstacle?_arr.mpr fun w hw => ih (obstacle?_arr.mp h w hw)
    | obj members => exact obstacle?_obj.mpr fun m hm => ih (obstacle?_obj.mp h m hm)
    | _ => exact h

theorem obstacle?_part (h : v.obstacle? depth = none) (ha : v.part? a = some w) :
    w.obstacle? depth = none := by
  cases a with
  | index i =>
    cases v with
    | arr items =>
      cases depth with
      | zero => cases h
      | succ depth => exact obstacle?_succ (obstacle?_arr.mp h w (List.mem_of_getElem? ha))
    | _ => cases ha
  | name s =>
    cases v with
    | obj members =>
      obtain ⟨m, hm, rfl⟩ := Option.map_eq_some_iff.mp ha
      cases depth with
      | zero => cases h
      | succ depth => exact obstacle?_succ (obstacle?_obj.mp h m (List.mem_of_find?_eq_some hm))
    | _ => cases ha

end Json

end Moo
