/-!
# Positions on a ring

On a ring of `size` cells a position is an integer, and the cell at it is what is left of it after
whole rounds. To move on the ring is to add to the position, whichever of the positions of a cell
one starts from (`ring_add`).
-/

namespace Moo

variable {size : Nat} {i : Nat}

theorem ring_cast (h : 0 < size) (n : Int) : (((n % size).toNat : Nat) : Int) = n % size :=
  Int.toNat_of_nonneg (Int.emod_nonneg n (by omega))

theorem ring_lt (h : 0 < size) (n : Int) : (n % size).toNat < size := by
  have hlt := Int.emod_lt_of_pos n (b := size) (by omega)
  have hcast := ring_cast h n
  omega

theorem ring_self (h : i < size) : ((i : Int) % size).toNat = i := by
  rw [Int.emod_eq_of_lt (by omega) (by omega), Int.toNat_natCast]

theorem ring_add (h : 0 < size) (n k : Int) :
    ((((n % size).toNat : Nat) + k) % size).toNat = ((n + k) % size).toNat := by
  rw [ring_cast h, Int.emod_add_emod]

theorem ring_back (h : i < size) (k : Int) :
    (((((i : Int) + k) % size).toNat - k) % size).toNat = i := by
  rw [Int.sub_eq_add_neg, ring_add (by omega), Int.add_neg_cancel_right, ring_self h]

theorem ring_forth (h : i < size) (k : Int) :
    (((((i : Int) - k) % size).toNat + k) % size).toNat = i := by
  rw [ring_add (by omega), Int.sub_add_cancel, ring_self h]

end Moo
