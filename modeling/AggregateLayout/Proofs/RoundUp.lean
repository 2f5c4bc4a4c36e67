import Mathlib
import AggregateLayout.Layout.Target

namespace AggregateLayout

open AggregateLayout.Measure (whole)

namespace Measure

@[simp] theorem whole_int (n : Int) : (whole n : Int) = n := rfl

theorem larger_int (m n : Int) : larger m n = max m n := by
  unfold larger
  split <;> omega

theorem smaller_int (m n : Int) : smaller m n = min m n := by
  unfold smaller
  split <;> omega

theorem sum_int (ns : List Int) : sum ns = ns.sum := by
  rw [List.sum_eq_foldl]
  rfl

end Measure

theorem Size.val_nonneg (s : Size Int) : 0 ≤ s.val := not_lt.mp s.nonneg

theorem PowerOfTwo.measure_int (a : PowerOfTwo) : (a.measure : Int) = a.val := by
  unfold measure
  split
  · next h => rw [a.isFlag_one h]; rfl
  · rfl

section Rounding

variable (n : Int) (a : PowerOfTwo)

theorem dvd_roundUp : (a.val : Int) ∣ roundUp n a := Int.dvd_mul_left _ _

theorem le_roundUp : n ≤ roundUp n a := by
  have pos := a.pos
  have split := Int.emod_add_mul_ediv (n + a.val - 1) a.val
  have rest := Int.emod_lt_of_pos (n + a.val - 1) (b := a.val) (by omega)
  change n ≤ (n + a.val - 1) / a.val * a.val
  rw [mul_comm]
  omega

variable {n a}

theorem roundUp_le {k : Int} (hk : (a.val : Int) ∣ k) (hn : n ≤ k) : roundUp n a ≤ k := by
  obtain ⟨c, rfl⟩ := hk
  have pos : (0 : Int) < a.val := by have := a.pos; omega
  change (n + a.val - 1) / a.val * a.val ≤ a.val * c
  rw [mul_comm]
  apply Int.mul_le_mul_of_nonneg_left _ pos.le
  have below : (n + a.val - 1) / a.val < c + 1 := by
    apply Int.ediv_lt_of_lt_mul pos
    rw [add_mul, one_mul, mul_comm c]
    omega
  omega

theorem roundUp_eq (h : (a.val : Int) ∣ n) : roundUp n a = n :=
  le_antisymm (roundUp_le h le_rfl) (le_roundUp n a)

theorem roundUp_one (n : Int) : roundUp n .one = n := roundUp_eq (one_dvd n)

theorem roundUp_mono {m : Int} (h : m ≤ n) : roundUp m a ≤ roundUp n a :=
  roundUp_le (dvd_roundUp n a) (h.trans (le_roundUp n a))

theorem roundUp_add {k : Int} (hk : (a.val : Int) ∣ k) : roundUp (n + k) a = roundUp n a + k := by
  have up := le_roundUp n a
  have back := le_roundUp (n + k) a
  have here : roundUp n a ≤ roundUp (n + k) a - k :=
    roundUp_le ((dvd_roundUp (n + k) a).sub hk) (by omega)
  have there : roundUp (n + k) a ≤ roundUp n a + k :=
    roundUp_le ((dvd_roundUp n a).add hk) (by omega)
  omega

end Rounding

end AggregateLayout
