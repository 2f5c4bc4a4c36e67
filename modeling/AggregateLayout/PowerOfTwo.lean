namespace AggregateLayout

structure PowerOfTwo where
  val : Nat
  isPower : val = Nat.pow 2 val.log2 := by decide
  isFlag : Bool := false
  isFlag_one : isFlag = true → val = 1 := by nofun
  deriving DecidableEq

namespace PowerOfTwo

def ofInt? : Int → Option PowerOfTwo
  | .ofNat n => if h : n = Nat.pow 2 n.log2 then some { val := n, isPower := h } else none
  | .negSucc _ => none

def one : PowerOfTwo := { val := 1 }

def two : PowerOfTwo := { val := 2 }

def four : PowerOfTwo := { val := 4 }

def eight : PowerOfTwo := { val := 8 }

def sixteen : PowerOfTwo := { val := 16 }

def sixtyFour : PowerOfTwo := { val := 64 }

def flagged : PowerOfTwo := { val := 1, isFlag := true, isFlag_one := fun _ => rfl }

def max (a b : PowerOfTwo) : PowerOfTwo := if a.val < b.val then b else a

theorem pos (a : PowerOfTwo) : 0 < a.val := by
  rw [a.isPower]
  exact Nat.two_pow_pos _

theorem dvd_of_le {a b : PowerOfTwo} (h : a.val ≤ b.val) : a.val ∣ b.val := by
  rw [a.isPower, b.isPower] at h ⊢
  exact Nat.pow_dvd_pow 2 ((Nat.pow_le_pow_iff_right (by decide)).mp h)

theorem val_max (a b : PowerOfTwo) : (a.max b).val = Max.max a.val b.val := by
  unfold max
  split <;> omega

end PowerOfTwo

end AggregateLayout
