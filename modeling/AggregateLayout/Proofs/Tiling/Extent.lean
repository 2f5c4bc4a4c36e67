import Mathlib
import AggregateLayout.Layout

namespace AggregateLayout

structure Extent where
  start : Int
  stop : Int

namespace Extent

def covers (e : Extent) (bit : Int) : Bool := e.start ≤ bit && bit < e.stop

end Extent

def Placement.extent (p : Placement Int) : Extent :=
  match p.bits with
  | none => { start := 8 * p.offset, stop := 8 * (p.offset + p.size.val) }
  | some bits =>
    { start := 8 * p.offset + bits.offset, stop := 8 * p.offset + bits.offset + bits.width }

def Padding.extent : Padding Int → Extent
  | .bytes offset length => { start := 8 * offset, stop := 8 * (offset + length) }
  | .bits unit bitOffset length =>
    { start := 8 * unit + bitOffset, stop := 8 * unit + bitOffset + length }

structure Valuation where
  of : Int → Int → Int
  add : ∀ {a b c : Int}, a ≤ b → b ≤ c → of a b + of b c = of a c

namespace Valuation

def length : Valuation where
  of a b := b - a
  add := by intros; omega

def ofBit (bit : Int) : Valuation where
  of a b := if a ≤ bit ∧ bit < b then 1 else 0
  add := by intros; split_ifs <;> omega

def total (v : Valuation) (es : List Extent) : Int := (es.map fun e => v.of e.start e.stop).sum

variable (v : Valuation)

theorem of_self (a : Int) : v.of a a = 0 := by
  have := v.add (le_refl a) (le_refl a)
  omega

@[simp] theorem total_nil : v.total [] = 0 := rfl

@[simp] theorem total_cons (e : Extent) (es : List Extent) :
    v.total (e :: es) = v.of e.start e.stop + v.total es := by
  simp [total]

@[simp] theorem total_append (es es' : List Extent) :
    v.total (es ++ es') = v.total es + v.total es' := by
  simp [total]

theorem total_perm {es es' : List Extent} (h : es.Perm es') : v.total es = v.total es' :=
  (h.map _).sum_eq

theorem total_ofBit (bit : Int) (es : List Extent) :
    (ofBit bit).total es = es.countP (·.covers bit) := by
  induction es with
  | nil => rfl
  | cons e es ih =>
    rw [total_cons, ih, List.countP_cons]
    by_cases h : e.start ≤ bit ∧ bit < e.stop
    · simp [ofBit, Extent.covers, h]
      omega
    · have hc : e.covers bit = false := by simpa [Extent.covers] using h
      simp [ofBit, h, hc]

end Valuation

end AggregateLayout
