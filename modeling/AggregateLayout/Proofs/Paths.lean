import Mathlib
import AggregateLayout.Disjointness
import AggregateLayout.Proofs.Placements

namespace AggregateLayout

namespace MemberPath

def names (path : String) : List String := (parts path).1 :: (parts path).2

end MemberPath

namespace Extent

variable {e f : Extent}

def Apart (e f : Extent) : Prop := ∀ bit, ¬ (e.covers bit = true ∧ f.covers bit = true)

theorem apart_iff : e.Apart f ↔ min e.stop f.stop ≤ max e.start f.start := by
  simp only [Apart, covers, Bool.and_eq_true, decide_eq_true_eq]
  constructor
  · intro h
    by_contra hlt
    apply h (max e.start f.start)
    omega
  · intro h bit
    omega

end Extent

namespace Placement

variable {x y q : Placement Int} {base start stop : Int}

def HasByte (q : Placement Int) (byte : Int) : Prop := q.offset ≤ byte ∧ byte < q.stop

structure SameUnit (x y : Placement Int) : Prop where
  left : x.bits.isSome
  right : y.bits.isSome
  offset : x.offset = y.offset
  size : x.size.val = y.size.val

/-- The two share a byte, and they are not bitfields of one unit with different bits of it. -/
structure Clash (x y : Placement Int) : Prop where
  bytes : ∃ byte, x.HasByte byte ∧ y.HasByte byte
  bits : ¬ (x.SameUnit y ∧ x.extent.Apart y.extent)

def span (q : Placement Int) : Span Int := { start := q.offset, size := q.size, bits := q.bits }

def shift (base : Int) (q : Placement Int) : Placement Int := { q with offset := base + q.offset }

@[simp] theorem shift_zero (q : Placement Int) : q.shift 0 = q := by
  unfold shift
  rw [zero_add]

theorem shift_shift (q : Placement Int) (b c : Int) : (q.shift c).shift b = q.shift (b + c) := by
  unfold shift
  rw [add_assoc]

theorem exists_hasByte_iff :
    (∃ byte, x.HasByte byte ∧ y.HasByte byte) ↔ max x.offset y.offset < min x.stop y.stop := by
  unfold HasByte
  constructor
  · rintro ⟨byte, hx, hy⟩
    omega
  · intro h
    refine ⟨max x.offset y.offset, ?_, ?_⟩ <;> omega

theorem clash_iff :
    x.Clash y ↔ max x.offset y.offset < min x.stop y.stop ∧
      ¬ (x.SameUnit y ∧ x.extent.Apart y.extent) := by
  rw [← exists_hasByte_iff]
  exact ⟨fun h => ⟨h.bytes, h.bits⟩, fun h => ⟨h.1, h.2⟩⟩

theorem sameUnit_apart_iff {u v : BitRange Int} (hx : x.bits = some u) (hy : y.bits = some v) :
    x.SameUnit y ∧ x.extent.Apart y.extent ↔
      (x.offset = y.offset ∧ x.size.val = y.size.val) ∧
        min (u.offset + u.width) (v.offset + v.width) ≤ max u.offset v.offset := by
  have left : x.extent = ⟨8 * x.offset + u.offset, 8 * x.offset + u.offset + u.width⟩ := by
    unfold extent
    rw [hx]
  have right : y.extent = ⟨8 * y.offset + v.offset, 8 * y.offset + v.offset + v.width⟩ := by
    unfold extent
    rw [hy]
  rw [Extent.apart_iff, left, right]
  dsimp only
  constructor
  · rintro ⟨same, h⟩
    have := same.offset
    refine ⟨⟨same.offset, same.size⟩, ?_⟩
    omega
  · rintro ⟨⟨hoffset, hsize⟩, h⟩
    refine ⟨⟨by rw [hx]; rfl, by rw [hy]; rfl, hoffset, hsize⟩, ?_⟩
    omega

theorem clash_cases {α : Type} {apart : Bool} (r : α)
    (h : apart = true ↔ x.SameUnit y ∧ x.extent.Apart y.extent) :
    (¬ x.Clash y ∧
        (if min x.stop y.stop ≤ max x.offset y.offset || apart then none else some r) = none) ∨
      x.Clash y ∧
        (if min x.stop y.stop ≤ max x.offset y.offset || apart then none else some r) = some r := by
  rw [clash_iff, ← h]
  split
  · next hclear =>
    rw [Bool.or_eq_true, decide_eq_true_eq] at hclear
    refine .inl ⟨fun hclash => ?_, rfl⟩
    rcases hclear with hbytes | hbits
    · omega
    · exact hclash.2 hbits
  · next hclash =>
    rw [Bool.or_eq_true, decide_eq_true_eq, not_or, not_le] at hclash
    exact .inr ⟨hclash, rfl⟩

theorem common?_cases (x y : Placement Int) :
    (¬ x.Clash y ∧ x.span.common? y.span = none) ∨
      x.Clash y ∧
        x.span.common? y.span = some (max x.offset y.offset, min x.stop y.stop) := by
  unfold Span.common?
  dsimp only [span, Span.stop]
  rw [Measure.larger_int, Measure.smaller_int]
  apply clash_cases
  cases hx : x.bits with
  | none =>
    refine iff_of_false Bool.false_ne_true fun h => ?_
    have := h.1.left
    rw [hx] at this
    cases this
  | some u =>
    cases hy : y.bits with
    | none =>
      refine iff_of_false Bool.false_ne_true fun h => ?_
      have := h.1.right
      rw [hy] at this
      cases this
    | some v =>
      rw [sameUnit_apart_iff hx hy]
      dsimp only
      rw [Measure.larger_int, Measure.smaller_int]
      simp only [Bool.and_eq_true, beq_iff_eq, decide_eq_true_eq]

theorem InsideUnit.hasByte {bit : Int} (h : q.InsideUnit) (hbit : q.extent.covers bit = true) :
    q.HasByte (bit / 8) := by
  have within : 8 * q.offset ≤ bit ∧ bit < 8 * (q.offset + q.size.val) := by
    unfold Extent.covers extent at hbit
    rw [Bool.and_eq_true, decide_eq_true_eq, decide_eq_true_eq] at hbit
    cases hbits : q.bits with
    | none =>
      rw [hbits] at hbit
      exact hbit
    | some bits =>
      obtain ⟨hstart, hstop⟩ := h bits hbits
      rw [hbits] at hbit
      dsimp only at hbit
      omega
  change q.offset ≤ bit / 8 ∧ bit / 8 < q.offset + q.size.val
  omega

theorem InsideUnit.apart (hx : x.InsideUnit) (hy : y.InsideUnit) (h : ¬ x.Clash y) :
    x.extent.Apart y.extent := by
  rintro bit ⟨hbx, hby⟩
  apply h
  refine ⟨⟨bit / 8, hx.hasByte hbx, hy.hasByte hby⟩, ?_⟩
  rintro ⟨_, apart⟩
  exact apart bit ⟨hbx, hby⟩

end Placement

namespace Target

/-- The place that the names lead to from an aggregate. -/
inductive Locates (t : Target Int) :
    Aggregate Int → Layout Int → List String → Placement Int → Prop
  | member {a : Aggregate Int} {l : Layout Int} {name : String} {m : Member Int}
    {q : Placement Int} (hm : a.member? name = some m) (hq : l.placement? name = some q) :
    Locates t a l [name] q
  | inside {a b : Aggregate Int} {l inner : Layout Int} {name : String} {names : List String}
    {m : Member Int} {q r : Placement Int} (hm : a.member? name = some m)
    (hq : l.placement? name = some q) (hb : t.inner? m = some b) (hinner : t.layout b = .ok inner)
    (hr : Locates t b inner names r) : Locates t a l (name :: names) (r.shift q.offset)

variable {t : Target Int} {a b : Aggregate Int} {l inner : Layout Int} {names : List String}
  {q : Placement Int} {root path part : String} {base : Int} {s : Span Int}

theorem spanFrom_eq_ok :
    t.spanFrom root path a l base part names = .ok s ↔
      ∃ q, t.Locates a l (part :: names) q ∧ s = (q.shift base).span := by
  induction names generalizing a l base part with
  | nil =>
    unfold spanFrom
    constructor
    · intro h
      split at h
      · next m q hm hq =>
        obtain rfl := Except.ok.inj h
        exact ⟨q, .member hm hq, rfl⟩
      · cases h
    · rintro ⟨q, h, rfl⟩
      cases h with
      | member hm hq =>
        rw [hm, hq]
        rfl
      | inside hm hq hb hinner hr => cases hr
  | cons next others ih =>
    unfold spanFrom
    constructor
    · intro h
      split at h
      · next m q hm hq =>
        dsimp only at h
        split at h
        · cases h
        · next b hb =>
          obtain ⟨inner, hinner, h⟩ := except_bind_eq_ok.mp h
          obtain ⟨r, hr, rfl⟩ := ih.mp h
          refine ⟨r.shift q.offset, .inside hm hq hb hinner hr, ?_⟩
          rw [Placement.shift_shift]
      · cases h
    · rintro ⟨q, h, rfl⟩
      cases h with
      | @inside a b l inner name names m q r hm hq hb hinner hr =>
        rw [hm, hq]
        dsimp only
        rw [hb]
        refine except_bind_eq_ok.mpr ⟨inner, hinner, ih.mpr ⟨r, hr, ?_⟩⟩
        rw [Placement.shift_shift]

theorem span_eq_ok :
    t.span a l path = .ok s ↔ ∃ q, t.Locates a l (MemberPath.names path) q ∧ s = q.span := by
  change t.spanFrom a.name path a l 0 _ _ = .ok s ↔ _
  rw [spanFrom_eq_ok]
  simp only [Placement.shift_zero]
  rfl

theorem Locates.inside_unit (h : t.Locates a l names q) (hl : t.Lays a l) : q.InsideUnit := by
  induction h with
  | member hm hq =>
    obtain ⟨_, _, hholds⟩ := hl.holds hm hq
    exact hholds.inside
  | inside _ _ _ hinner _ ih => exact ih (lays_of_layout hinner)

end Target

end AggregateLayout
