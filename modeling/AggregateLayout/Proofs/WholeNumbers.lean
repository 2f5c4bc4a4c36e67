import Mathlib
import AggregateLayout.Proofs.ArraySizes
import AggregateLayout.Proofs.Layouting
import AggregateLayout.Proofs.RoundUp

namespace AggregateLayout

open AggregateLayout.Measure (whole)

namespace Quantity

def IsWhole (q : Quantity) : Prop := ∃ n, q.integer? = some n

def IsNatural (q : Quantity) : Prop := ∃ n, q.integer? = some n ∧ 0 ≤ n

/-- A whole number with more digits than are written. -/
def IsTooLong (q : Quantity) : Prop := ∃ n, q.integer? = some n ∧ tooLong ≤ n.natAbs

variable {a b q : Quantity} {n : Int} {fault : NumberFault}

theorem IsNatural.isWhole (h : q.IsNatural) : q.IsWhole := h.imp fun _ hn => hn.1

theorem isWhole_whole (n : Int) : (whole n : Quantity).IsWhole := ⟨n, rfl⟩

theorem isNatural_zero : (whole 0 : Quantity).IsNatural := ⟨0, rfl, le_rfl⟩

theorem IsWhole.combine (ha : a.IsWhole) (hb : b.IsWhole) (exact : Int → Int → Int)
    (rounded : Float → Float → Float) : (Quantity.combine exact rounded a b).IsWhole := by
  obtain ⟨m, hm⟩ := ha
  obtain ⟨n, hn⟩ := hb
  rw [combine_eq hm hn]
  exact isWhole_whole _

theorem IsWhole.add (ha : a.IsWhole) (hb : b.IsWhole) : (a + b).IsWhole := ha.combine hb _ _

theorem IsWhole.sub (ha : a.IsWhole) (hb : b.IsWhole) : (a - b).IsWhole := ha.combine hb _ _

theorem IsWhole.mul (ha : a.IsWhole) (hb : b.IsWhole) : (a * b).IsWhole := ha.combine hb _ _

theorem IsWhole.floorMod (ha : a.IsWhole) (n : Nat) : (Measure.floorMod a n).IsWhole :=
  ha.combine (isWhole_whole n) _ _

theorem IsNatural.add (ha : a.IsNatural) (hb : b.IsNatural) : (a + b).IsNatural := by
  obtain ⟨m, hm, hm'⟩ := ha
  obtain ⟨n, hn, hn'⟩ := hb
  exact ⟨m + n, congrArg integer? (combine_eq hm hn), by omega⟩

theorem isNatural_larger (ha : a.IsNatural) (hb : b.IsNatural) :
    (Measure.larger a b).IsNatural := by
  unfold Measure.larger
  split
  · exact hb
  · exact ha

theorem integer?_measure (a : PowerOfTwo) : (a.measure : Quantity).integer? = some a.val := by
  unfold PowerOfTwo.measure
  split
  · next h =>
    rw [a.isFlag_one h]
    rfl
  · rfl

theorem roundUp_eq (h : q.integer? = some n) (a : PowerOfTwo) :
    AggregateLayout.roundUp q a = .whole (AggregateLayout.roundUp n a) := by
  have hsum : q + Measure.whole a.val = .whole (n + a.val) := combine_eq h rfl
  unfold AggregateLayout.roundUp
  rw [hsum]
  rfl

theorem IsNatural.roundUp (h : q.IsNatural) (a : PowerOfTwo) :
    (AggregateLayout.roundUp q a).IsNatural := by
  obtain ⟨n, hn, hpos⟩ := h
  rw [roundUp_eq hn]
  exact ⟨_, rfl, hpos.trans (le_roundUp n a)⟩

theorem roundUp_measure (h : q.IsWhole) (a : PowerOfTwo) :
    Quantity.roundUp q a.measure = .ok (AggregateLayout.roundUp q a) := by
  obtain ⟨n, hn⟩ := h
  have hpos := a.pos
  have hdivide : quotient (q + a.measure - .whole 1) a.measure =
      .ok (.whole ((n + a.val - 1) / a.val)) := by
    have hsum : q + a.measure = .whole (n + a.val) := combine_eq hn (integer?_measure a)
    have hless : q + a.measure - .whole 1 = .whole (n + a.val - 1) := by
      rw [hsum]
      rfl
    unfold quotient
    rw [hless, integer?_measure]
    change (if (a.val : Int) = 0 then _ else _) = _
    rw [if_neg (by omega), Int.fdiv_eq_ediv_of_nonneg _ (by omega)]
  have hproduct : Quantity.whole ((n + a.val - 1) / a.val) * a.measure =
      .whole (AggregateLayout.roundUp n a) := combine_eq rfl (integer?_measure a)
  unfold Quantity.roundUp
  rw [hdivide]
  change (do (Measure.computed _).mapError _; return _) = _
  rw [hproduct, computed_whole, roundUp_eq hn]
  rfl

theorem IsWhole.computed (h : q.IsWhole) : Measure.computed q = .ok () := by
  obtain ⟨n, hn⟩ := h
  cases q with
  | whole n => exact computed_whole n
  | flag b => rfl
  | decimal x => cases hn
  | beyond => cases hn

theorem written_eq_error (h : q.IsWhole) :
    Measure.written q = .error fault ↔ fault = .tooManyDigits ∧ q.IsTooLong := by
  obtain ⟨n, hn⟩ := h
  cases q with
  | whole n =>
    have hlong : (Quantity.whole n).IsTooLong ↔ tooLong ≤ n.natAbs :=
      ⟨fun ⟨_, heq, hlong⟩ => Option.some.inj heq ▸ hlong, fun hlong => ⟨n, rfl, hlong⟩⟩
    rw [hlong]
    have hfault : Measure.fault? (Quantity.whole n) =
      if n.natAbs < tooLong then none else some .tooManyDigits := rfl
    unfold Measure.written
    rw [hfault]
    by_cases hshort : n.natAbs < tooLong
    · rw [if_pos hshort]
      exact iff_of_false nofun fun h => absurd h.2 (not_le.mpr hshort)
    · rw [if_neg hshort]
      dsimp only
      rw [Except.error.injEq, eq_comm]
      exact (and_iff_left (not_lt.mp hshort)).symm
  | flag b =>
    refine iff_of_false nofun ?_
    rintro ⟨_, n, heq, hlong⟩
    have hflag : n.natAbs ≤ 10 := by
      obtain rfl := Option.some.inj heq
      cases b <;> decide
    have hten := ten_lt_tooLong
    omega
  | decimal x => cases hn
  | beyond => cases hn

end Quantity

namespace TypeDescriptor

def IsWhole : TypeDescriptor Quantity → Prop
  | .basic _ size _ _ _ => size.val.IsWhole
  | .array element count => element.IsWhole ∧ count.val.IsWhole

variable {d e : TypeDescriptor Quantity} {q : Quantity} {fault : TypeFault Quantity}

theorem isWhole_sizeOf (h : q.IsWhole) : (Size.of q).val.IsWhole := by
  unfold Size.of
  split
  · exact Quantity.isWhole_whole 0
  · exact h

theorem IsWhole.size (h : d.IsWhole) : d.size.val.IsNatural := by
  have whole : d.size.val.IsWhole := by
    induction d with
    | basic => exact h
    | array element count ih => exact isWhole_sizeOf ((ih h.1).mul h.2)
  obtain ⟨n, hn⟩ := whole
  exact ⟨n, hn, size_nonneg hn⟩

theorem IsWhole.bitSize (h : d.IsWhole) : d.bitSize.IsWhole :=
  h.size.isWhole.mul (Quantity.isWhole_whole 8)

theorem IsWhole.arrayOf_eq_error (h : d.IsWhole) (hq : q.IsWhole)
    (hfault : TypeDescriptor.arrayOf d q = .error fault) :
    (q.IsTooLong ∧ fault = .number .tooManyDigits) ∨
      q < whole 0 ∧ fault = .negativeLength d.name q := by
  unfold TypeDescriptor.arrayOf at hfault
  rcases except_bind_eq_error.mp hfault with hwritten | ⟨_, _, hfault⟩
  · cases hw : Measure.written q with
    | ok _ =>
      rw [hw] at hwritten
      cases hwritten
    | error number =>
      rw [hw] at hwritten
      obtain rfl := Except.error.inj hwritten
      obtain ⟨rfl, hlong⟩ := (Quantity.written_eq_error hq).mp hw
      exact .inl ⟨hlong, rfl⟩
  · split at hfault
    · next hnegative => exact .inr ⟨hnegative, (Except.error.inj hfault).symm⟩
    · rw [(h.size.isWhole.mul hq).computed] at hfault
      cases hfault

theorem arrayOf_eq_ok (he : TypeDescriptor.arrayOf d q = .ok e) :
    ∃ hnonneg : ¬ q < whole 0, e = .array d ⟨q, hnonneg⟩ := by
  unfold TypeDescriptor.arrayOf at he
  obtain ⟨_, _, he⟩ := except_bind_eq_ok.mp he
  split at he
  · cases he
  · next hnonneg =>
    obtain ⟨_, _, he⟩ := except_bind_eq_ok.mp he
    exact ⟨hnonneg, (Except.ok.inj he).symm⟩

end TypeDescriptor

mutual

inductive TypeRef.IsWhole : TypeRef Quantity → Prop
  | named (name : String) : TypeRef.IsWhole (.named name)
  | descriptor {d : TypeDescriptor Quantity} (hd : d.IsWhole) : TypeRef.IsWhole (.descriptor d)
  | inline {a : Aggregate Quantity} (ha : Aggregate.IsWhole a) : TypeRef.IsWhole (.inline a)

inductive Member.IsWhole : Member Quantity → Prop
  | mk {m : Member Quantity} (htype : TypeRef.IsWhole m.type) (hdims : ∀ n ∈ m.dims, n.IsWhole)
    (hbits : ∀ width, m.bits = some width → width.IsWhole) : Member.IsWhole m

inductive Aggregate.IsWhole : Aggregate Quantity → Prop
  | mk {a : Aggregate Quantity} (hmembers : ∀ m ∈ a.members, Member.IsWhole m) :
    Aggregate.IsWhole a

end

theorem Aggregate.IsWhole.member {a : Aggregate Quantity} (h : a.IsWhole) {m : Member Quantity}
    (hm : m ∈ a.members) : m.IsWhole := by
  cases h with
  | mk hmembers => exact hmembers m hm

theorem Member.IsWhole.bits {m : Member Quantity} (h : m.IsWhole) {width : Quantity}
    (hwidth : m.bits = some width) : width.IsWhole := by
  cases h with
  | mk _ _ hbits => exact hbits width hwidth

theorem Member.IsWhole.type {m : Member Quantity} (h : m.IsWhole) : m.type.IsWhole := by
  cases h with
  | mk htype => exact htype

theorem Member.IsWhole.dims {m : Member Quantity} (h : m.IsWhole) : ∀ n ∈ m.dims, n.IsWhole := by
  cases h with
  | mk _ hdims _ => exact hdims

section Dims

variable {m : Member Quantity} {d e : TypeDescriptor Quantity} {f : LayoutFailure Quantity}

def Member.BadLength (m : Member Quantity) (f : LayoutFailure Quantity) : Prop :=
  ∃ fault, f = .invalid { cause := .invalidMember (.badLength fault), member := some m.name }

theorem withDims_whole (hd : d.IsWhole) (hdims : ∀ n ∈ m.dims, n.IsWhole) :
    (∃ e, withDims m d = .ok e ∧ e.IsWhole ∧ ∀ n ∈ m.dims, ¬ n < whole 0) ∨
      ∃ f, withDims m d = .error f ∧ m.BadLength f := by
  unfold withDims
  have hreversed : ∀ n ∈ m.dims.reverse, n.IsWhole := fun n hn => hdims n (List.mem_reverse.mp hn)
  have hmem (n : Quantity) : n ∈ m.dims ↔ n ∈ m.dims.reverse := List.mem_reverse.symm
  simp only [hmem]
  generalize m.dims.reverse = dims at hreversed
  induction dims generalizing d with
  | nil => exact .inl ⟨d, rfl, hd, fun n hn => (nomatch hn)⟩
  | cons n rest ih =>
    obtain ⟨hn, hrest⟩ := List.forall_mem_cons.mp hreversed
    rw [List.foldlM_cons]
    cases harray : TypeDescriptor.arrayOf d n with
    | error fault =>
      refine .inr ⟨m.lengthFailure fault, rfl, ?_⟩
      rcases hd.arrayOf_eq_error hn harray with ⟨_, rfl⟩ | ⟨_, rfl⟩ <;> exact ⟨_, rfl⟩
    | ok e =>
      obtain ⟨hnonneg, rfl⟩ := TypeDescriptor.arrayOf_eq_ok harray
      have he : (TypeDescriptor.array d ⟨n, hnonneg⟩).IsWhole := ⟨hd, hn⟩
      refine (ih he hrest).imp_left ?_
      rintro ⟨e', he', hwhole, hnonnegs⟩
      exact ⟨e', he', hwhole, List.forall_mem_cons.mpr ⟨hnonneg, hnonnegs⟩⟩

end Dims

end AggregateLayout
