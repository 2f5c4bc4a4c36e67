import Mathlib
import AggregateLayout.Layout.Target

namespace AggregateLayout

open AggregateLayout.Measure (whole)

namespace Quantity

variable {a b q : Quantity} {m n : Int}

theorem combine_eq {exact : Int → Int → Int} {rounded : Float → Float → Float}
    (ha : a.integer? = some m) (hb : b.integer? = some n) :
    combine exact rounded a b = .whole (exact m n) := by
  unfold combine
  rw [ha, hb]

theorem ten_lt_tooLong : (10 : Int) < tooLong := by
  have h : 10 < tooLong := by decide +kernel
  exact Int.ofNat_lt.mpr h

theorem written_eq (hq : q.integer? = some n) (hn : 0 ≤ n) :
    Measure.written q = if n < tooLong then .ok () else .error .tooManyDigits := by
  cases q with
  | whole m =>
    obtain rfl := Option.some.inj hq
    have habs : m.natAbs < tooLong ↔ m < tooLong := by omega
    have hfault : Measure.fault? (whole m) =
        if m < tooLong then none else some NumberFault.tooManyDigits := if_congr habs rfl rfl
    unfold Measure.written
    rw [hfault]
    by_cases hsmall : m < tooLong
    · rw [if_pos hsmall, if_pos hsmall]
    · rw [if_neg hsmall, if_neg hsmall]
  | flag b =>
    obtain rfl := Option.some.inj hq
    have hsmall : b.toInt ≤ 10 := by cases b <;> decide
    rw [if_pos (hsmall.trans_lt ten_lt_tooLong)]
    rfl
  | decimal x => cases hq
  | beyond => cases hq

theorem computed_whole (n : Int) : Measure.computed (Quantity.whole n) = .ok () := by
  apply if_neg
  change (if n.natAbs < tooLong then none else some NumberFault.tooManyDigits) ≠ _
  split <;> exact nofun

theorem lt_zero_iff (hq : q.integer? = some n) : q < whole 0 ↔ n < 0 := by
  change compare? q (.whole 0) = some .lt ↔ _
  unfold compare?
  rw [hq]
  simp [integer?, Int.compare_eq_lt]

end Quantity

namespace TypeDescriptor

variable {d : TypeDescriptor Quantity} {q : Quantity} {s n : Int}

theorem size_nonneg (hs : d.size.val.integer? = some s) : 0 ≤ s :=
  not_lt.mp ((Quantity.lt_zero_iff hs).not.mp d.size.nonneg)

theorem arrayOf_small (hs : d.size.val.integer? = some s) (hq : q.integer? = some n) (hn : 0 ≤ n)
    (hsmall : n < Quantity.tooLong) :
    ∃ e, arrayOf d q = .ok e ∧ e.size.val.integer? = some (n * s) := by
  have hnonneg : ¬ q < whole 0 := (Quantity.lt_zero_iff hq).not.mpr (not_lt.mpr hn)
  have hproduct : d.size.val * q = .whole (s * n) := Quantity.combine_eq hs hq
  refine ⟨.array d ⟨q, hnonneg⟩, ?_, ?_⟩
  · unfold arrayOf
    rw [Quantity.written_eq hq hn, if_pos hsmall, dif_neg hnonneg, hproduct,
      Quantity.computed_whole]
    rfl
  · change (Size.of (d.size.val * q)).val.integer? = _
    have hpos : ¬ Quantity.whole (s * n) < whole 0 :=
      (Quantity.lt_zero_iff rfl).not.mpr (not_lt.mpr (mul_nonneg (size_nonneg hs) hn))
    rw [hproduct, Size.of, dif_neg hpos]
    exact congrArg some (mul_comm s n)

theorem arrayOf_large (hq : q.integer? = some n) (hlarge : Quantity.tooLong ≤ n) :
    arrayOf d q = .error (.number .tooManyDigits) := by
  unfold arrayOf
  rw [Quantity.written_eq hq (le_trans (Int.natCast_nonneg _) hlarge), if_neg (not_lt.mpr hlarge)]
  rfl

theorem foldlM_arrayOf (fail : TypeFault Quantity → LayoutFailure Quantity) (qs : List Quantity)
    (counts : List Int) (hcounts : qs.map Quantity.integer? = counts.map some)
    (hnonneg : ∀ n ∈ counts, 0 ≤ n) (hs : d.size.val.integer? = some s) :
    (∃ e, qs.foldlM (fun element q => (arrayOf element q).mapError fail) d = .ok e ∧
      e.size.val.integer? = some (counts.prod * s)) ∨
    (∃ n ∈ counts, Quantity.tooLong ≤ n) ∧
      qs.foldlM (fun element q => (arrayOf element q).mapError fail) d =
        .error (fail (.number .tooManyDigits)) := by
  induction qs generalizing d s counts with
  | nil =>
    obtain rfl := List.map_eq_nil_iff.mp hcounts.symm
    exact .inl ⟨d, rfl, by simpa using hs⟩
  | cons q rest ih =>
    cases counts with
    | nil => cases hcounts
    | cons n counts =>
      obtain ⟨hq, hrest⟩ := List.cons.inj hcounts
      obtain ⟨hn, hnonneg⟩ := List.forall_mem_cons.mp hnonneg
      rw [List.foldlM_cons]
      by_cases hsmall : n < Quantity.tooLong
      · obtain ⟨e, he, hes⟩ := arrayOf_small hs hq hn hsmall
        rw [he]
        rcases ih counts hrest hnonneg hes with ⟨f, hf, hsize⟩ | ⟨⟨k, hk, hlarge⟩, hf⟩
        · refine .inl ⟨f, hf, ?_⟩
          rw [hsize, List.prod_cons, mul_left_comm, mul_assoc]
        · exact .inr ⟨⟨k, .tail _ hk, hlarge⟩, hf⟩
      · refine .inr ⟨⟨n, .head _, not_lt.mp hsmall⟩, ?_⟩
        rw [arrayOf_large hq (not_lt.mp hsmall)]
        rfl

end TypeDescriptor

theorem withDims_counts {m : Member Quantity} {d : TypeDescriptor Quantity} {s : Int}
    {counts : List Int} (hcounts : m.dims.map Quantity.integer? = counts.map some)
    (hnonneg : ∀ n ∈ counts, 0 ≤ n) (hs : d.size.val.integer? = some s) :
    (∃ e, withDims m d = .ok e ∧ e.size.val.integer? = some (counts.prod * s)) ∨
    (∃ n ∈ counts, Quantity.tooLong ≤ n) ∧ withDims m d = .error (.invalid
      { cause := .invalidMember (.badLength (.number .tooManyDigits)),
        member := some m.name }) := by
  have hreversed : m.dims.reverse.map Quantity.integer? = counts.reverse.map some := by
    rw [List.map_reverse, List.map_reverse, hcounts]
  have harrays := TypeDescriptor.foldlM_arrayOf m.lengthFailure _ _ hreversed
    (fun n hn => hnonneg n (List.mem_reverse.mp hn)) hs
  rw [List.prod_reverse] at harrays
  exact harrays.imp_right fun ⟨⟨n, hn, hlarge⟩, h⟩ => ⟨⟨n, List.mem_reverse.mp hn, hlarge⟩, h⟩

end AggregateLayout
