import Mathlib
import AggregateLayout.Proofs.Plain
import AggregateLayout.Proofs.RoundUp

namespace AggregateLayout

variable {m m' : Member Int} {d d' e e' : TypeDescriptor Int} {n : Int}

theorem TypeDescriptor.arrayOf_int (d : TypeDescriptor Int) (n : Int) :
    arrayOf d n =
      if h : n < 0 then .error (.negativeLength d.name n) else .ok (.array d ⟨n, h⟩) := rfl

theorem withDims_nil (h : m.dims = []) : withDims m d = .ok d := by
  unfold withDims
  rw [h]
  rfl

theorem withDims_induction {P : TypeDescriptor Int → Prop}
    (array : ∀ element count, P element → P (.array element count)) (hd : P d)
    (h : withDims m d = .ok e) : P e := by
  unfold withDims at h
  generalize m.dims.reverse = ns at h
  induction ns generalizing d with
  | nil =>
    obtain rfl := Except.ok.inj h
    exact hd
  | cons n rest ih =>
    rw [List.foldlM_cons, except_bind_eq_ok] at h
    obtain ⟨d₁, hd₁, h⟩ := h
    rw [mapError_eq_ok, TypeDescriptor.arrayOf_int] at hd₁
    split at hd₁
    · cases hd₁
    · obtain rfl := Except.ok.inj hd₁
      exact ih (array _ _ hd) h

theorem withDims_error {f : LayoutFailure Int} (h : withDims m d = .error f) :
    ∃ fault,
      f = .invalid { cause := .invalidMember (.badLength fault), member := some m.name } := by
  obtain ⟨n, _, element, _, h⟩ :=
    foldlM_eq_error (P := fun _ => True) (fun _ _ _ _ _ => trivial) trivial h
  rw [TypeDescriptor.arrayOf_int] at h
  split at h
  · exact ⟨_, (Except.error.inj h).symm⟩
  · cases h

theorem withDims_cases (m : Member Int) (d : TypeDescriptor Int) :
    ((∀ n ∈ m.dims, 0 ≤ n) ∧ ∃ e, withDims m d = .ok e) ∨
      (¬ ∀ n ∈ m.dims, 0 ≤ n) ∧ ∃ e, withDims m d = .error (.invalid e) ∧ ¬ e.cause.OfChain := by
  have reversed : (∀ n ∈ m.dims, 0 ≤ n) ↔ ∀ n ∈ m.dims.reverse, 0 ≤ n := by simp
  unfold withDims
  rw [reversed]
  generalize m.dims.reverse = ns
  induction ns generalizing d with
  | nil => exact .inl ⟨fun n hn => (nomatch hn), d, rfl⟩
  | cons n rest ih =>
    rw [List.foldlM_cons, TypeDescriptor.arrayOf_int, List.forall_mem_cons]
    split
    · next hneg => exact .inr ⟨fun h => absurd h.1 (not_le.mpr hneg), _, rfl, id⟩
    · next hpos =>
      rcases ih (.array d ⟨n, hpos⟩) with ⟨hrest, he⟩ | ⟨hrest, he⟩
      · exact .inl ⟨⟨not_lt.mp hpos, hrest⟩, he⟩
      · exact .inr ⟨fun h => hrest h.2, he⟩

theorem plain_withDims (m : Member Int) (d : TypeDescriptor Int) :
    withDims m d.plain = (withDims m d).map TypeDescriptor.plain := by
  unfold withDims
  induction m.dims.reverse generalizing d with
  | nil => rfl
  | cons count rest ih =>
    rw [List.foldlM_cons, List.foldlM_cons, plain_arrayOf]
    cases TypeDescriptor.arrayOf d count with
    | error f => rfl
    | ok e => exact ih e

theorem withDims_congr (hm : m.name = m'.name) (hdims : m.dims = m'.dims) :
    withDims m = withDims m' := by
  unfold withDims Member.lengthFailure
  rw [hm, hdims]

theorem withDims_plain_eq (hd : d.plain = d'.plain) (he : withDims m d = .ok e)
    (he' : withDims m d' = .ok e') : e.plain = e'.plain := by
  have h := plain_withDims m d
  rw [hd, plain_withDims m d', he, he'] at h
  exact (Except.ok.inj h).symm

end AggregateLayout
