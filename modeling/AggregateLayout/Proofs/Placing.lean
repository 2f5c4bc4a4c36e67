import Mathlib
import AggregateLayout.Proofs.Layouting
import AggregateLayout.Proofs.RoundUp

namespace AggregateLayout

open AggregateLayout.Measure (whole)

structure Member.FitsBits (m : Member Int) (width : Int) (d : TypeDescriptor Int) : Prop where
  single : m.dims = []
  scalar : d.kind = .scalar
  integer : d.isInteger = true
  positive : 1 ≤ width
  within : width ≤ 8 * d.size.val

variable {p : MachineProfile Int} {packed : Bool} {m : Member Int} {d : TypeDescriptor Int}
  {s s' : Placer Int} {placement : Placement Int}

theorem Member.FitsBits.size_pos {width : Int} (h : m.FitsBits width d) : 0 < d.size.val := by
  have hpositive := h.positive
  have hwithin := h.within
  omega

theorem TypeDescriptor.bitSize_int (d : TypeDescriptor Int) : d.bitSize = d.size.val * 8 := rfl

theorem StorageUnit.fits_iff {u : StorageUnit Int} {width : Int} :
    u.fits width = true ↔ u.used + width ≤ u.type.size.val * 8 := decide_eq_true_iff

theorem Member.isArray_eq_false {μ : Type} [Measure μ] {m : Member μ} :
    m.isArray = false ↔ m.dims = [] := by
  simp [Member.isArray]

theorem checkBitfield_cases (m : Member Int) (width : Int) (d : TypeDescriptor Int) :
    (checkBitfield m width d = .ok () ∧ m.FitsBits width d) ∨
      ¬ m.FitsBits width d ∧ ∃ cause, ¬ cause.OfChain ∧
        checkBitfield m width d = .error (.invalid { cause, member := some m.name }) := by
  unfold checkBitfield
  dsimp only
  by_cases ha : m.isArray = true
  · rw [if_pos ha]
    refine .inr ⟨fun fits => ?_, _, id, rfl⟩
    rw [Member.isArray_eq_false.mpr fits.single] at ha
    cases ha
  rw [if_neg ha]
  by_cases hk : (d.kind != .scalar || !d.isInteger) = true
  · rw [if_pos hk]
    refine .inr ⟨fun fits => ?_, _, id, rfl⟩
    simp [fits.scalar, fits.integer] at hk
  rw [if_neg hk]
  by_cases hw : (width ≤ whole 0 || d.bitSize < width) = true
  · rw [if_pos hw]
    refine .inr ⟨fun fits => ?_, _, id, rfl⟩
    have bad : width ≤ 0 ∨ d.size.val * 8 < width := by
      rcases (Bool.or_eq_true _ _).mp hw with h | h
      · exact .inl (of_decide_eq_true h)
      · exact .inr (of_decide_eq_true h)
    have := fits.positive
    have := fits.within
    omega
  rw [if_neg hw]
  have good : ¬ (width ≤ 0 ∨ d.size.val * 8 < width) := by
    rintro (h | h)
    · exact hw ((Bool.or_eq_true _ _).mpr (.inl (decide_eq_true h)))
    · exact hw ((Bool.or_eq_true _ _).mpr (.inr (decide_eq_true h)))
  have kind : d.kind = .scalar ∧ d.isInteger = true := by simpa using hk
  have single : m.dims = [] := Member.isArray_eq_false.mp (by simpa using ha)
  refine .inl ⟨rfl, single, kind.1, kind.2, ?_, ?_⟩ <;> omega

theorem checkBitfield_eq_ok {width : Int} :
    checkBitfield m width d = .ok () ↔ m.FitsBits width d := by
  rcases checkBitfield_cases m width d with ⟨h, fits⟩ | ⟨fits, cause, _, h⟩
  · exact iff_of_true h fits
  · rw [h]
    exact iff_of_false (fun h => nomatch h) fits

theorem Placer.place_eq_ok :
    s.place p packed m d = .ok (placement, s') ↔
      (m.bits = none ∧ s.placePlain p packed m d = (placement, s')) ∨
      ∃ width, m.bits = some width ∧ m.FitsBits width d ∧
        (((s.closeUnless p (·.type.sameAs d)).restart p width).closeUnless p
          (·.fits width)).takeBits p packed m width d = (placement, s') := by
  unfold place placeBitfield
  cases m.bits with
  | none => simp
  | some width =>
    simp only [except_bind_eq_ok, reduceCtorEq, false_and, false_or, Option.some.injEq]
    constructor
    · rintro ⟨_, fits, h⟩
      exact ⟨width, rfl, checkBitfield_eq_ok.mp fits, Except.ok.inj h⟩
    · rintro ⟨_, rfl, fits, h⟩
      exact ⟨(), checkBitfield_eq_ok.mpr fits, congrArg Except.ok h⟩

theorem Placer.computed_int (s : Placer Int) : s.computed = .ok () := by
  unfold computed
  cases s.unit <;> rfl

theorem Placement.written_int (q : Placement Int) : q.written = .ok () := by
  unfold written
  cases q.bits <;> rfl

theorem PartialStruct.add_eq_ok {q q' : PartialStruct Int} :
    q.add p packed m d = .ok q' ↔
      ∃ placement placer, q.placer.place p packed m d = .ok (placement, placer) ∧
        q' = { placer, alignment := q.alignment.max d.alignment,
               placements := placement :: q.placements } := by
  unfold add
  simp only [except_bind_eq_ok, mapError_eq_ok, Prod.exists, Placer.computed_int,
    Placement.written_int]
  constructor
  · rintro ⟨placement, placer, h, _, _, _, _, hq⟩
    exact ⟨placement, placer, h, (Except.ok.inj hq).symm⟩
  · rintro ⟨placement, placer, h, rfl⟩
    exact ⟨placement, placer, h, (), trivial, (), trivial, rfl⟩

theorem Placer.place_error {f : LayoutFailure Int} (h : s.place p packed m d = .error f) :
    ∃ width, m.bits = some width ∧ checkBitfield m width d = .error f := by
  unfold place at h
  split at h
  · next width hbits =>
    rcases except_bind_eq_error.mp h with h | ⟨_, _, h⟩
    · exact ⟨width, hbits, h⟩
    · cases h
  · cases h

theorem PartialStruct.add_error {q : PartialStruct Int} {f : LayoutFailure Int}
    (h : q.add p packed m d = .error f) :
    ∃ width, m.bits = some width ∧ checkBitfield m width d = .error f := by
  rcases except_bind_eq_error.mp h with hplace | ⟨⟨placement, placer⟩, hplace, _⟩
  · exact Placer.place_error hplace
  · have added := add_eq_ok.mpr ⟨placement, placer, hplace, rfl⟩
    exact (nomatch h.symm.trans added)

theorem overlay_error {f : LayoutFailure Int} (h : overlay p m d = .error f) :
    ∃ width, m.bits = some width ∧ checkBitfield m width d = .error f := by
  unfold overlay at h
  split at h
  · cases h
  · next width hbits =>
    rcases except_bind_eq_error.mp h with h | ⟨_, _, h⟩
    · exact ⟨width, hbits, h⟩
    · cases h

def Member.Fits (m : Member Int) (d : TypeDescriptor Int) : Prop :=
  ∀ width, m.bits = some width → m.FitsBits width d

theorem Member.fits_cases {α : Type} (m : Member Int) (d : TypeDescriptor Int)
    {x : Except (LayoutFailure Int) α} (plain : m.bits = none → ∃ r, x = .ok r)
    (field : ∀ width, m.bits = some width → ∃ r, x = checkBitfield m width d >>= fun _ => .ok r) :
    (m.Fits d ∧ ∃ r, x = .ok r) ∨
      ¬ m.Fits d ∧ ∃ e, x = .error (.invalid e) ∧ ¬ e.cause.OfChain := by
  unfold Fits
  cases hbits : m.bits with
  | none => exact .inl ⟨fun width h => (nomatch h), plain hbits⟩
  | some width =>
    obtain ⟨r, rfl⟩ := field width hbits
    rcases checkBitfield_cases m width d with ⟨h, fits⟩ | ⟨fits, cause, hcause, h⟩
    · refine .inl ⟨?_, r, by rw [h]; rfl⟩
      rintro _ ⟨⟩
      exact fits
    · exact .inr ⟨fun all => fits (all width rfl), _, by rw [h]; rfl, hcause⟩

theorem Placer.place_cases (p : MachineProfile Int) (packed : Bool) (m : Member Int)
    (d : TypeDescriptor Int) (s : Placer Int) :
    (m.Fits d ∧ ∃ r, s.place p packed m d = .ok r) ∨
      ¬ m.Fits d ∧ ∃ e, s.place p packed m d = .error (.invalid e) ∧ ¬ e.cause.OfChain := by
  unfold place
  apply m.fits_cases d
  · intro h
    rw [h]
    exact ⟨_, rfl⟩
  · intro width h
    rw [h]
    exact ⟨_, rfl⟩

theorem PartialStruct.add_cases (p : MachineProfile Int) (packed : Bool) (m : Member Int)
    (d : TypeDescriptor Int) (q : PartialStruct Int) :
    (m.Fits d ∧ ∃ q', q.add p packed m d = .ok q') ∨
      ¬ m.Fits d ∧ ∃ e, q.add p packed m d = .error (.invalid e) ∧ ¬ e.cause.OfChain := by
  rcases q.placer.place_cases p packed m d with
    ⟨fits, ⟨placement, placer⟩, h⟩ | ⟨fits, e, h, hcause⟩
  · exact .inl ⟨fits, _, add_eq_ok.mpr ⟨placement, placer, h, rfl⟩⟩
  · exact .inr ⟨fits, e, by unfold add; rw [h]; rfl, hcause⟩

theorem overlay_cases (p : MachineProfile Int) (m : Member Int) (d : TypeDescriptor Int) :
    (m.Fits d ∧ ∃ r, overlay p m d = .ok r) ∨
      ¬ m.Fits d ∧ ∃ e, overlay p m d = .error (.invalid e) ∧ ¬ e.cause.OfChain := by
  unfold overlay
  apply m.fits_cases d
  · intro h
    rw [h]
    exact ⟨_, rfl⟩
  · intro width h
    rw [h]
    exact ⟨_, rfl⟩

theorem exists_foldlM_add_iff {typed : List (Member Int × TypeDescriptor Int)}
    {q : PartialStruct Int} :
    (∃ q', typed.foldlM (fun (q : PartialStruct Int) x => q.add p packed x.1 x.2) q = .ok q') ↔
      ∀ x ∈ typed, x.1.Fits x.2 := by
  induction typed generalizing q with
  | nil => exact iff_of_true ⟨q, rfl⟩ fun x hx => (nomatch hx)
  | cons x rest ih =>
    rw [List.forall_mem_cons, List.foldlM_cons]
    rcases q.add_cases p packed x.1 x.2 with ⟨fits, q₁, h⟩ | ⟨fits, e, h, _⟩ <;> rw [h]
    · exact ih.trans (and_iff_right fits).symm
    · exact iff_of_false (fun ⟨_, h⟩ => (nomatch h)) fun h => fits h.1

theorem exists_mapM_overlay_iff {typed : List (Member Int × TypeDescriptor Int)} :
    (∃ placements, typed.mapM (fun x => overlay p x.1 x.2) = .ok placements) ↔
      ∀ x ∈ typed, x.1.Fits x.2 := by
  induction typed with
  | nil => exact iff_of_true ⟨[], rfl⟩ fun x hx => (nomatch hx)
  | cons x rest ih =>
    rw [List.forall_mem_cons, List.mapM_cons, ← ih]
    rcases overlay_cases p x.1 x.2 with ⟨fits, r, h⟩ | ⟨fits, e, h, _⟩ <;> rw [h]
    · constructor
      · rintro ⟨_, h⟩
        obtain ⟨_, _, h⟩ := except_bind_eq_ok.mp h
        obtain ⟨rs, hrs, _⟩ := except_bind_eq_ok.mp h
        exact ⟨fits, rs, hrs⟩
      · rintro ⟨_, rs, hrs⟩
        refine ⟨r :: rs, except_bind_eq_ok.mpr ⟨r, rfl, ?_⟩⟩
        exact except_bind_eq_ok.mpr ⟨rs, hrs, rfl⟩
    · exact iff_of_false (fun ⟨_, h⟩ => (nomatch h)) fun h => fits h.1

theorem Layout.exists_ofTypes_iff {a : Aggregate Int}
    {typed : List (Member Int × TypeDescriptor Int)} :
    (∃ l, ofTypes p a typed = .ok l) ↔ ∀ x ∈ typed, x.1.Fits x.2 := by
  unfold ofTypes
  cases a.kind with
  | struct =>
    rw [← @exists_foldlM_add_iff p a.packed typed {}]
    constructor
    · rintro ⟨_, h⟩
      obtain ⟨q, hq, _⟩ := except_bind_eq_ok.mp h
      exact ⟨q, hq⟩
    · rintro ⟨q, hq⟩
      exact ⟨q.finish p a, except_bind_eq_ok.mpr ⟨q, hq, rfl⟩⟩
  | union =>
    rw [← exists_mapM_overlay_iff (p := p)]
    constructor
    · rintro ⟨_, h⟩
      obtain ⟨placements, hp, _⟩ := except_bind_eq_ok.mp h
      exact ⟨placements, hp⟩
    · rintro ⟨placements, hp⟩
      exact ⟨finishUnion a placements, except_bind_eq_ok.mpr ⟨placements, hp, rfl⟩⟩

end AggregateLayout
