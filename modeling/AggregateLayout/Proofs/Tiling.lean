import Mathlib
import AggregateLayout.Profile.Builtin
import AggregateLayout.Proofs.Tiling.Placer

/-!
The members and the padding of a layout share out its bits: each bit from the first to the last
belongs to one of them.
-/

namespace AggregateLayout

def Layout.extents (l : Layout Int) : List Extent :=
  l.placements.map Placement.extent ++ l.padding.map Padding.extent

theorem PartialStruct.tiled_add {p : MachineProfile Int} {packed : Bool} {q q' : PartialStruct Int}
    {m : Member Int} {d : TypeDescriptor Int}
    (h : q.placer.Tiled p.bitfieldDirection (q.placements.map Placement.extent))
    (hq : q.add p packed m d = .ok q') :
    q'.placer.Tiled p.bitfieldDirection (q'.placements.map Placement.extent) := by
  obtain ⟨placement, placer, hs, rfl⟩ := add_eq_ok.mp hq
  exact h.place hs

theorem PartialStruct.tiled_foldlM {p : MachineProfile Int} {packed : Bool}
    {typed : List (Member Int × TypeDescriptor Int)} {q q' : PartialStruct Int}
    (h : q.placer.Tiled p.bitfieldDirection (q.placements.map Placement.extent))
    (hq : typed.foldlM (fun (q : PartialStruct Int) x => q.add p packed x.1 x.2) q = .ok q') :
    q'.placer.Tiled p.bitfieldDirection (q'.placements.map Placement.extent) := by
  apply foldlM_invariant (P := fun q : PartialStruct Int =>
    q.placer.Tiled p.bitfieldDirection (q.placements.map Placement.extent)) _ h hq
  intro x q q' h hx
  exact tiled_add h hx

namespace Layout

structure Tiled (l : Layout Int) : Prop where
  filled : ∀ v : Valuation, v.total l.extents = v.of 0 (8 * l.totalSize)
  nonempty : ∀ r ∈ l.padding, 0 < r.length
  ordered : l.padding.Pairwise (·.offset ≤ ·.offset)
  size_nonneg : 0 ≤ l.totalSize

variable {p : MachineProfile Int} {a : Aggregate Int} {l : Layout Int}
  {typed : List (Member Int × TypeDescriptor Int)}

theorem ofTypes_struct (ha : a.kind = .struct) (h : ofTypes p a typed = .ok l) :
    ∃ q, typed.foldlM (fun (q : PartialStruct Int) x => q.add p a.packed x.1 x.2) {} = .ok q ∧
      l = q.finish p a := by
  unfold ofTypes at h
  rw [ha] at h
  obtain ⟨q, hq, hl⟩ := except_bind_eq_ok.mp h
  exact ⟨q, hq, (Except.ok.inj hl).symm⟩

theorem ofTypes_union (ha : a.kind = .union) (h : ofTypes p a typed = .ok l) :
    ∃ placements, typed.mapM (fun x => overlay p x.1 x.2) = .ok placements ∧
      l = finishUnion a placements := by
  unfold ofTypes at h
  rw [ha] at h
  obtain ⟨placements, hs, hl⟩ := except_bind_eq_ok.mp h
  exact ⟨placements, hs, (Except.ok.inj hl).symm⟩

theorem tiled_ofTypes (ha : a.kind = .struct) (h : ofTypes p a typed = .ok l) : l.Tiled := by
  obtain ⟨q, hq, rfl⟩ := ofTypes_struct ha h
  have hs := (PartialStruct.tiled_foldlM .start hq).close
  have hf := hs.align (Placer.close_unit p _) (if a.packed then .one else q.alignment)
  have hn := (Placer.align_unit (q.placer.close p) (if a.packed then .one else q.alignment)).trans
    (Placer.close_unit p _)
  refine ⟨fun v => ?_, hf.listed.nonempty, hf.listed.ordered, ?_⟩
  · have hv := hf.filled v
    simp only [Placer.base, Placer.openBits, hn] at hv
    have hp := v.total_perm (q.placements.reverse_perm.map Placement.extent)
    simp only [extents, Valuation.total_append, PartialStruct.finish] at hp ⊢
    omega
  · have := hf.base_nonneg
    simp only [Placer.base, hn] at this
    exact this

theorem Tiled.countP_covers (h : l.Tiled) (bit : Int) :
    l.extents.countP (·.covers bit) = if 0 ≤ bit ∧ bit < 8 * l.totalSize then 1 else 0 := by
  have hv := h.filled (.ofBit bit)
  rw [Valuation.total_ofBit] at hv
  change _ = if 0 ≤ bit ∧ bit < 8 * l.totalSize then (1 : Int) else 0 at hv
  split_ifs at hv ⊢ <;> omega

theorem total_length_placements (placements : List (Placement Int)) :
    Valuation.length.total (placements.map Placement.extent) =
      (placements.map Placement.sizeBits).sum := by
  induction placements with
  | nil => rfl
  | cons q rest ih =>
    have hq : Valuation.length.of q.extent.start q.extent.stop = q.sizeBits := by
      unfold Placement.extent Placement.sizeBits Valuation.length
      cases q.bits with
      | none =>
        change 8 * (q.offset + q.size.val) - 8 * q.offset = q.size.val * 8
        omega
      | some bits =>
        change 8 * q.offset + bits.offset + bits.width - (8 * q.offset + bits.offset) = bits.width
        omega
    simp only [List.map_cons, Valuation.total_cons, List.sum_cons, ih, hq]

theorem total_length_padding (padding : List (Padding Int)) :
    Valuation.length.total (padding.map Padding.extent) = (padding.map Padding.bitCount).sum := by
  induction padding with
  | nil => rfl
  | cons r rest ih =>
    have hr : Valuation.length.of r.extent.start r.extent.stop = r.bitCount := by
      unfold Padding.extent Padding.bitCount Valuation.length
      cases r with
      | bytes offset length =>
        change 8 * (offset + length) - 8 * offset = length * 8
        omega
      | bits unit bitOffset length =>
        change 8 * unit + bitOffset + length - (8 * unit + bitOffset) = length
        omega
    simp only [List.map_cons, Valuation.total_cons, List.sum_cons, ih, hr]

theorem paddingBits_int (l : Layout Int) : l.paddingBits = (l.padding.map Padding.bitCount).sum :=
  Measure.sum_int _

theorem memberBits_struct (hl : l.kind = .struct) :
    l.memberBits = (l.placements.map Placement.sizeBits).sum := by
  unfold memberBits
  rw [hl]
  exact Measure.sum_int _

theorem Tiled.memberBits_add_paddingBits (h : l.Tiled) (hl : l.kind = .struct) :
    l.memberBits + l.paddingBits = 8 * l.totalSize := by
  have hv := h.filled .length
  rw [extents, Valuation.total_append, total_length_placements, total_length_padding] at hv
  rw [memberBits_struct hl, paddingBits_int, hv]
  exact sub_zero _

theorem le_foldl_larger (n : Int) (ns : List Int) : n ≤ ns.foldl Measure.larger n := by
  induction ns generalizing n with
  | nil => exact le_refl n
  | cons m rest ih =>
    rw [List.foldl_cons, Measure.larger_int]
    exact (le_max_left n m).trans (ih _)

theorem foldl_larger_mul (n : Int) (ns : List Int) :
    (ns.map (· * 8)).foldl Measure.larger (n * 8) = ns.foldl Measure.larger n * 8 := by
  induction ns generalizing n with
  | nil => rfl
  | cons m rest ih =>
    simp only [List.map_cons, List.foldl_cons, Measure.larger_int] at ih ⊢
    rw [← ih, max_mul_of_nonneg _ _ (by decide)]

theorem memberBits_union (hl : l.kind = .union) :
    l.memberBits = (l.placements.map (·.size.val)).foldl Measure.larger 0 * 8 := by
  unfold memberBits
  rw [hl]
  cases l.placements with
  | nil => rfl
  | cons q rest =>
    have hq : Measure.larger 0 q.size.val = q.size.val := by
      rw [Measure.larger_int, max_eq_right q.size.val_nonneg]
    rw [List.map_cons, List.foldl_cons, hq, ← foldl_larger_mul, List.map_map]
    rfl

theorem union_memberBits_add_paddingBits (ha : a.kind = .union)
    (h : ofTypes p a typed = .ok l) : l.memberBits + l.paddingBits = 8 * l.totalSize := by
  obtain ⟨placements, _, rfl⟩ := ofTypes_union ha h
  have hn := le_foldl_larger 0 (placements.map (·.size.val))
  rw [memberBits_union ha, paddingBits_int]
  unfold finishUnion
  dsimp only [Measure.whole_int]
  generalize (placements.map (·.size.val)).foldl Measure.larger 0 = largest at hn ⊢
  generalize (if a.packed then PowerOfTwo.one else _) = alignment
  let s : Placer Int := { cursor := largest }
  have hs : s.Tiled .lowToHigh [{ start := 0, stop := 8 * largest }] := by
    refine ⟨hn, fun v => ?_, .nil _, by simp [s]⟩
    simp [s, Placer.base, Placer.openBits]
  have hv := (hs.align rfl alignment).filled .length
  have hu := s.align_unit alignment
  rw [total_length_padding] at hv
  simp only [Placer.base, Placer.openBits, hu, s, Valuation.total_cons, Valuation.total_nil] at hv
  change 8 * largest - 0 + 0 + ((s.align alignment).padding.map Padding.bitCount).sum =
    8 * (s.align alignment).cursor - 0 + 0 at hv
  change largest * 8 + ((s.align alignment).padding.map Padding.bitCount).sum =
    8 * (s.align alignment).cursor
  omega

theorem memberBits_add_paddingBits (h : ofTypes p a typed = .ok l) :
    l.memberBits + l.paddingBits = 8 * l.totalSize := by
  cases ha : a.kind with
  | union => exact union_memberBits_add_paddingBits ha h
  | struct =>
    apply (tiled_ofTypes ha h).memberBits_add_paddingBits
    obtain ⟨q, _, rfl⟩ := ofTypes_struct ha h
    exact ha

end Layout

theorem layout_tiles (t : Target Int) (a : Aggregate Int) (l : Layout Int)
    (h : t.layout a = .ok l) :
    (a.kind = .struct →
      (∀ bit : Int, l.extents.countP (·.covers bit) =
        if 0 ≤ bit ∧ bit < 8 * l.totalSize then 1 else 0) ∧
      (∀ r ∈ l.padding, 0 < r.length) ∧
      l.padding.Pairwise (·.offset ≤ ·.offset)) ∧
    l.memberBits + l.paddingBits = 8 * l.totalSize := by
  obtain ⟨typed, _, hl⟩ := Target.layout_typed h
  refine ⟨fun ha => ?_, Layout.memberBits_add_paddingBits hl⟩
  have ht := Layout.tiled_ofTypes ha hl
  exact ⟨ht.countP_covers, ht.nonempty, ht.ordered⟩

def restartingTarget : Target Int :=
  .ofProfile { MachineProfile.lp64BigEndian with byteRestart := .boolean true }

def fieldsAndArray : Aggregate Int where
  name := "mixed"
  members :=
    let byte : TypeDescriptor Int := .basic "u8" (.of 1) .one .scalar true
    let word : TypeDescriptor Int := .basic "u32" (.of 4) .four .scalar true
    [{ name := "kind", type := .descriptor byte },
      { name := "low", type := .descriptor word, bits := some 5 },
      { name := "high", type := .descriptor word, bits := some 6 },
      { name := "rest", type := .descriptor word, dims := [2] }]

theorem layout_tiles_fieldsAndArray :
    ∃ l : Layout Int, restartingTarget.layout fieldsAndArray = .ok l ∧
      l.padding = [.bytes 1 3, .bits 4 24 3, .bits 4 0 18] ∧
      (∀ bit : Int, l.extents.countP (·.covers bit) = if 0 ≤ bit ∧ bit < 128 then 1 else 0) ∧
      l.memberBits + l.paddingBits = 128 := by
  refine ⟨_, rfl, ?_, ?_, ?_⟩
  · rfl
  · exact ((layout_tiles restartingTarget fieldsAndArray _ rfl).1 rfl).1
  · exact (layout_tiles restartingTarget fieldsAndArray _ rfl).2

end AggregateLayout
