import Mathlib
import AggregateLayout.Proofs.Paths

/-!
How the places of the members of one aggregate lie to each other. All of them are inside its size.
In a struct one of two members ends before the other one starts, or they are bitfields that have
different bits of one unit.
-/

namespace AggregateLayout

namespace Extent

variable {es : List Extent}

theorem pairwise_apart (h : ∀ bit, es.countP (·.covers bit) ≤ 1) : es.Pairwise Apart := by
  induction es with
  | nil => exact .nil
  | cons e rest ih =>
    refine .cons (fun f hf bit ⟨he, hfbit⟩ => ?_) (ih fun bit => ?_)
    · have later : 0 < rest.countP (·.covers bit) := List.countP_pos_iff.mpr ⟨f, hf, hfbit⟩
      have atMost := h bit
      rw [List.countP_cons, if_pos he] at atMost
      omega
    · exact (List.Sublist.countP_le (List.sublist_cons_self e rest)).trans (h bit)

end Extent

namespace Placement

variable {x y : Placement Int}

theorem SameUnit.symm (h : x.SameUnit y) : y.SameUnit x :=
  ⟨h.right, h.left, h.offset.symm, h.size.symm⟩

def Ordered (x y : Placement Int) : Prop := x.stop ≤ y.offset ∨ y.stop ≤ x.offset

def Beside (x y : Placement Int) : Prop := x.Ordered y ∨ x.SameUnit y ∧ x.extent.Apart y.extent

theorem Beside.symm (h : x.Beside y) : y.Beside x := by
  rcases h with h | ⟨h, apart⟩
  · exact .inl h.symm
  · exact .inr ⟨h.symm, fun bit hbit => apart bit hbit.symm⟩

instance : Std.Symm Beside := ⟨fun _ _ h => h.symm⟩

theorem Ordered.not_clash (h : x.Ordered y) : ¬ x.Clash y := by
  rintro ⟨⟨byte, hx, hy⟩, _⟩
  unfold HasByte at hx hy
  unfold Ordered at h
  omega

theorem Beside.not_clash (h : x.Beside y) : ¬ x.Clash y := by
  rcases h with h | h
  · exact h.not_clash
  · exact fun hclash => hclash.bits h

end Placement

variable {p : MachineProfile Int} {packed : Bool} {a : Aggregate Int} {l : Layout Int}
  {typed : List (Member Int × TypeDescriptor Int)} {m : Member Int} {d : TypeDescriptor Int}
  {q : Placement Int}

namespace PartialStruct

variable {s s' : PartialStruct Int}

structure Row (s : PartialStruct Int) : Prop where
  nonneg : 0 ≤ s.placer.cursor
  placed : ∀ q ∈ s.placements, 0 ≤ q.offset ∧ q.stop ≤ s.placer.cursor
  opened : ∀ u, s.placer.unit = some u →
    0 ≤ s.placer.unitStart ∧ s.placer.cursor = s.placer.unitStart + u.type.size.val
  unit : ∀ u, s.placer.unit = some u → ∀ q ∈ s.placements,
    q.stop ≤ s.placer.unitStart ∨
      q.bits.isSome ∧ q.offset = s.placer.unitStart ∧ q.size = u.type.size
  beside : s.placements.Pairwise fun x y => x.Ordered y ∨ x.SameUnit y

theorem Row.start : Row {} :=
  ⟨le_rfl, fun _ hq => (nomatch hq), fun _ hu => (nomatch hu), fun _ hu => (nomatch hu), .nil⟩

theorem Row.push (h : s.Row) (hbehind : s.placer.cursor ≤ q.offset) :
    (∀ x ∈ q :: s.placements, 0 ≤ x.offset ∧ x.stop ≤ q.stop) ∧
      (q :: s.placements).Pairwise fun x y => x.Ordered y ∨ x.SameUnit y := by
  have hnonneg := h.nonneg
  have hstop : q.offset ≤ q.stop := le_add_of_nonneg_right q.size.val_nonneg
  refine ⟨List.forall_mem_cons.mpr ⟨⟨by omega, le_rfl⟩, fun x hx => ?_⟩,
    .cons (fun x hx => ?_) h.beside⟩
  · obtain ⟨hstart, hend⟩ := h.placed x hx
    exact ⟨hstart, by omega⟩
  · have hend := (h.placed x hx).2
    exact .inl (.inr (hend.trans hbehind))

theorem Row.join {u : StorageUnit Int} (h : s.Row) (hu : s.placer.unit = some u)
    (hbits : q.bits.isSome) (hoffset : q.offset = s.placer.unitStart)
    (hsize : q.size = u.type.size) :
    (∀ x ∈ q :: s.placements, 0 ≤ x.offset ∧ x.stop ≤ s.placer.cursor) ∧
      (q :: s.placements).Pairwise fun x y => x.Ordered y ∨ x.SameUnit y := by
  obtain ⟨hstart, hcursor⟩ := h.opened u hu
  have hstop : q.stop = q.offset + u.type.size.val := by
    rw [← hsize]
    rfl
  refine ⟨List.forall_mem_cons.mpr ⟨by omega, h.placed⟩, .cons (fun x hx => ?_) h.beside⟩
  rcases h.unit u hu x hx with hend | ⟨hxbits, hxoffset, hxsize⟩
  · exact .inl (.inr (hend.trans hoffset.ge))
  · exact .inr ⟨hbits, hxbits, hoffset.trans hxoffset.symm, by rw [hsize, hxsize]⟩

theorem Row.add (h : s.Row) (hs : s.add p packed m d = .ok s') : s'.Row := by
  obtain ⟨q, placer, hplace, rfl⟩ := add_eq_ok.mp hs
  have hsize := Placer.place_size hplace
  have hstop : q.stop = q.offset + d.size.val := by
    rw [← hsize]
    rfl
  have hround := le_roundUp s.placer.cursor (Placer.alignmentOf packed d)
  have hnonneg := h.nonneg
  have hpos := d.size.val_nonneg
  cases Placer.place_step hplace with
  | alone _ hoffset hunit hcursor =>
    obtain ⟨placed, beside⟩ := h.push (q := q) (by omega)
    rw [hstop, ← hcursor] at placed
    have shut (u : StorageUnit Int) : placer.unit ≠ some u := by
      rw [hunit]
      exact nofun
    refine ⟨?_, placed, fun u hu => absurd hu (shut u), fun u hu => absurd hu (shut u), beside⟩
    change 0 ≤ placer.cursor
    omega
  | opens hbits hoffset hunit htype hstart hcursor =>
    obtain ⟨placed, beside⟩ := h.push (q := q) (by omega)
    rw [hstop, ← hcursor] at placed
    refine ⟨?_, placed, fun u hu => ?_, fun u hu => ?_, beside⟩
    · change 0 ≤ placer.cursor
      omega
    · obtain rfl := Option.some.inj (hunit.symm.trans hu)
      change 0 ≤ placer.unitStart ∧ placer.cursor = placer.unitStart + _
      rw [htype]
      omega
    · obtain rfl := Option.some.inj (hunit.symm.trans hu)
      rw [htype]
      refine List.forall_mem_cons.mpr ⟨.inr ⟨hbits, hstart.symm, hsize⟩, fun x hx => .inl ?_⟩
      have hend := (h.placed x hx).2
      change x.stop ≤ placer.unitStart
      omega
  | @joins v _ hbits hunit htype hoffset hunit' htype' hstart hcursor =>
    have hsize : q.size = v.type.size :=
      hsize.trans (TypeDescriptor.size_of_plain_eq htype).symm
    obtain ⟨placed, beside⟩ := h.join hunit hbits hoffset hsize
    rw [← hcursor] at hnonneg placed
    refine ⟨hnonneg, placed, fun u hu => ?_, fun u hu => ?_, beside⟩ <;>
      obtain rfl := Option.some.inj (hunit'.symm.trans hu)
    · rw [htype', hcursor, hstart]
      exact h.opened v hunit
    · rw [htype', hstart]
      exact List.forall_mem_cons.mpr ⟨.inr ⟨hbits, hoffset, hsize⟩, h.unit v hunit⟩

theorem Row.foldlM (h : s.Row)
    (hs : typed.foldlM (fun (s : PartialStruct Int) x => s.add p packed x.1 x.2) s = .ok s') :
    s'.Row :=
  foldlM_invariant (P := Row) (fun _ _ _ h hx => h.add hx) h hs

end PartialStruct

namespace Layout

theorem mem_le_foldl_larger {n k : Int} {ns : List Int} (hk : k ∈ ns) :
    k ≤ ns.foldl Measure.larger n := by
  induction ns generalizing n with
  | nil => cases hk
  | cons m rest ih =>
    rw [List.foldl_cons]
    rcases List.mem_cons.mp hk with rfl | hk
    · have first := le_foldl_larger (Measure.larger n k) rest
      rw [Measure.larger_int] at first ⊢
      exact (le_max_right n k).trans first
    · exact ih hk

theorem within_ofTypes (h : ofTypes p a typed = .ok l) (hq : q ∈ l.placements) :
    0 ≤ q.offset ∧ q.stop ≤ l.totalSize := by
  cases ha : a.kind with
  | struct =>
    obtain ⟨s, hs, rfl⟩ := ofTypes_struct ha h
    have row : s.Row := PartialStruct.Row.start.foldlM hs
    obtain ⟨hstart, hend⟩ := row.placed q (List.mem_reverse.mp hq)
    refine ⟨hstart, hend.trans ?_⟩
    rw [totalSize_finish]
    exact le_roundUp _ _
  | union =>
    have hstart := offset_union ha h q hq
    obtain ⟨placements, _, rfl⟩ := ofTypes_union ha h
    have hlargest : q.size.val ≤ (placements.map (·.size.val)).foldl Measure.larger 0 :=
      mem_le_foldl_larger (List.mem_map_of_mem hq)
    refine ⟨hstart.ge, ?_⟩
    rw [totalSize_finishUnion]
    change q.offset + q.size.val ≤ _
    rw [hstart, zero_add]
    exact hlargest.trans (le_roundUp _ _)

theorem beside_ofTypes (ha : a.kind = .struct) (h : ofTypes p a typed = .ok l) :
    l.placements.Pairwise Placement.Beside := by
  have apart : l.placements.Pairwise fun x y => x.extent.Apart y.extent := by
    have all : l.extents.Pairwise Extent.Apart := by
      apply Extent.pairwise_apart
      intro bit
      rw [(tiled_ofTypes ha h).countP_covers bit]
      split <;> omega
    exact List.pairwise_map.mp (List.pairwise_append.mp all).1
  obtain ⟨s, hs, rfl⟩ := ofTypes_struct ha h
  have row : s.Row := PartialStruct.Row.start.foldlM hs
  have units : (s.finish p a).placements.Pairwise fun x y => y.Ordered x ∨ y.SameUnit x :=
    List.pairwise_reverse.mpr row.beside
  refine (units.and apart).imp ?_
  rintro x y ⟨hordered | hunit, hbits⟩
  · exact .inl hordered.symm
  · exact .inr ⟨hunit.symm, hbits⟩

end Layout

end AggregateLayout
