import Mathlib
import AggregateLayout.Proofs.Lays
import AggregateLayout.Proofs.Tiling

namespace AggregateLayout

def Member.dataBits (m : Member Int) (d : TypeDescriptor Int) : Int :=
  match m.bits with
  | some width => width
  | none => d.size.val * 8

variable {p : MachineProfile Int} {a a' : Aggregate Int} {l l' : Layout Int}
  {typed typed' : List (Member Int × TypeDescriptor Int)}

theorem Placer.place_placement {packed : Bool} {m : Member Int} {d : TypeDescriptor Int}
    {s s' : Placer Int} {placement : Placement Int}
    (h : s.place p packed m d = .ok (placement, s')) :
    placement.alignment = d.alignment ∧ placement.sizeBits = m.dataBits d := by
  unfold Member.dataBits
  rcases place_eq_ok.mp h with ⟨hm, h⟩ | ⟨width, hm, _, h⟩
  · obtain rfl := congrArg Prod.fst h
    rw [hm]
    exact ⟨rfl, rfl⟩
  · generalize ((s.closeUnless p (·.type.sameAs d)).restart p width).closeUnless p
      (·.fits width) = s₁ at h
    obtain rfl := congrArg Prod.fst h
    rw [hm]
    unfold takeBits
    cases s₁.unit <;> exact ⟨rfl, rfl⟩

theorem PartialStruct.foldlM_totals {packed : Bool} {q q' : PartialStruct Int}
    (hq : typed.foldlM (fun (q : PartialStruct Int) x => q.add p packed x.1 x.2) q = .ok q') :
    (q'.placements.map Placement.sizeBits).sum =
        (q.placements.map Placement.sizeBits).sum + (typed.map fun x => x.1.dataBits x.2).sum ∧
      q'.alignment = (typed.map (·.2.alignment)).foldl PowerOfTwo.max q.alignment := by
  induction typed generalizing q with
  | nil =>
    obtain rfl := Except.ok.inj hq
    exact ⟨(add_zero _).symm, rfl⟩
  | cons x rest ih =>
    rw [List.foldlM_cons, except_bind_eq_ok] at hq
    obtain ⟨q₁, hx, hq⟩ := hq
    obtain ⟨placement, placer, hplace, rfl⟩ := add_eq_ok.mp hx
    obtain ⟨halign, hbits⟩ := Placer.place_placement hplace
    obtain ⟨hsum, hmax⟩ := ih hq
    refine ⟨?_, hmax⟩
    rw [hsum, List.map_cons, List.map_cons, List.sum_cons, List.sum_cons, hbits]
    omega

namespace Layout

theorem memberBits_ofTypes (ha : a.kind = .struct) (h : ofTypes p a typed = .ok l) :
    l.memberBits = (typed.map fun x => x.1.dataBits x.2).sum := by
  obtain ⟨q, hq, rfl⟩ := ofTypes_struct ha h
  have hsum := (PartialStruct.foldlM_totals hq).1
  have hrev := (q.placements.reverse_perm.map Placement.sizeBits).sum_eq
  rw [memberBits_struct ha]
  change (q.placements.reverse.map Placement.sizeBits).sum = _
  rw [hrev, hsum]
  exact zero_add _

theorem totalAlignment_ofTypes (ha : a.kind = .struct) (h : ofTypes p a typed = .ok l) :
    l.totalAlignment =
      if a.packed then .one else (typed.map (·.2.alignment)).foldl PowerOfTwo.max .one := by
  obtain ⟨q, hq, rfl⟩ := ofTypes_struct ha h
  rw [← (PartialStruct.foldlM_totals hq).2]
  rfl

end Layout

theorem PowerOfTwo.val_foldl_max (as : List PowerOfTwo) (b : PowerOfTwo) :
    (as.foldl max b).val = (as.map PowerOfTwo.val).foldl Max.max b.val := by
  induction as generalizing b with
  | nil => rfl
  | cons a rest ih => rw [List.foldl_cons, ih, val_max, List.map_cons, List.foldl_cons]

theorem alignments_perm (h : (typed.map bareTyped).Perm (typed'.map bareTyped)) :
    ((typed.map (·.2.alignment)).foldl PowerOfTwo.max .one).val =
      ((typed'.map (·.2.alignment)).foldl PowerOfTwo.max .one).val := by
  have perm := h.map (·.2.alignment.val)
  simp only [List.map_map, Function.comp_def, bareTyped, TypeDescriptor.alignment_plain] at perm
  rw [PowerOfTwo.val_foldl_max, PowerOfTwo.val_foldl_max, List.map_map, List.map_map]
  exact perm.foldl_eq _

namespace Target

variable {t : Target Int}

theorem exists_type (t : Target Int) :
    ∃ g : Member Int → TypeDescriptor Int, ∀ m d, t.Types m d → d.plain = g m := by
  classical
  refine ⟨fun m => if h : ∃ d, t.Types m d then h.choose.plain else .pointer "" .one, ?_⟩
  intro m d hd
  have some : ∃ d, t.Types m d := ⟨d, hd⟩
  dsimp only
  rw [dif_pos some]
  exact hd.unique some.choose_spec

theorem bareTyped_perm (h : (typed.map Prod.fst).Perm (typed'.map Prod.fst))
    (htyped : ∀ x ∈ typed, t.Types x.1 x.2) (htyped' : ∀ x ∈ typed', t.Types x.1 x.2) :
    (typed.map bareTyped).Perm (typed'.map bareTyped) := by
  obtain ⟨g, hg⟩ := t.exists_type
  have through (xs : List (Member Int × TypeDescriptor Int)) (hxs : ∀ x ∈ xs, t.Types x.1 x.2) :
      xs.map bareTyped = (xs.map Prod.fst).map fun m => (m.bare, g m) := by
    rw [List.map_map]
    apply List.map_congr_left
    intro x hx
    rw [bareTyped, hg x.1 x.2 (hxs x hx)]
    rfl
  rw [through typed htyped, through typed' htyped']
  exact h.map _

theorem dataBits_bareTyped (x : Member Int × TypeDescriptor Int) :
    (bareTyped x).1.dataBits (bareTyped x).2 = x.1.dataBits x.2 := by
  unfold Member.dataBits bareTyped
  rw [TypeDescriptor.size_plain]
  rfl

theorem Lays.memberBits_perm (h : t.Lays a l) (h' : t.Lays a' l') (ha : a.kind = .struct)
    (ha' : a'.kind = .struct) (hp : a.members.Perm a'.members) : l.memberBits = l'.memberBits := by
  obtain ⟨_, typed, hm, htyped, hl⟩ := h
  obtain ⟨_, typed', hm', htyped', hl'⟩ := h'
  have perm := bareTyped_perm (hm ▸ hm' ▸ hp) htyped htyped'
  have sums := (perm.map fun x => x.1.dataBits x.2).sum_eq
  simp only [List.map_map, Function.comp_def, dataBits_bareTyped] at sums
  rw [Layout.memberBits_ofTypes ha hl, Layout.memberBits_ofTypes ha' hl', sums]

theorem Lays.totalAlignment_perm (h : t.Lays a l) (h' : t.Lays a' l') (ha : a.kind = .struct)
    (ha' : a'.kind = .struct) (hpacked : a.packed = a'.packed)
    (hp : a.members.Perm a'.members) : l.totalAlignment.val = l'.totalAlignment.val := by
  obtain ⟨_, typed, hm, htyped, hl⟩ := h
  obtain ⟨_, typed', hm', htyped', hl'⟩ := h'
  have perm := bareTyped_perm (hm ▸ hm' ▸ hp) htyped htyped'
  rw [Layout.totalAlignment_ofTypes ha hl, Layout.totalAlignment_ofTypes ha' hl', hpacked]
  split
  · rfl
  · exact alignments_perm perm

theorem Lays.memberBits_add_paddingBits (h : t.Lays a l) :
    l.memberBits + l.paddingBits = 8 * l.totalSize := by
  obtain ⟨_, typed, _, _, hl⟩ := h
  exact Layout.memberBits_add_paddingBits hl

end Target

end AggregateLayout
