import Mathlib
import AggregateLayout.Proofs.Repacking
import AggregateLayout.Proofs.Stacking

/-!
Packing comes to the smallest size of all orders when every type is filled, no member is a bitfield
and groups need not be kept together: the bytes of the members, up to the next multiple of the
strictest alignment.
-/

namespace AggregateLayout

variable {typed typed' : List (Member Int × TypeDescriptor Int)}

theorem sizes_perm (h : (typed.map bareTyped).Perm (typed'.map bareTyped)) :
    ((typed.map Prod.snd).map (·.size.val)).sum = ((typed'.map Prod.snd).map (·.size.val)).sum := by
  have perm := h.map (·.2.size.val)
  simp only [List.map_map, Function.comp_def, bareTyped, TypeDescriptor.size_plain] at perm
  rw [List.map_map, List.map_map]
  exact perm.sum_eq

theorem roundUp_congr {n : Int} {a b : PowerOfTwo} (h : a.val = b.val) :
    roundUp n a = roundUp n b := by
  unfold roundUp
  rw [h]

def tightSize (typed : List (Member Int × TypeDescriptor Int)) : Int :=
  roundUp ((typed.map Prod.snd).map (·.size.val)).sum
    ((typed.map (·.2.alignment)).foldl PowerOfTwo.max .one)

theorem tightSize_perm (h : (typed.map bareTyped).Perm (typed'.map bareTyped)) :
    tightSize typed = tightSize typed' := by
  unfold tightSize
  rw [sizes_perm h]
  exact roundUp_congr (alignments_perm h)

namespace Layout

variable {p : MachineProfile Int} {a : Aggregate Int} {l : Layout Int}

theorem tightSize_le (ha : a.kind = .struct) (hpacked : a.packed = false)
    (hbits : ∀ x ∈ typed, x.1.bits = none) (h : ofTypes p a typed = .ok l) :
    tightSize typed ≤ l.totalSize := by
  rw [totalSize_ofTypes ha hpacked hbits h]
  apply roundUp_mono
  have bound := le_foldl_after 0 (typed.map Prod.snd)
  rwa [zero_add] at bound

theorem totalSize_eq_tightSize (ha : a.kind = .struct) (hpacked : a.packed = false)
    (hbits : ∀ x ∈ typed, x.1.bits = none) (hfilled : ∀ x ∈ typed, x.2.Filled)
    (hsorted : typed.Pairwise fun x y => y.2.alignment.val ≤ x.2.alignment.val)
    (h : ofTypes p a typed = .ok l) : l.totalSize = tightSize typed := by
  have stacked : (typed.map Prod.snd).foldl TypeDescriptor.after 0 =
      0 + ((typed.map Prod.snd).map (·.size.val)).sum := by
    apply foldl_after_eq
    · exact List.forall_mem_map.mpr hfilled
    · exact List.pairwise_map.mpr hsorted
    · exact fun d _ => dvd_zero _
  rw [totalSize_ofTypes ha hpacked hbits h, stacked, zero_add]
  rfl

end Layout

namespace Target

variable {t : Target Int} {rules : PackingRules} {a : Aggregate Int}

theorem pairwise_sorted {g : Member Int → TypeDescriptor Int}
    (hg : ∀ m d, t.Types m d → d.plain = g m) (hm : ∀ x ∈ typed, t.memberType x.1 = .ok x.2) :
    ((PackingUnit.sort rules (typed.zipIdx.map PackingUnit.alone)).flatMap (·.members)).Pairwise
      fun m n => (g n).alignment.val ≤ (g m).alignment.val := by
  have single (u : PackingUnit Int)
      (hu : u ∈ PackingUnit.sort rules (typed.zipIdx.map PackingUnit.alone)) :
      ∃ m, u.members = [m] ∧ (g m).alignment.val = u.alignment.val := by
    rw [(PackingUnit.sort_perm rules _).mem_iff] at hu
    obtain ⟨x, hx, rfl⟩ := List.mem_map.mp hu
    have hd := hm x.1 (List.fst_mem_of_mem_zipIdx hx)
    refine ⟨x.1.1, rfl, ?_⟩
    rw [← hg _ _ (types_of_memberType hd), TypeDescriptor.alignment_plain]
    rfl
  rw [List.pairwise_flatMap]
  constructor
  · intro u hu
    obtain ⟨m, hmem, _⟩ := single u hu
    rw [hmem]
    exact List.pairwise_singleton _ _
  · refine (PackingUnit.pairwise_sort rules _).imp_of_mem fun {u v} hu hv huv m hmu n hnv => ?_
    obtain ⟨m', hmem, hmu'⟩ := single u hu
    obtain ⟨n', hnmem, hnv'⟩ := single v hv
    rw [hmem, List.mem_singleton] at hmu
    rw [hnmem, List.mem_singleton] at hnv
    rw [hmu, hnv, hmu', hnv']
    exact huv

theorem pairwise_alignments (htyped : ∀ x ∈ typed, t.memberType x.1 = .ok x.2)
    (hm : typed'.map Prod.fst =
      (PackingUnit.sort rules (typed.zipIdx.map PackingUnit.alone)).flatMap (·.members))
    (htyped' : ∀ x ∈ typed', t.Types x.1 x.2) :
    typed'.Pairwise fun x y => y.2.alignment.val ≤ x.2.alignment.val := by
  obtain ⟨g, hg⟩ := t.exists_type
  have pairs := @pairwise_sorted typed t rules g hg htyped
  rw [← hm, List.pairwise_map] at pairs
  refine pairs.imp_of_mem fun {x y} hx hy hxy => ?_
  rw [← hg x.1 x.2 (htyped' x hx), ← hg y.1 y.2 (htyped' y hy), TypeDescriptor.alignment_plain,
    TypeDescriptor.alignment_plain] at hxy
  exact hxy

theorem Types.filled_of_memberType {m : Member Int} {d d' : TypeDescriptor Int}
    (hd : t.memberType m = .ok d) (hfilled : d.Filled) (h : t.Types m d') : d'.Filled := by
  have same := (types_of_memberType hd).unique h
  rwa [← TypeDescriptor.filled_plain, ← same, TypeDescriptor.filled_plain]

theorem types_of_memberTypes (h : ∀ x ∈ typed, t.memberType x.1 = .ok x.2) :
    ∀ x ∈ typed, t.Types x.1 x.2 := fun x hx => types_of_memberType (h x hx)

theorem tightSize_le_totalSize {members : List (Member Int)} {l : Layout Int}
    (ha : a.kind = .struct) (hpacked : a.packed = false) (hbits : ∀ m ∈ a.members, m.bits = none)
    (hm : typed.map Prod.fst = a.members) (htyped : ∀ x ∈ typed, t.Types x.1 x.2)
    (hp : members.Perm a.members) (h : t.Lays { a with members } l) :
    tightSize typed ≤ l.totalSize := by
  obtain ⟨_, typed', hm', htyped', hl⟩ := h
  have perm : (typed'.map Prod.fst).Perm (typed.map Prod.fst) := by
    rw [hm, hm']
    exact hp
  rw [← tightSize_perm (bareTyped_perm perm htyped' htyped)]
  refine Layout.tightSize_le ?_ hpacked (fun x hx => ?_) hl
  · exact ha
  · apply hbits
    rw [← hm, ← perm.mem_iff]
    exact List.mem_map_of_mem hx

theorem pack_totalSize {s : Arrangement Int} (ha : a.kind = .struct) (hpacked : a.packed = false)
    (hbits : ∀ m ∈ a.members, m.bits = none) (hrules : rules.preserveGroups = false)
    (hfilled : ∀ m ∈ a.members, ∀ d, t.memberType m = .ok d → d.Filled)
    (h : t.pack rules a = .ok s) :
    ∃ typed : List (Member Int × TypeDescriptor Int), typed.map Prod.fst = a.members ∧
      (∀ x ∈ typed, t.memberType x.1 = .ok x.2) ∧ s.layout.totalSize = tightSize typed := by
  have hof := pack_of h
  obtain ⟨typed, hm, htyped, hsorted⟩ := (pack_eq_ok_alone hrules).mp h
  obtain ⟨hsorted, hagg, hlaid⟩ := arrange_eq_ok.mp hsorted
  obtain ⟨_, typed', hm', htyped', hl⟩ := hagg ▸ lays_of_layout hlaid
  refine ⟨typed, hm, htyped, ?_⟩
  have perm : (typed'.map Prod.fst).Perm (typed.map Prod.fst) := by
    rw [hm', hm]
    exact hsorted ▸ hof.complete
  rw [← tightSize_perm (bareTyped_perm perm htyped' (types_of_memberTypes htyped))]
  have given (x : Member Int × TypeDescriptor Int) (hx : x ∈ typed') : x.1 ∈ typed.map Prod.fst :=
    perm.mem_iff.mp (List.mem_map_of_mem hx)
  refine Layout.totalSize_eq_tightSize ?_ ?_ (fun x hx => ?_) (fun x hx => ?_) ?_ hl
  · exact ha
  · exact hpacked
  · exact hbits x.1 (hm ▸ given x hx)
  · obtain ⟨y, hy, hyx⟩ := List.mem_map.mp (given x hx)
    have filled := hfilled y.1 (hm ▸ hyx ▸ given x hx) y.2 (htyped y hy)
    exact Types.filled_of_memberType (htyped y hy) filled (hyx ▸ htyped' x hx)
  · exact pairwise_alignments htyped hm' htyped'

end Target

theorem repack_minimal (t : Target Int) (rules : PackingRules) (a : Aggregate Int) (r : Repack Int)
    (ha : a.kind = .struct) (hpacked : a.packed = false) (hbits : ∀ m ∈ a.members, m.bits = none)
    (hfilled : ∀ m ∈ a.members, ∀ d, t.memberType m = .ok d → d.Filled)
    (hrules : rules.preserveGroups = false) (h : t.repack rules a = .ok r) :
    (∀ members l, members.Perm a.members → t.layout { a with members } = .ok l →
      r.layout.totalSize ≤ l.totalSize) ∧
    (∃ ds : List (TypeDescriptor Int), List.Forall₂ (t.memberType · = .ok ·) a.members ds ∧
      r.layout.totalSize = roundUp (ds.map (·.size.val)).sum
        ((ds.map (·.alignment)).foldl PowerOfTwo.max .one)) ∧
    r.keptOrder = false := by
  obtain ⟨l, hl, ⟨hfixed, _⟩ | ⟨_, s, hs, hr⟩⟩ := Target.repack_eq_ok.mp h
  · rw [Aggregate.hasFixedSize_eq_false.mpr ⟨ha, hpacked⟩] at hfixed
    cases hfixed
  obtain ⟨typed, hm, htyped, hsize⟩ := Target.pack_totalSize ha hpacked hbits hrules hfilled hs
  have least (members : List (Member Int)) (l : Layout Int) (hp : members.Perm a.members)
      (hl : t.layout { a with members } = .ok l) : s.layout.totalSize ≤ l.totalSize := by
    rw [hsize]
    exact Target.tightSize_le_totalSize ha hpacked hbits hm (Target.types_of_memberTypes htyped) hp
      (Target.lays_of_layout hl)
  have given : s.layout.totalSize ≤ l.totalSize :=
    least a.members l (.refl _) (by cases a; exact hl)
  rw [if_neg (not_lt.mpr given)] at hr
  subst hr
  refine ⟨least, ⟨typed.map Prod.snd, ?_, ?_⟩, rfl⟩
  · rw [← hm, List.forall₂_map_left_iff, List.forall₂_map_right_iff, List.forall₂_same]
    exact htyped
  · change s.layout.totalSize = _
    rw [hsize, tightSize, List.map_map, List.map_map]
    rfl

theorem node_filled :
    ∀ m ∈ node.members, ∀ d, (Target.ofProfile .lp64).memberType m = .ok d → d.Filled := by
  intro m hm d hd
  refine (Target.types_of_memberType hd).filled fun f hf => ?_
  simp only [node, List.mem_cons, List.not_mem_nil, or_false] at hm
  rcases hm with rfl | rfl | rfl | rfl
  · obtain rfl := Option.some.inj hf
    exact one_dvd _
  · obtain rfl := Option.some.inj hf
    exact TypeDescriptor.filled_pointer "node" .eight
  · obtain rfl := Option.some.inj hf
    exact one_dvd _
  · cases hf

theorem repack_minimal_node :
    ∃ r, (Target.ofProfile .lp64).repack {} node = .ok r ∧
      ∀ members l, members.Perm node.members →
        (Target.ofProfile .lp64).layout { node with members } = .ok l → 24 ≤ l.totalSize := by
  obtain ⟨r, h, _, new⟩ := repack_node
  have least :=
    (repack_minimal (Target.ofProfile .lp64) {} node r rfl rfl (by decide) node_filled rfl h).1
  exact ⟨r, h, fun members l hp hl => new ▸ least members l hp hl⟩

end AggregateLayout
