import Mathlib
import AggregateLayout.Proofs.Idempotence

namespace AggregateLayout

open PackingUnit

variable {μ : Type} [Measure μ]

namespace PackingUnit

variable {rules plain : PackingRules} {u v w : PackingUnit μ}
  {units before after mid rest : List (PackingUnit μ)}

def Parted (units : List (PackingUnit μ)) (u : PackingUnit μ) : Prop :=
  u.tag?.isSome = true ∧ ∃ first other last, [first, other, last].Sublist units ∧
    first.tag? = u.tag? ∧ other.tag? ≠ u.tag? ∧ last.tag? = u.tag? ∧
    ∀ v ∈ [first, other, last], v.alignment.val = u.alignment.val

theorem Parted.congr (h : Parted units u) (huv : Together rules u v) : Parted units v := by
  unfold Parted at h ⊢
  rwa [← huv.tag, ← huv.alignment]

theorem cluster_of_no_hint (hplain : plain.cacheLineHint = false) :
    u.cluster plain units = u.position := by
  unfold cluster
  rw [hplain]
  rfl

theorem nodup_positions (hrow : units.Pairwise fun u v => u.position < v.position) :
    (units.map position).Nodup := List.pairwise_map.mpr (hrow.imp ne_of_lt)

theorem sublist_of_positions (hrow : units.Pairwise fun u v => u.position < v.position)
    (hu : u ∈ units) (hv : v ∈ units) (hw : w ∈ units) (huv : u.position < v.position)
    (hvw : v.position < w.position) : [u, v, w].Sublist units := by
  have : Std.Antisymm fun u v : PackingUnit μ => u.position < v.position :=
    ⟨fun _ _ h h' => absurd h' h.asymm⟩
  have row : [u, v, w].Pairwise fun u v => u.position < v.position := by
    simp [huv, hvw, huv.trans hvw]
  apply List.sublist_of_subperm_of_pairwise _ row hrow
  apply List.subperm_of_subset (nodup_positions row).of_map
  simp [hu, hv, hw]

theorem cluster_lt_of_passed (hplain : plain.cacheLineHint = false)
    (hrow : units.Pairwise fun u v => u.position < v.position) (hu : u ∈ units) (hw : w ∈ units)
    (huw : u ≠ w) (hdrawn : precedes rules units u w = true)
    (hsorted : precedes plain units w u = true) :
    w.alignment.val = u.alignment.val ∧ w.position < u.position ∧
      u.cluster rules units < w.cluster rules units := by
  have own (v : PackingUnit μ) : v.cluster plain units = v.position := cluster_of_no_hint hplain
  have differ : u.position ≠ w.position := fun h =>
    huw (List.inj_on_of_nodup_map (nodup_positions hrow) hu hw h)
  rw [precedes_iff] at hdrawn hsorted
  rw [own, own] at hsorted
  omega

theorem exists_drawn (hrow : units.Pairwise fun u v => u.position < v.position)
    (hperm : (before ++ u :: after).Perm units)
    (hdrawn : (before ++ u :: after).Pairwise fun v w => precedes rules units v w = true)
    (hless : u.cluster rules units < u.position) :
    (∃ earlier v, before = earlier ++ [v] ∧ Together rules v u) ∧
      ∃ leader ∈ units, Together rules leader u ∧ leader.position = u.cluster rules units := by
  have distinct := nodup_positions hrow
  have apart := hperm.symm.nodup distinct.of_map
  have sub := hperm.subset
  have hu : u ∈ units := sub (by simp)
  obtain ⟨leader, hleader, hplace, rfl | together⟩ := @cluster_cases _ _ rules _ _ hu
  · exact absurd hplace hless.ne
  have same := cluster_congr hleader together
  have halign := together.alignment
  have first : leader ∈ before := by
    rw [List.pairwise_append, List.pairwise_cons] at hdrawn
    rcases List.mem_append.mp (hperm.symm.subset hleader) with hbefore | hafter
    · exact hbefore
    · rcases List.mem_cons.mp hafter with rfl | hafter
      · exact absurd hplace hless.ne
      · have later := precedes_iff.mp (hdrawn.2.1.1 leader hafter)
        omega
  refine ⟨?_, leader, hleader, together, hplace.symm⟩
  rcases List.eq_nil_or_concat' before with rfl | ⟨earlier, v, rfl⟩
  · cases first
  -- What stands between the two sorts by the same place, so that it is of their group.
  refine ⟨earlier, v, rfl, ?_⟩
  rw [List.append_assoc, List.singleton_append, List.pairwise_append, List.pairwise_cons] at hdrawn
  rcases List.mem_append.mp first with hearlier | hv
  · have lv := precedes_iff.mp (hdrawn.2.2 leader hearlier v (.head _))
    have vu := precedes_iff.mp (hdrawn.2.1.1 u (.head _))
    have hclusters : v.cluster rules units = u.cluster rules units := by omega
    rcases together_of_cluster_eq distinct (sub (by simp)) hu hclusters with rfl | h
    · simp [List.nodup_append] at apart
    · exact h
  · obtain rfl := List.mem_singleton.mp hv
    exact together

theorem drawn_past (hplain : plain.cacheLineHint = false)
    (hrow : units.Pairwise fun u v => u.position < v.position)
    (hperm : (before ++ u :: after).Perm units)
    (hdrawn : (before ++ u :: after).Pairwise fun v w => precedes rules units v w = true)
    (hmid : (mid ++ rest).Perm after)
    (hsorted : (mid ++ u :: rest).Pairwise fun v w => precedes plain units v w = true)
    (hne : mid ≠ []) :
    (∀ w ∈ mid, w.alignment.val = u.alignment.val) ∧ Parted units u ∧
      ∃ earlier v, before = earlier ++ [v] ∧ Together rules v u := by
  have apart := hperm.symm.nodup (nodup_positions hrow).of_map
  have hu : u ∈ units := hperm.subset (by simp)
  have hdrawn' := (List.pairwise_append.mp hdrawn).2.1
  have passed (w : PackingUnit μ) (hw : w ∈ mid) : w ∈ units ∧ w.alignment.val = u.alignment.val ∧
      w.position < u.position ∧ u.cluster rules units < w.cluster rules units := by
    have hafter : w ∈ after := hmid.subset (List.mem_append_left _ hw)
    have hunits : w ∈ units := hperm.subset (by simp [hafter])
    refine ⟨hunits, cluster_lt_of_passed hplain hrow hu hunits ?_ ?_ ?_⟩
    · rintro rfl
      have := (List.nodup_append.mp apart).2.1
      exact (List.nodup_cons.mp this).1 hafter
    · exact (List.pairwise_cons.mp hdrawn').1 w hafter
    · exact (List.pairwise_append.mp hsorted).2.2 w hw u (.head _)
  obtain ⟨w, hw⟩ := List.exists_mem_of_ne_nil mid hne
  obtain ⟨hunits, halign, hposition, hcluster⟩ := passed w hw
  have own := @cluster_le_position _ _ rules _ _ hrow hunits
  obtain ⟨hlast, leader, hleader, together, hplace⟩ :=
    exists_drawn hrow hperm hdrawn (by omega)
  -- The leader, the one that is passed and the unit stand in this order in the row.
  refine ⟨fun w hw => (passed w hw).2.1, ⟨together.symm.tagged, leader, w, u, ?_, together.tag, ?_,
    rfl, ?_⟩, hlast⟩
  · exact sublist_of_positions hrow hleader hunits hu (by omega) hposition
  · intro htag
    have : Together rules w u := ⟨together.hint, htag ▸ together.symm.tagged, htag, halign⟩
    have := cluster_congr hunits this
    omega
  · simp [together.alignment, halign]

theorem sort_of_apart (hplain : plain.cacheLineHint = false) (hapart : (tags units).Nodup)
    (hdistinct : (units.map position).Nodup) : sort rules units = sort plain units := by
  have perm := sort_perm rules units
  have perm' := sort_perm plain units
  have iff {u v : PackingUnit μ} (hu : u ∈ units) (hv : v ∈ units) :
      precedes rules units u v = true ↔ precedes plain units u v = true := by
    rw [precedes_iff, precedes_iff, cluster_eq_position hapart hu, cluster_eq_position hapart hv,
      cluster_of_no_hint hplain, cluster_of_no_hint hplain]
  have sorted := (pairwise_precedes_sort rules units).imp_of_mem fun {u v} hu hv h =>
    (iff (perm.subset hu) (perm.subset hv)).mp h
  apply List.Perm.eq_of_pairwise _ sorted (pairwise_precedes_sort plain units)
    (perm.trans perm'.symm)
  intro u v hu hv huv hvu
  rw [precedes_iff, cluster_of_no_hint hplain, cluster_of_no_hint hplain] at huv hvu
  apply List.inj_on_of_nodup_map hdistinct (perm.subset hu) (perm'.subset hv)
  omega

end PackingUnit

variable {t : Target μ} {rules : PackingRules} {a : Aggregate μ}
  {units : List (PackingUnit μ)} {u : PackingUnit μ} {m : Member μ}

/-- Between members of its group and alignment stands another one of that alignment. -/
def Target.Parted (t : Target μ) (a : Aggregate μ) (m : Member μ) : Prop :=
  m.tag?.isSome = true ∧ ∃ first other last, [first, other, last].Sublist a.members ∧
    first.tag? = m.tag? ∧ other.tag? ≠ m.tag? ∧ last.tag? = m.tag? ∧
    ∀ n ∈ [first, other, last], (t.typeOf n).alignment.val = (t.typeOf m).alignment.val

structure PackingUnit.Lone (t : Target μ) (u : PackingUnit μ) (m : Member μ) : Prop where
  members : u.members = [m]
  alignment : u.alignment.val = (t.typeOf m).alignment.val

theorem PackingUnit.Lone.mem (h : u.Lone t m) : m ∈ u.members :=
  h.members ▸ List.mem_singleton_self m

theorem PackingUnit.Lone.tag? (h : u.Lone t m) : u.tag? = m.tag? := by
  unfold PackingUnit.tag?
  rw [h.members]
  rfl

namespace Target

theorem units_alone (hrules : rules.preserveGroups = false) (h : t.units rules a = .ok units) :
    units = (entries t.typeOf 0 a.members).map alone := by
  obtain ⟨_, rfl⟩ := units_eq_ok_gather.mp h
  rw [gather_alone hrules, List.nil_append]

theorem units_lone (hrules : rules.preserveGroups = false) (h : t.units rules a = .ok units) :
    ∀ u ∈ units, ∃ m ∈ a.members, u.Lone t m := by
  rw [units_alone hrules h]
  intro u hu
  obtain ⟨x, hx, rfl⟩ := List.mem_map.mp hu
  obtain ⟨m, hm, hx⟩ := List.mem_map.mp (List.fst_mem_of_mem_zipIdx hx)
  refine ⟨m, hm, ?_, ?_⟩ <;> simp [alone, ← hx]

theorem units_members (hrules : rules.preserveGroups = false) (h : t.units rules a = .ok units) :
    units.flatMap (·.members) = a.members := by
  rw [units_alone hrules h, List.flatMap_map]
  change (entries t.typeOf 0 a.members).flatMap (fun x => [x.1.1]) = _
  rw [← List.map_eq_flatMap, ← Function.comp_def Prod.fst Prod.fst, ← List.map_map, entries,
    List.zipIdx_map_fst, List.map_map]
  exact List.map_id _

theorem units_row (hrules : rules.preserveGroups = false) (h : t.units rules a = .ok units) :
    units.Pairwise fun u v => u.position < v.position := by
  rw [units_alone hrules h, ← List.pairwise_map, List.map_map]
  change ((entries t.typeOf 0 a.members).map Prod.snd).Pairwise _
  rw [entries, List.zipIdx_map_snd]
  exact List.pairwise_lt_range'

theorem Parted.of_unit (hrules : rules.preserveGroups = false) (h : t.units rules a = .ok units)
    (hu : u.Lone t m) (hparted : PackingUnit.Parted units u) : t.Parted a m := by
  obtain ⟨htag, first, other, last, hsub, hfirst, hother, hlast, halign⟩ := hparted
  have lone := units_lone hrules h
  obtain ⟨f, _, hf⟩ := lone first (hsub.subset (by simp))
  obtain ⟨o, _, ho⟩ := lone other (hsub.subset (by simp))
  obtain ⟨l, _, hl⟩ := lone last (hsub.subset (by simp))
  have hsub := hsub.flatMap (·.members)
  rw [units_members hrules h] at hsub
  simp only [List.flatMap_cons, List.flatMap_nil, hf.members, ho.members, hl.members] at hsub
  rw [hu.tag?] at htag hfirst hother hlast
  refine ⟨htag, f, o, l, hsub, hf.tag? ▸ hfirst, ho.tag? ▸ hother, hl.tag? ▸ hlast, ?_⟩
  simpa [hu.alignment, hf.alignment, ho.alignment, hl.alignment] using halign

end Target

end AggregateLayout
