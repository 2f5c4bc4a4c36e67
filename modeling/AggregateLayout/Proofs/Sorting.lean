import Mathlib
import AggregateLayout.Proofs.Gathering

namespace AggregateLayout

variable {μ : Type} [Measure μ]

namespace PackingUnit

structure Together (rules : PackingRules) (u v : PackingUnit μ) : Prop where
  hint : rules.cacheLineHint = true
  tagged : u.tag?.isSome = true
  tag : u.tag? = v.tag?
  alignment : u.alignment.val = v.alignment.val

variable {rules : PackingRules} {g : Member μ → TypeDescriptor μ} {u v w : PackingUnit μ}
  {units others : List (PackingUnit μ)} {n : Nat}

namespace Together

theorem symm (h : Together rules u v) : Together rules v u :=
  ⟨h.hint, h.tag ▸ h.tagged, h.tag.symm, h.alignment.symm⟩

theorem trans (h : Together rules u v) (h' : Together rules v w) : Together rules u w :=
  ⟨h.hint, h.tagged, h.tag.trans h'.tag, h.alignment.trans h'.alignment⟩

end Together

theorem cluster_cases (hu : u ∈ units) :
    ∃ w ∈ units, u.cluster rules units = w.position ∧ (w = u ∨ Together rules w u) := by
  unfold cluster
  split
  · next h =>
    obtain ⟨hint, tagged⟩ := (Bool.and_eq_true _ _).mp h
    cases hf : units.find? fun v => v.tag? == u.tag? && v.alignment.val == u.alignment.val with
    | none => exact ⟨u, hu, rfl, .inl rfl⟩
    | some w =>
      have halike := List.find?_some hf
      simp only [Bool.and_eq_true, beq_iff_eq] at halike
      exact ⟨w, List.mem_of_find?_eq_some hf, rfl,
        .inr ⟨hint, halike.1 ▸ tagged, halike.1, halike.2⟩⟩
  · exact ⟨u, hu, rfl, .inl rfl⟩

theorem cluster_congr (hu : u ∈ units) (h : Together rules u v) :
    u.cluster rules units = v.cluster rules units := by
  have hfound : (units.find? fun w =>
      w.tag? == u.tag? && w.alignment.val == u.alignment.val).isSome := by
    rw [List.find?_isSome]
    exact ⟨u, hu, by simp⟩
  unfold cluster
  rw [h.hint, h.tagged, h.symm.tagged, h.tag, h.alignment]
  rw [h.tag, h.alignment] at hfound
  obtain ⟨w, hw⟩ := Option.isSome_iff_exists.mp hfound
  rw [hw]
  rfl

theorem together_of_cluster_eq (hdistinct : (units.map position).Nodup) (hu : u ∈ units)
    (hv : v ∈ units) (h : u.cluster rules units = v.cluster rules units) :
    u = v ∨ Together rules u v := by
  obtain ⟨w, hw, hwu, hu⟩ := @cluster_cases _ _ rules _ _ hu
  obtain ⟨w', hw', hwv, hv⟩ := @cluster_cases _ _ rules _ _ hv
  obtain rfl : w = w' := List.inj_on_of_nodup_map hdistinct hw hw' (hwu.symm.trans (h.trans hwv))
  rcases hu with rfl | hu
  · exact hv
  · rcases hv with rfl | hv
    · exact .inr hu.symm
    · exact .inr (hu.symm.trans hv)

theorem cluster_le_position (hrow : units.Pairwise fun u v => u.position < v.position)
    (hu : u ∈ units) : u.cluster rules units ≤ u.position := by
  unfold cluster
  split
  · cases hf : units.find? fun v => v.tag? == u.tag? && v.alignment.val == u.alignment.val with
    | none => exact le_rfl
    | some w =>
      -- The unit itself meets the test, so that the first one to meet it is not behind.
      obtain ⟨_, before, after, rfl, hbefore⟩ := List.find?_eq_some_iff_append.mp hf
      rw [List.pairwise_append, List.pairwise_cons] at hrow
      rcases List.mem_append.mp hu with hu | hu
      · have := hbefore u hu
        simp at this
      · rcases List.mem_cons.mp hu with rfl | hu
        · exact le_rfl
        · exact (hrow.2.1.1 u hu).le
  · exact le_rfl

theorem le_of_mem_places {x : PackingUnit μ × Nat} (h : x ∈ places n units) : n ≤ x.2 := by
  induction units generalizing n with
  | nil => cases h
  | cons u rest ih =>
    rcases List.mem_cons.mp h with rfl | h
    · exact le_rfl
    · exact (Nat.le_add_right n _).trans (ih h)

theorem pairwise_places (h : ∀ u ∈ units, u.members ≠ []) :
    (places n units).Pairwise fun x y => x.2 < y.2 := by
  induction units generalizing n with
  | nil => exact .nil
  | cons u rest ih =>
    rw [List.forall_mem_cons] at h
    refine .cons (fun x hx => ?_) (ih h.2)
    have hlength := List.length_pos_iff.mpr h.1
    have hplace := le_of_mem_places hx
    dsimp only
    omega

theorem map_fst_places : (places n units).map Prod.fst = units := by
  induction units generalizing n with
  | nil => rfl
  | cons u rest ih => exact congrArg (u :: ·) ih

theorem pairwise_renumber (h : ∀ u ∈ units, u.members ≠ []) :
    (renumber n units).Pairwise fun u v => u.position < v.position :=
  List.pairwise_map.mpr (pairwise_places h)

theorem Together.moveTo (h : Together rules u v) (i j : Nat) :
    Together rules (u.moveTo i) (v.moveTo j) := ⟨h.hint, h.tagged, h.tag, h.alignment⟩

theorem rel_or_rel {α : Type} {R : α → α → Prop} {xs : List α} (h : xs.Pairwise R) {x y : α}
    (hx : x ∈ xs) (hy : y ∈ xs) : x = y ∨ R x y ∨ R y x := by
  have : Std.Symm fun x y => R x y ∨ R y x := ⟨fun _ _ => Or.symm⟩
  by_cases heq : x = y
  · exact .inl heq
  · have hor : xs.Pairwise fun x y => R x y ∨ R y x := h.imp Or.inl
    exact .inr (hor.forall hx hy heq)

theorem mem_of_mem_places {x : PackingUnit μ × Nat} (hx : x ∈ places n units) :
    x.1 ∈ units ∧ x.1.moveTo x.2 ∈ renumber n units := by
  refine ⟨?_, List.mem_map_of_mem hx⟩
  rw [← @map_fst_places _ _ units n]
  exact List.mem_map_of_mem hx

theorem pairwise_sorted_places (hmembers : ∀ u ∈ others, u.members ≠ [])
    (hdistinct : (units.map position).Nodup) (hp : others.Perm units)
    (hsorted : others.Pairwise fun u v => precedes rules units u v = true) :
    (places n others).Pairwise fun x y =>
      (precedes rules units x.1 y.1 = true ∧ x.1.position ≠ y.1.position) ∧ x.2 < y.2 := by
  have hdiffer : others.Pairwise fun u v => u.position ≠ v.position := by
    rw [← (hp.map position).nodup_iff] at hdistinct
    exact List.pairwise_map.mp hdistinct
  have hboth := hsorted.and hdiffer
  rw [← @map_fst_places _ _ others n, List.pairwise_map] at hboth
  exact hboth.and (pairwise_places hmembers)

theorem exists_leader (hmembers : ∀ u ∈ others, u.members ≠ []) (hp : others.Perm units)
    {y : PackingUnit μ × Nat} (hy : y ∈ places n others) :
    ∃ z ∈ places n others, (y.1.moveTo y.2).cluster rules (renumber n others) = z.2 ∧
      z.1.alignment.val = y.1.alignment.val ∧
      z.1.cluster rules units = y.1.cluster rules units := by
  obtain ⟨_, hw, hleader, hw'⟩ := @cluster_cases _ _ rules _ _ (mem_of_mem_places hy).2
  obtain ⟨z, hz, rfl⟩ := List.mem_map.mp hw
  refine ⟨z, hz, hleader, ?_⟩
  rcases hw' with heq | htogether
  · have hplace : z.2 = y.2 := congrArg position heq
    rcases rel_or_rel (pairwise_places hmembers) hz hy with rfl | hzy | hyz
    · exact ⟨rfl, rfl⟩
    · omega
    · omega
  · have hmem := hp.subset (mem_of_mem_places hz).1
    exact ⟨htogether.alignment, cluster_congr hmem (htogether.moveTo _ _)⟩

theorem pairwise_precedes_renumber (hmembers : ∀ u ∈ others, u.members ≠ [])
    (hdistinct : (units.map position).Nodup) (hp : others.Perm units)
    (hsorted : others.Pairwise fun u v => precedes rules units u v = true) :
    (renumber n others).Pairwise fun u v => precedes rules (renumber n others) u v = true := by
  have hrow := @pairwise_renumber _ _ others n hmembers
  have hpairs := @pairwise_sorted_places _ _ _ _ _ n hmembers hdistinct hp hsorted
  refine List.pairwise_map.mpr (hpairs.imp_of_mem fun {x y} hx hy hxy => ?_)
  obtain ⟨⟨hprecedes, hdiffer⟩, hlt⟩ := hxy
  obtain ⟨hxmem, hxrow⟩ := mem_of_mem_places hx
  rw [precedes_iff] at hprecedes ⊢
  rcases hprecedes with hstrict | ⟨halign, hcluster⟩
  · exact .inl hstrict
  refine .inr ⟨halign, ?_⟩
  rcases hcluster with hless | ⟨hsame, _⟩
  · -- What draws `y` stands behind `x`, and nothing that draws `x` does.
    left
    have own := @cluster_le_position _ _ rules _ _ hrow hxrow
    obtain ⟨z, hz, hleader, hzy⟩ := @exists_leader _ _ rules _ _ n hmembers hp y hy
    have hxz : x.2 < z.2 := by
      rcases rel_or_rel hpairs hx hz with rfl | hxz | ⟨⟨hzx, _⟩, _⟩
      · omega
      · exact hxz.2
      · rw [precedes_iff] at hzx
        omega
    rw [hleader]
    exact lt_of_le_of_lt own hxz
  · right
    refine ⟨?_, hlt.le⟩
    have hymem := hp.subset (mem_of_mem_places hy).1
    rcases together_of_cluster_eq hdistinct (hp.subset hxmem) hymem hsame with heq | htogether
    · exact absurd (congrArg position heq) hdiffer
    · exact cluster_congr hxrow (htogether.moveTo x.2 y.2)

theorem sort_eq_self (h : units.Pairwise fun u v => precedes rules units u v = true) :
    sort rules units = units := List.mergeSort_of_pairwise h

theorem sort_renumber_sort (hmembers : ∀ u ∈ units, u.members ≠ [])
    (hdistinct : (units.map position).Nodup) :
    sort rules (renumber n (sort rules units)) = renumber n (sort rules units) := by
  apply sort_eq_self
  have hp := sort_perm rules units
  exact pairwise_precedes_renumber (fun u hu => hmembers u (hp.subset hu)) hdistinct hp
    (pairwise_precedes_sort rules units)

theorem cluster_eq_position (hapart : (tags units).Nodup) (hu : u ∈ units) :
    u.cluster rules units = u.position := by
  obtain ⟨w, hw, hwu, rfl | htogether⟩ := @cluster_cases _ _ rules _ _ hu
  · exact hwu
  · obtain ⟨tag, htag⟩ := Option.isSome_iff_exists.mp htogether.tagged
    have hdiffer := List.pairwise_filterMap.mp hapart
    rcases rel_or_rel hdiffer hw hu with rfl | h | h
    · exact hwu
    · exact absurd rfl (h tag htag tag (htogether.tag ▸ htag))
    · exact absurd rfl (h tag (htogether.tag ▸ htag) tag htag)

theorem tags_renumber : tags (renumber n units) = tags units := by
  have hsame : tag? ∘ (fun x : PackingUnit μ × Nat => x.1.moveTo x.2) = tag? ∘ Prod.fst := rfl
  rw [tags, renumber, List.filterMap_map, hsame, ← List.filterMap_map, map_fst_places]
  rfl

theorem sort_renumber_of_apart (hmembers : ∀ u ∈ units, u.members ≠ [])
    (hapart : (tags units).Nodup)
    (hstrict : units.Pairwise fun u v => v.alignment.val ≤ u.alignment.val) :
    sort rules (renumber n units) = renumber n units := by
  apply sort_eq_self
  have hpairs : (renumber n units).Pairwise fun u v => v.alignment.val ≤ u.alignment.val := by
    rw [← @map_fst_places _ _ units n, List.pairwise_map] at hstrict
    exact List.pairwise_map.mpr hstrict
  rw [← @tags_renumber _ _ units n] at hapart
  refine (hpairs.and (pairwise_renumber hmembers)).imp_of_mem fun {u v} hu hv huv => ?_
  rw [precedes_iff, cluster_eq_position hapart hu, cluster_eq_position hapart hv]
  omega

end PackingUnit

end AggregateLayout
