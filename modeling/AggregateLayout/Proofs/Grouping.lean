import Mathlib
import AggregateLayout.Proofs.Drawing

namespace AggregateLayout

open PackingUnit

section Blocks

variable {μ : Type} [Measure μ]

def Aggregate.group (a : Aggregate μ) (tag : String) : List (Member μ) :=
  a.members.filter (·.tag? == some tag)

/-- What moves together: a member without a group, or the members of a group. -/
inductive Aggregate.Block (a : Aggregate μ) : List (Member μ) → Prop
  | single {m : Member μ} (hm : m ∈ a.members) (htag : m.tag? = none) : Block a [m]
  | group {m : Member μ} {tag : String} (hm : m ∈ a.members) (htag : m.tag? = some tag) :
    Block a (a.group tag)

/-- The greatest alignment that one of the members has. -/
structure Target.Strictest (t : Target μ) (ms : List (Member μ)) (alignment : Nat) : Prop where
  attained : ∃ m ∈ ms, ∃ d, t.memberType m = .ok d ∧ d.alignment.val = alignment
  bound : ∀ m ∈ ms, ∃ d, t.memberType m = .ok d ∧ d.alignment.val ≤ alignment

namespace PackingUnit

variable {rules : PackingRules} {g : Member μ → TypeDescriptor μ} {u : PackingUnit μ}
  {units before after : List (PackingUnit μ)} {ms rest : List (Member μ)} {m : Member μ}
  {tag : String} {n : Nat}

namespace Made

theorem single_of_tag? (h : Made rules g u) (htag : u.tag? = none) :
    ∃ m, u.members = [m] ∧ m.tag? = none := by
  cases h with
  | single m position => exact ⟨m, rfl, htag⟩
  | joined h _ hu _ => cases htag.symm.trans (h.tag?_extend.trans hu)

theorem strictest (h : Made rules g u) :
    (∃ m ∈ u.members, (g m).alignment.val = u.alignment.val) ∧
      ∀ m ∈ u.members, (g m).alignment.val ≤ u.alignment.val := by
  induction h with
  | single m position =>
    refine ⟨⟨m, .head _, rfl⟩, fun n hn => ?_⟩
    obtain rfl := List.mem_singleton.mp hn
    exact le_rfl
  | @joined u m tag _ _ _ _ ih =>
    obtain ⟨⟨n, hn, heq⟩, hbound⟩ := ih
    have hmax : (u.extend m (g m).alignment).alignment.val =
        max u.alignment.val (g m).alignment.val := PowerOfTwo.val_max _ _
    rw [hmax]
    constructor
    · rcases le_total (g m).alignment.val u.alignment.val with hle | hle
      · exact ⟨n, List.mem_append_left _ hn, by omega⟩
      · exact ⟨m, List.mem_append_right _ (.head _), by omega⟩
    · intro k hk
      rcases List.mem_append.mp hk with hk | hk
      · exact (hbound k hk).trans (le_max_left _ _)
      · obtain rfl := List.mem_singleton.mp hk
        exact le_max_right _ _

end Made

theorem tag?_ne_of_nodup (h : (tags (before ++ u :: after)).Nodup) (hu : u.tag? = some tag) :
    ∀ v ∈ before ++ after, v.tag? ≠ some tag := by
  intro v hv hvtag
  rw [tags_append, tags, tags, List.filterMap_cons_some hu, List.nodup_middle, List.nodup_cons,
    ← List.filterMap_append] at h
  exact h.1 (mem_tags.mpr ⟨v, hv, hvtag⟩)

structure InRow (ms : List (Member μ)) (units : List (PackingUnit μ)) : Prop where
  positions : (units.map position).Pairwise (· < ·)
  below : ∀ k ∈ units.map position, k < ms.length
  heads : (units.filterMap (·.members.head?)).Sublist ms

theorem InRow.add (h : InRow ms units) (hmade : ∀ u ∈ units, Made rules g u) (m : Member μ)
    (alignment : PowerOfTwo) :
    InRow (ms ++ [m]) (add rules m alignment ms.length units) := by
  have hlength : (ms ++ [m]).length = ms.length + 1 := List.length_append
  have hbelow : ∀ k ∈ units.map position, k < (ms ++ [m]).length := by
    intro k hk
    have := h.below k hk
    omega
  rcases add_cases rules m alignment ms.length units with
    ⟨tag, before, u, after, _, _, _, rfl, heq⟩ | ⟨_, heq⟩ <;> rw [heq]
  · -- The unit that is joined keeps its place and its first member.
    have hplaces : (before ++ u.extend m alignment :: after).map position =
        (before ++ u :: after).map position := by
      rw [List.map_append, List.map_cons, List.map_append, List.map_cons]
      rfl
    have hhead : (u.extend m alignment).members.head? = u.members.head? :=
      List.head?_append_of_ne_nil _ (hmade u (by simp)).members_ne_nil
    have hheads : (before ++ u.extend m alignment :: after).filterMap (·.members.head?) =
        (before ++ u :: after).filterMap (·.members.head?) := by
      simp only [List.filterMap_append, List.filterMap_cons, hhead]
    refine ⟨hplaces ▸ h.positions, hplaces ▸ hbelow, ?_⟩
    rw [hheads]
    exact h.heads.trans (List.sublist_append_left ms [m])
  · refine ⟨?_, ?_, ?_⟩
    · rw [List.map_append, List.pairwise_append]
      refine ⟨h.positions, List.pairwise_singleton _ _, fun k hk n hn => ?_⟩
      obtain rfl := List.mem_singleton.mp hn
      exact h.below k hk
    · rw [List.map_append]
      refine List.forall_mem_append.mpr ⟨hbelow, List.forall_mem_singleton.mpr ?_⟩
      exact hlength ▸ ms.length.lt_succ_self
    · rw [List.filterMap_append]
      exact h.heads.append (List.Sublist.refl [m])

structure Whole (ms : List (Member μ)) (units : List (PackingUnit μ)) : Prop where
  groups : ∀ u ∈ units, ∀ tag, u.tag? = some tag → u.members = ms.filter (·.tag? == some tag)
  found : ∀ m ∈ ms, ∀ tag, m.tag? = some tag → tag ∈ tags units

theorem filter_append_of_ne (htag : m.tag? ≠ some tag) :
    (ms ++ [m]).filter (·.tag? == some tag) = ms.filter (·.tag? == some tag) := by
  rw [List.filter_append, List.filter_singleton, beq_false_of_ne htag]
  exact List.append_nil _

theorem filter_append_of_tag? (htag : m.tag? = some tag) :
    (ms ++ [m]).filter (·.tag? == some tag) = ms.filter (·.tag? == some tag) ++ [m] := by
  rw [List.filter_append, List.filter_singleton, beq_iff_eq.mpr htag]
  rfl

theorem Whole.add (h : Whole ms units) (hgathered : Gathered rules g n units)
    (hrules : rules.preserveGroups = true) (m : Member μ) (alignment : PowerOfTwo) :
    Whole (ms ++ [m]) (add rules m alignment n units) := by
  have hms (units' : List (PackingUnit μ)) (htags : ∀ tag ∈ tags units, tag ∈ tags units')
      (hm : ∀ tag, m.tag? = some tag → tag ∈ tags units') :
      ∀ k ∈ ms ++ [m], ∀ tag, k.tag? = some tag → tag ∈ tags units' := by
    intro k hk tag htag
    rcases List.mem_append.mp hk with hk | hk
    · exact htags tag (h.found k hk tag htag)
    · obtain rfl := List.mem_singleton.mp hk
      exact hm tag htag
  rcases add_cases rules m alignment n units with
    ⟨tag, before, u, after, _, hm, hu, rfl, heq⟩ | ⟨hnone, heq⟩ <;> rw [heq]
  · have hmade := hgathered.made u (by simp)
    have hothers := tag?_ne_of_nodup (hgathered.apart hrules) hu
    refine ⟨fun v hv other hother => ?_, hms _ (fun _ htag => ?_) fun other hother => ?_⟩
    · have hcases : v = u.extend m alignment ∨ v ∈ before ++ after := by
        simp only [List.mem_append, List.mem_cons] at hv ⊢
        tauto
      rcases hcases with rfl | hv
      · rw [hmade.tag?_extend, hu] at hother
        obtain rfl := Option.some.inj hother
        rw [filter_append_of_tag? hm, ← h.groups u (by simp) tag hu]
        rfl
      · have hne : m.tag? ≠ some other := fun h => hothers v hv (hother.trans (h.symm.trans hm))
        rw [filter_append_of_ne hne]
        refine h.groups v ?_ other hother
        simp only [List.mem_append, List.mem_cons] at hv ⊢
        tauto
    · rwa [tags_extend hmade]
    · obtain rfl := Option.some.inj (hm.symm.trans hother)
      rw [tags_extend hmade]
      exact mem_tags.mpr ⟨u, by simp, hu⟩
  · have hadded : ∀ tag ∈ tags units, tag ∈
        tags (units ++ [({ members := [m], alignment, position := n } : PackingUnit μ)]) := by
      intro tag htag
      rw [tags_append]
      exact List.mem_append_left _ htag
    refine ⟨fun v hv other hother => ?_, hms _ hadded fun other hother => ?_⟩
    · rcases List.mem_append.mp hv with hv | hv
      · have hne : m.tag? ≠ some other := fun h =>
          hnone hrules other h (mem_tags.mpr ⟨v, hv, hother⟩)
        rw [filter_append_of_ne hne]
        exact h.groups v hv other hother
      · obtain rfl := List.mem_singleton.mp hv
        have hm : m.tag? = some other := hother
        have hnew : ms.filter (·.tag? == some other) = [] := by
          refine List.filter_eq_nil_iff.mpr fun k hk htag => ?_
          exact hnone hrules other hm (h.found k hk other (beq_iff_eq.mp htag))
        rw [filter_append_of_tag? hm, hnew]
        rfl
    · exact mem_tags.mpr ⟨_, List.mem_append_right _ (.head _), hother⟩

theorem gather_whole (hrules : rules.preserveGroups = true)
    (h : Gathered rules g ms.length units) (hrow : InRow ms units) (hwhole : Whole ms units) :
    InRow (ms ++ rest) (gather rules units (entries g ms.length rest)) ∧
      Whole (ms ++ rest) (gather rules units (entries g ms.length rest)) := by
  induction rest generalizing ms units with
  | nil =>
    rw [List.append_nil]
    exact ⟨hrow, hwhole⟩
  | cons m rest ih =>
    have hlength : (ms ++ [m]).length = ms.length + 1 := List.length_append
    have hgathered : Gathered rules g (ms ++ [m]).length
        (PackingUnit.add rules m (g m).alignment ms.length units) := hlength ▸ h.add m
    have hnext := ih hgathered (hrow.add h.made m (g m).alignment)
      (hwhole.add h hrules m (g m).alignment)
    rw [hlength] at hnext
    rw [List.append_cons]
    exact hnext

end PackingUnit

namespace Target

variable {t : Target μ} {rules : PackingRules} {a : Aggregate μ} {units : List (PackingUnit μ)}
  {s : Arrangement μ} {u : PackingUnit μ}

theorem units_whole (hrules : rules.preserveGroups = true) (h : t.units rules a = .ok units) :
    InRow a.members units ∧ Whole a.members units := by
  obtain ⟨_, rfl⟩ := units_eq_ok_gather.mp h
  have hrow : InRow [] ([] : List (PackingUnit μ)) := ⟨.nil, nofun, .slnil⟩
  have hwhole : Whole [] ([] : List (PackingUnit μ)) := ⟨nofun, nofun⟩
  exact gather_whole hrules gathered_nil hrow hwhole

theorem pack_units (h : t.pack rules a = .ok s) :
    ∃ units, t.units rules a = .ok units ∧ s.units.Perm units ∧
      (s.units.Pairwise fun u v => v.alignment.val ≤ u.alignment.val) ∧
      (rules.cacheLineHint = false → s.units = PackingUnit.sort rules units) := by
  obtain ⟨units, sorted, hunits, harranged, hs⟩ := pack_eq_ok.mp h
  obtain ⟨hsorted, _⟩ := arrange_eq_ok.mp harranged
  refine ⟨units, hunits, ?_⟩
  have start : sorted.units.Perm units ∧
      sorted.units.Pairwise fun u v => v.alignment.val ≤ u.alignment.val :=
    hsorted ▸ ⟨sort_perm rules units, pairwise_sort rules units⟩
  split at hs
  · next hflags =>
    obtain ⟨hhint, _⟩ := (Bool.and_eq_true _ _).mp hflags
    obtain ⟨hperm, hstrict⟩ := settle_invariant (P := fun s => s.units.Perm units ∧
      s.units.Pairwise fun u v => v.alignment.val ≤ u.alignment.val) (fun n s s' hs h => by
        rcases exchange_eq_ok h with rfl | ⟨u, v, hu, hv, halign, harrange, _⟩
        · exact hs
        · rw [(arrange_eq_ok.mp harrange).1]
          exact ⟨(swapAt_perm n s.units).trans hs.1, pairwise_swapAt hs.2 hu hv halign.le⟩)
      start hs
    exact ⟨hperm, hstrict, fun hplain => absurd (hhint.symm.trans hplain) Bool.noConfusion⟩
  · subst hs
    exact ⟨start.1, start.2, fun _ => hsorted⟩

theorem block_of_unit (hrules : rules.preserveGroups = true) (h : t.units rules a = .ok units)
    (hu : u ∈ units) : a.Block u.members ∧ t.Strictest u.members u.alignment.val := by
  have hmade := (units_gathered h).made u hu
  have hwhole := (units_whole hrules h).2
  have hmem : ∀ m ∈ u.members, m ∈ a.members := fun m hm =>
    (units_perm h).subset (List.mem_flatMap.mpr ⟨u, hu, hm⟩)
  have htyped (m : Member μ) (hm : m ∈ u.members) : t.memberType m = .ok (t.typeOf m) := by
    obtain ⟨d, hd⟩ := (units_eq_ok_gather.mp h).1 m (hmem m hm)
    rw [typeOf_eq hd, hd]
  refine ⟨?_, ?_, fun m hm => ⟨_, htyped m hm, hmade.strictest.2 m hm⟩⟩
  · cases htag : u.tag? with
    | none =>
      obtain ⟨m, hm, hmtag⟩ := hmade.single_of_tag? htag
      rw [hm] at hmem ⊢
      exact .single (hmem m (.head _)) hmtag
    | some tag =>
      obtain ⟨m, hm⟩ := List.exists_mem_of_ne_nil _ hmade.members_ne_nil
      rw [hwhole.groups u hu tag htag]
      exact .group (hmem m hm) ((hmade.tag?_of_mem hm).trans htag)
  · obtain ⟨m, hm, heq⟩ := hmade.strictest.1
    exact ⟨m, hm, _, htyped m hm, heq⟩

theorem group_together (hrules : rules.preserveGroups = true) (h : t.units rules a = .ok units)
    (hp : s.units.Perm units) (tag : String) :
    ∃ before after, s.units.flatMap (·.members) = before ++ a.group tag ++ after ∧
      ∀ m ∈ before ++ after, m.tag? ≠ some tag := by
  have hgathered := units_gathered h
  have hwhole := (units_whole hrules h).2
  have hmade (u : PackingUnit μ) (hu : u ∈ s.units) : Made rules t.typeOf u :=
    hgathered.made u (hp.subset hu)
  by_cases hfound : tag ∈ tags s.units
  · obtain ⟨u, hu, htag⟩ := mem_tags.mp hfound
    obtain ⟨before, after, hsplit⟩ := List.append_of_mem hu
    have hnodup := hgathered.apart.perm hp.symm hrules
    rw [hsplit] at hnodup hmade
    refine ⟨before.flatMap (·.members), after.flatMap (·.members), ?_, fun m hm hmtag => ?_⟩
    · rw [hsplit, List.flatMap_append, List.flatMap_cons, Aggregate.group,
        ← hwhole.groups u (hp.subset hu) tag htag, List.append_assoc]
    · rw [← List.flatMap_append] at hm
      obtain ⟨v, hv, hm⟩ := List.mem_flatMap.mp hm
      have hvmade := hmade v (by
        simp only [List.mem_append, List.mem_cons] at hv ⊢
        tauto)
      exact tag?_ne_of_nodup hnodup htag v hv ((hvmade.tag?_of_mem hm).symm.trans hmtag)
  · have hnone : ∀ m ∈ a.members, m.tag? ≠ some tag := by
      intro m hm hmtag
      exact hfound ((hp.filterMap tag?).symm.subset (hwhole.found m hm tag hmtag))
    have hgroup : a.group tag = [] :=
      List.filter_eq_nil_iff.mpr fun m hm htag => hnone m hm (beq_iff_eq.mp htag)
    refine ⟨s.units.flatMap (·.members), [], by rw [hgroup]; simp, fun m hm => ?_⟩
    rw [List.append_nil] at hm
    exact hnone m ((units_perm h).subset ((hp.flatMap_right _).subset hm))

theorem heads_sublist (hrules : rules.preserveGroups = true) (hplain : rules.cacheLineHint = false)
    (h : t.units rules a = .ok units) (alignment : Nat) :
    (((PackingUnit.sort rules units).filter (·.alignment.val == alignment)).filterMap
      (·.members.head?)).Sublist a.members := by
  obtain ⟨hrow, _⟩ := units_whole hrules h
  have hp := sort_perm rules units
  have hpositions := List.pairwise_map.mp hrow.positions
  have hdiffer : (PackingUnit.sort rules units).Pairwise fun u v => u.position ≠ v.position := by
    have hnodup := (hp.map position).nodup_iff.mpr (nodup_positions hpositions)
    exact List.pairwise_map.mp hnodup
  have hsorted : ((PackingUnit.sort rules units).filter (·.alignment.val == alignment)).Pairwise
      fun u v => u.position < v.position := by
    refine List.pairwise_filter.mpr (((pairwise_precedes_sort rules units).and hdiffer).imp ?_)
    intro u v ⟨huv, hne⟩ hu hv
    rw [precedes_iff, cluster_of_no_hint hplain, cluster_of_no_hint hplain] at huv
    rw [beq_iff_eq] at hu hv
    omega
  have : Std.Antisymm fun u v : PackingUnit μ => u.position < v.position :=
    ⟨fun _ _ h h' => absurd h' h.asymm⟩
  have hsub :
      ((PackingUnit.sort rules units).filter (·.alignment.val == alignment)).Sublist units :=
    List.sublist_of_subperm_of_pairwise (List.filter_sublist.subperm.trans hp.subperm) hsorted
      hpositions
  exact (hsub.filterMap _).trans hrow.heads

end Target

end Blocks

theorem repack_keeps_groups (t : Target Int) (rules : PackingRules) (a : Aggregate Int)
    (r : Repack Int) (hrules : rules.preserveGroups = true) (hkind : a.kind = .struct)
    (hpacked : a.packed = false) (h : t.repack rules a = .ok r) (hkept : r.keptOrder = false) :
    r.aggregate.members.Perm a.members ∧
    (∀ tag, ∃ before after, r.aggregate.members = before ++ a.group tag ++ after ∧
      ∀ m ∈ before ++ after, m.tag? ≠ some tag) ∧
    ∃ blocks : List (List (Member Int) × Nat), r.aggregate.members = blocks.flatMap (·.1) ∧
      (∀ b ∈ blocks, a.Block b.1 ∧ t.Strictest b.1 b.2) ∧
      (blocks.Pairwise fun b c => c.2 ≤ b.2) ∧
      (rules.cacheLineHint = false → ∀ alignment,
        ((blocks.filter (·.2 == alignment)).filterMap (·.1.head?)).Sublist a.members) := by
  have hfixed := Aggregate.hasFixedSize_eq_false.mpr ⟨hkind, hpacked⟩
  obtain ⟨s, hs, haggregate⟩ : ∃ s, t.pack rules a = .ok s ∧ r.aggregate = s.aggregate := by
    obtain ⟨l, _, ⟨hsize, _⟩ | ⟨_, s, hs, hr⟩⟩ := Target.repack_eq_ok.mp h
    · exact absurd (hsize.symm.trans hfixed) Bool.noConfusion
    · refine ⟨s, hs, ?_⟩
      split at hr
      · subst hr
        cases hkept
      · exact congrArg Repack.aggregate hr
  have hof := Target.pack_of hs
  have hmembers : s.aggregate.members = s.units.flatMap (·.members) := by
    rw [hof.ordered]
    rfl
  obtain ⟨units, hunits, hperm, hstrict, hsorted⟩ := Target.pack_units hs
  rw [haggregate, hmembers]
  refine ⟨hof.complete, Target.group_together hrules hunits hperm,
    s.units.map fun u => (u.members, u.alignment.val), ?_, fun b hb => ?_, ?_, ?_⟩
  · rw [List.flatMap_map]
  · obtain ⟨u, hu, rfl⟩ := List.mem_map.mp hb
    exact Target.block_of_unit hrules hunits (hperm.subset hu)
  · exact List.pairwise_map.mpr hstrict
  · intro hplain alignment
    rw [List.filter_map, List.filterMap_map, hsorted hplain]
    exact Target.heads_sublist hrules hplain hunits alignment

def interleaved : Aggregate Int where
  name := "interleaved"
  members :=
    [{ name := "head", type := .descriptor (integer .one), group := some "queue" },
      { name := "key", type := .descriptor (integer .four), group := some "entry" },
      { name := "next", type := .descriptor (.pointer "node" .eight) },
      { name := "count", type := .descriptor (integer .four), group := some "queue" },
      { name := "value", type := .descriptor (integer .four), group := some "entry" },
      { name := "flag", type := .descriptor (integer .one) }]

def groupsTogether : PackingRules := { preserveGroups := true }

def interleavedUnits : List (PackingUnit Int) :=
  [{ members := interleaved.group "queue", alignment := .four, position := 0 },
    { members := interleaved.group "entry", alignment := .four, position := 1 },
    { members := (interleaved.members.drop 2).take 1, alignment := .eight, position := 2 },
    { members := interleaved.members.drop 5, alignment := .one, position := 5 }]

def nextFirst : List (PackingUnit Int) :=
  (interleavedUnits.drop 2).take 1 ++ interleavedUnits.take 2 ++ interleavedUnits.drop 3

theorem sort_interleaved : PackingUnit.sort groupsTogether interleavedUnits = nextFirst := by
  simp [PackingUnit.sort, List.mergeSort, PackingUnit.precedes, PackingUnit.cluster,
    interleavedUnits, nextFirst, groupsTogether, PowerOfTwo.one, PowerOfTwo.four, PowerOfTwo.eight]

theorem repack_keeps_groups_interleaved :
    ∃ r, (Target.ofProfile .lp64).repack groupsTogether interleaved = .ok r ∧
      r.aggregate.memberNames = ["next", "head", "count", "key", "value", "flag"] ∧
      ∃ before after, r.aggregate.members = before ++ interleaved.group "queue" ++ after ∧
        ∀ m ∈ before ++ after, m.tag? ≠ some "queue" := by
  obtain ⟨l, hl, given⟩ : ∃ l, (Target.ofProfile .lp64).layout interleaved = .ok l ∧
      l.totalSize = 32 := ⟨_, rfl, rfl⟩
  obtain ⟨l', hl', new⟩ : ∃ l', (Target.ofProfile .lp64).layout
      (interleaved.withUnits nextFirst) = .ok l' ∧ l'.totalSize = 32 := ⟨_, rfl, rfl⟩
  have hunits : (Target.ofProfile .lp64).units groupsTogether interleaved =
      .ok interleavedUnits := rfl
  have h := Target.repack_of_sorted rfl rfl hunits sort_interleaved hl hl' (by omega)
  obtain ⟨_, htogether, _⟩ :=
    repack_keeps_groups (Target.ofProfile .lp64) groupsTogether interleaved _ rfl rfl rfl h rfl
  exact ⟨_, h, rfl, htogether "queue"⟩

end AggregateLayout
