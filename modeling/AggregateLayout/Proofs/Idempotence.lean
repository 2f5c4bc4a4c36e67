import Mathlib
import AggregateLayout.Proofs.Repacking
import AggregateLayout.Proofs.Settling

/-!
What was packed is packed into itself. The members of the units that packing leaves are gathered
into these units again, which are in order for the places they have by then and settle at once.
-/

namespace AggregateLayout

open PackingUnit

section Packing

variable {μ : Type} [Measure μ]

namespace Target

def typeOf (t : Target μ) (m : Member μ) : TypeDescriptor μ :=
  ((t.memberType m).toOption).getD (.pointer "" .one)

variable {t : Target μ} {rules : PackingRules} {a : Aggregate μ} {units : List (PackingUnit μ)}
  {s : Arrangement μ}

theorem typeOf_eq {m : Member μ} {d : TypeDescriptor μ} (h : t.memberType m = .ok d) :
    t.typeOf m = d := by
  rw [typeOf, h]
  rfl

theorem units_eq_ok_gather :
    t.units rules a = .ok units ↔ (∀ m ∈ a.members, ∃ d, t.memberType m = .ok d) ∧
      gather rules [] (entries t.typeOf 0 a.members) = units := by
  rw [units_eq_ok]
  constructor
  · rintro ⟨typed, hm, htyped, rfl⟩
    have hentries : typed = a.members.map fun m => (m, t.typeOf m) := by
      rw [← hm, List.map_map]
      refine (List.map_id typed).symm.trans (List.map_congr_left fun x hx => ?_)
      exact Prod.ext rfl (typeOf_eq (htyped x hx)).symm
    refine ⟨fun m hmem => ?_, by rw [entries, ← hentries]⟩
    rw [← hm] at hmem
    obtain ⟨x, hx, rfl⟩ := List.mem_map.mp hmem
    exact ⟨x.2, htyped x hx⟩
  · rintro ⟨htyped, rfl⟩
    refine ⟨a.members.map fun m => (m, t.typeOf m), by simp [Function.comp_def],
      fun x hx => ?_, rfl⟩
    obtain ⟨m, hm, rfl⟩ := List.mem_map.mp hx
    obtain ⟨d, hd⟩ := htyped m hm
    rw [typeOf_eq hd]
    exact hd

theorem units_gathered (h : t.units rules a = .ok units) :
    Gathered rules t.typeOf a.members.length units := by
  obtain ⟨_, rfl⟩ := units_eq_ok_gather.mp h
  have h : Gathered rules t.typeOf (0 + a.members.length)
      (gather rules [] (entries t.typeOf 0 a.members)) := gathered_nil.gather
  rwa [zero_add] at h

structure Packed (t : Target μ) (rules : PackingRules) (a : Aggregate μ) (s : Arrangement μ) :
    Prop where
  typed : ∀ m ∈ a.members, ∃ d, t.memberType m = .ok d
  made : ∀ u ∈ s.units, Made rules t.typeOf u
  apart : Apart rules s.units
  sorted : ∀ k, PackingUnit.sort rules (renumber k s.units) = renumber k s.units
  settled : rules.cacheLineHint = true → rules.preserveGroups = true → t.Settled s

theorem straddling_sort_le {sorted : Arrangement μ} (hmade : ∀ u ∈ units, Made rules t.typeOf u)
    (h : t.arrange a (PackingUnit.sort rules units) = .ok sorted) :
    t.straddling sorted ≤ units.length := by
  obtain ⟨_, ha, _⟩ := arrange_eq_ok.mp h
  have htags : ∀ m ∈ sorted.aggregate.members, ∀ tag, m.tag? = some tag → tag ∈ tags units := by
    intro m hm tag htag
    rw [ha] at hm
    obtain ⟨u, hu, hm⟩ := List.mem_flatMap.mp hm
    have hu := (sort_perm rules units).subset hu
    exact mem_tags.mpr ⟨u, hu, ((hmade u hu).tag?_of_mem hm).symm.trans htag⟩
  exact (straddlingGroups_le htags _ _).trans (List.length_filterMap_le _ _)

theorem pack_packed (h : t.pack rules a = .ok s) : t.Packed rules a s := by
  obtain ⟨units, sorted, hunits, harranged, hs⟩ := pack_eq_ok.mp h
  have hgathered := units_gathered hunits
  have htyped := (units_eq_ok_gather.mp hunits).1
  have hp := sort_perm rules units
  obtain ⟨hsorted, _⟩ := arrange_eq_ok.mp harranged
  have hmade : ∀ u ∈ sorted.units, Made rules t.typeOf u := by
    rw [hsorted]
    exact fun u hu => hgathered.made u (hp.subset hu)
  have hapart : Apart rules sorted.units := hsorted ▸ hgathered.apart.perm hp.symm
  split at hs
  · next hflags =>
    -- Exchanges may leave the order of the sort, but where groups are preserved alignments decide.
    obtain ⟨_, hpreserve⟩ := (Bool.and_eq_true _ _).mp hflags
    have hordered : Ordered rules t.typeOf sorted.units :=
      ⟨hmade, hapart, hsorted ▸ pairwise_sort rules units⟩
    have hfinal : Ordered rules t.typeOf s.units :=
      settle_invariant (P := fun s => Ordered rules t.typeOf s.units)
        (fun _ _ _ => exchange_ordered) hordered hs
    have hstraddling := straddling_sort_le hgathered.made harranged
    refine ⟨htyped, hfinal.made, hfinal.apart, fun k => ?_, fun _ _ =>
      settle_settled hstraddling hs⟩
    exact sort_renumber_of_apart (fun u hu => (hfinal.made u hu).members_ne_nil)
      (hfinal.apart hpreserve) hfinal.strict
  · next hflags =>
    subst hs
    refine ⟨htyped, hmade, hapart, fun k => ?_, fun hhint hpreserve => ?_⟩
    · rw [hsorted]
      exact sort_renumber_sort (fun u hu => (hgathered.made u hu).members_ne_nil)
        hgathered.distinct
    · rw [hhint, hpreserve] at hflags
      exact absurd rfl hflags

theorem pack_pack (h : t.pack rules a = .ok s) :
    t.pack rules s.aggregate = .ok { s with units := renumber 0 s.units } := by
  have hof := pack_of h
  have hpacked := pack_packed h
  have hmembers : s.aggregate.members = s.units.flatMap (·.members) := by
    rw [hof.ordered]
    rfl
  have hunits : t.units rules s.aggregate = .ok (renumber 0 s.units) := by
    refine units_eq_ok_gather.mpr ⟨fun m hm => hpacked.typed m (hof.perm.subset hm), ?_⟩
    rw [hmembers]
    exact PackingUnit.gather_members hpacked.made hpacked.apart
  have hsame : s.aggregate.withUnits (renumber 0 s.units) = s.aggregate := by
    rw [withUnits_congr s.aggregate map_members_renumber, hof.ordered]
    rfl
  have harranged : t.arrange s.aggregate (PackingUnit.sort rules (renumber 0 s.units)) =
      .ok { s with units := renumber 0 s.units } := by
    rw [hpacked.sorted 0]
    exact arrange_eq_ok.mpr ⟨rfl, hsame.symm, hof.laid⟩
  refine pack_eq_ok.mpr ⟨_, _, hunits, harranged, ?_⟩
  split
  · next hflags =>
    obtain ⟨hhint, hpreserve⟩ := (Bool.and_eq_true _ _).mp hflags
    exact ((hpacked.settled hhint hpreserve).renumber 0).settle _
  · rfl

end Target

end Packing

theorem repack_idempotent (t : Target Int) (rules : PackingRules) (a : Aggregate Int)
    (r : Repack Int) (h : t.repack rules a = .ok r) :
    ∃ r', t.repack rules r.aggregate = .ok r' ∧ r'.aggregate = r.aggregate ∧ r'.savings = 0 := by
  obtain ⟨l, hl, ⟨hfixed, rfl⟩ | ⟨hfixed, s, hs, hr⟩⟩ := Target.repack_eq_ok.mp h
  · exact ⟨_, h, rfl, if_pos hfixed⟩
  split at hr
  · subst hr
    refine ⟨_, h, rfl, ?_⟩
    rw [Repack.savings_int (.inr rfl)]
    exact sub_self _
  · subst hr
    have hof := Target.pack_of hs
    have hfixed : s.aggregate.hasFixedSize = false := by
      rw [hof.withMembers]
      exact hfixed
    refine ⟨_, Target.repack_eq_ok.mpr
      ⟨s.layout, hof.laid, .inr ⟨hfixed, _, Target.pack_pack hs, rfl⟩⟩, ?_⟩
    rw [if_neg (lt_irrefl s.layout.totalSize)]
    refine ⟨rfl, ?_⟩
    rw [Repack.savings_int (.inr rfl)]
    exact sub_self _

def counters : Aggregate Int where
  name := "counters"
  members :=
    [{ name := "table", type := .descriptor (integer .four), dims := [15] },
      { name := "hits", type := .descriptor (integer .four), group := some "hot" },
      { name := "misses", type := .descriptor (integer .four), group := some "hot" }]

def groupsInLines : PackingRules := { preserveGroups := true, cacheLineHint := true }

def countersUnits : List (PackingUnit Int) :=
  [{ members := counters.members.take 1, alignment := .four, position := 0 },
    { members := counters.members.drop 1, alignment := .four, position := 1 }]

theorem sort_counters : PackingUnit.sort groupsInLines countersUnits = countersUnits := by
  apply sort_eq_self
  decide +kernel

theorem pack_counters : ∃ s, (Target.ofProfile .lp64).pack groupsInLines counters = .ok s ∧
    s.aggregate.memberNames = ["hits", "misses", "table"] ∧ s.layout.totalSize = 68 := by
  obtain ⟨sorted, s, hsorted, hs, hnames, hsize⟩ : ∃ sorted s,
      (Target.ofProfile .lp64).arrange counters countersUnits = .ok sorted ∧
      (Target.ofProfile .lp64).settle 2 sorted = .ok s ∧
      s.aggregate.memberNames = ["hits", "misses", "table"] ∧ s.layout.totalSize = 68 :=
    ⟨_, _, rfl, rfl, rfl, rfl⟩
  refine ⟨s, Target.pack_eq_ok.mpr ⟨countersUnits, sorted, rfl, ?_, hs⟩, hnames, hsize⟩
  rw [sort_counters]
  exact hsorted

theorem repack_idempotent_counters :
    ∃ r r', (Target.ofProfile .lp64).repack groupsInLines counters = .ok r ∧
      r.aggregate.memberNames = ["hits", "misses", "table"] ∧
      (Target.ofProfile .lp64).repack groupsInLines r.aggregate = .ok r' ∧
      r'.aggregate = r.aggregate ∧ r'.savings = 0 := by
  obtain ⟨l, hl, given⟩ : ∃ l, (Target.ofProfile .lp64).layout counters = .ok l ∧
      l.totalSize = 68 := ⟨_, rfl, rfl⟩
  obtain ⟨s, hs, hnames, hsize⟩ := pack_counters
  have h := Target.repack_eq_ok.mpr ⟨l, hl, .inr ⟨rfl, s, hs, rfl⟩⟩
  rw [if_neg (by omega)] at h
  obtain ⟨r', hagain, hsame, hsavings⟩ := repack_idempotent _ _ _ _ h
  exact ⟨_, r', h, hnames, hagain, hsame, hsavings⟩

end AggregateLayout
