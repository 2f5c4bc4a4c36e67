import Mathlib
import AggregateLayout.Proofs.Drawing
import AggregateLayout.Proofs.Fronts

namespace AggregateLayout

open PackingUnit

def Target.fields (t : Target Int) (units : List (PackingUnit Int)) :
    List (Option Int × TypeDescriptor Int) :=
  (units.flatMap (·.members)).map fun m => (m.bits, (t.typeOf m).plain)

section Fields

variable {t : Target Int} {u : PackingUnit Int} {units others : List (PackingUnit Int)}
  {m : Member Int}

theorem Target.fields_cons (h : u.Lone t m) :
    t.fields (u :: units) = (m.bits, (t.typeOf m).plain) :: t.fields units := by
  unfold fields
  rw [List.flatMap_cons, h.members]
  rfl

theorem PackingUnit.Lone.plain_alignment (h : u.Lone t m) :
    (t.typeOf m).plain.alignment.val = u.alignment.val := by
  rw [TypeDescriptor.alignment_plain, h.alignment]
  rfl

theorem Target.fields_append : t.fields (units ++ others) = t.fields units ++ t.fields others := by
  unfold fields
  rw [List.flatMap_append, List.map_append]

structure PackingUnit.Steady (t : Target Int) (units : List (PackingUnit Int)) : Prop where
  row : units.Pairwise fun u v => u.position < v.position
  lone : ∀ u ∈ units, ∃ m, u.Lone t m
  width : ∀ u ∈ units, ∀ m ∈ u.members, ∀ width, m.bits = some width → 0 ≤ width
  filled : ∀ u ∈ units, ∀ m ∈ u.members, Parted units u → m.bits = none ∧ (t.typeOf m).Filled

theorem PackingUnit.Steady.widths (h : Steady t units) (hsub : others ⊆ units) :
    ∀ x ∈ t.fields others, ∀ width, x.1 = some width → 0 ≤ width := by
  intro x hx
  obtain ⟨m, hm, rfl⟩ := List.mem_map.mp hx
  obtain ⟨u, hu, hm⟩ := List.mem_flatMap.mp hm
  exact h.width u (hsub hu) m hm

end Fields

namespace Front

variable {t : Target Int} {rules plain : PackingRules} {p : MachineProfile Int} {s : Front}
  {u : PackingUnit Int} {units after sorted mid : List (PackingUnit Int)} {m : Member Int}

theorem settled_of_parted (hsteady : Steady t units) (hu : u ∈ units) (hm : u.Lone t m)
    (hparted : Parted units u) :
    (s.next p m.bits (t.typeOf m).plain).Settled u.alignment.val := by
  obtain ⟨hbits, hfilled⟩ := hsteady.filled u hu m hm.mem hparted
  rw [hbits, ← hm.plain_alignment]
  exact next_none (TypeDescriptor.filled_plain.mpr hfilled)

theorem draw_unit_behind (hsteady : Steady t units) (hu : u ∈ units) (hparted : Parted units u)
    (hmid : mid ⊆ units) (halign : ∀ w ∈ mid, w.alignment.val = u.alignment.val)
    (hs : s.Settled u.alignment.val) :
    (s.run p (t.fields (u :: mid))).Behind (s.run p (t.fields (mid ++ [u]))) := by
  obtain ⟨m, hm⟩ := hsteady.lone u hu
  obtain ⟨hbits, hfilled⟩ := hsteady.filled u hu m hm.mem hparted
  have single : t.fields [u] = [(none, (t.typeOf m).plain)] := by
    rw [Target.fields_cons hm, hbits]
    rfl
  rw [Target.fields_append, single, Target.fields_cons hm, hbits]
  apply draw_behind
  · rwa [hm.plain_alignment]
  · exact TypeDescriptor.filled_plain.mpr hfilled
  · intro x hx
    obtain ⟨n, hn, rfl⟩ := List.mem_map.mp hx
    obtain ⟨w, hw, hn⟩ := List.mem_flatMap.mp hn
    obtain ⟨k, hk⟩ := hsteady.lone w (hmid hw)
    rw [hk.members, List.mem_singleton] at hn
    rw [hn, hk.plain_alignment, hm.plain_alignment]
    exact halign w hw

theorem run_drawn (before : List (PackingUnit Int)) (hplain : plain.cacheLineHint = false)
    (hsteady : Steady t units) (hs : s.Fair)
    (hlast : ∀ earlier v, before = earlier ++ [v] → Parted units v → s.Settled v.alignment.val)
    (hperm : (before ++ after).Perm units)
    (hdrawn : (before ++ after).Pairwise fun u v => precedes rules units u v = true)
    (hp : sorted.Perm after)
    (hsorted : sorted.Pairwise fun u v => precedes plain units u v = true) :
    (s.run p (t.fields after)).Behind (s.run p (t.fields sorted)) := by
  -- Over the drawn order: `before` is placed, and `sorted` is what is left of the other order.
  induction after generalizing before sorted s with
  | nil =>
    obtain rfl := List.perm_nil.mp hp
    exact .refl _
  | cons u after ih =>
    obtain ⟨mid, rest, rfl⟩ := List.append_of_mem (hp.symm.subset (.head after))
    have hmid : (mid ++ rest).Perm after := (List.perm_middle.symm.trans hp).cons_inv
    have hsub : mid ++ u :: rest ⊆ units := fun v hv =>
      hperm.subset (List.mem_append_right _ (hp.subset hv))
    have hu : u ∈ units := hsub (by simp)
    have hmids : mid ⊆ units := (List.append_subset.mp hsub).1
    have hrest : rest ⊆ units := fun v hv => hsub (by simp [hv])
    obtain ⟨m, hm⟩ := hsteady.lone u hu
    have later : (s.run p (t.fields (u :: after))).Behind
        (s.run p (t.fields (u :: mid) ++ t.fields rest)) := by
      rw [← Target.fields_append, List.cons_append, Target.fields_cons hm, Target.fields_cons hm]
      apply ih (before ++ [u])
      · exact hs.next (hsteady.width u hu m hm.mem)
      · intro earlier v hv hparted
        obtain ⟨_, hv⟩ := List.append_inj' hv rfl
        obtain rfl := List.singleton_inj.mp hv
        exact settled_of_parted hsteady hu hm hparted
      · rwa [List.append_assoc]
      · rwa [List.append_assoc]
      · exact hmid
      · exact hsorted.sublist ((List.sublist_cons_self u rest).append_left mid)
    -- The unit may as well come behind those that it passes.
    have sooner : (s.run p (t.fields (u :: mid))).Behind (s.run p (t.fields (mid ++ [u]))) := by
      rcases eq_or_ne mid [] with rfl | hne
      · exact .refl _
      obtain ⟨halign, hparted, earlier, v, hbefore, together⟩ :=
        drawn_past hplain hsteady.row hperm hdrawn hmid hsorted hne
      apply draw_unit_behind hsteady hu hparted hmids halign
      rw [← together.alignment]
      exact hlast earlier v hbefore (hparted.congr together.symm)
    have fair : (s.run p (t.fields (mid ++ [u]))).Fair :=
      hs.run (hsteady.widths (List.append_subset.mpr ⟨hmids, by simpa using hu⟩))
    rw [run_append] at later
    rw [List.append_cons, Target.fields_append, run_append]
    exact later.trans (sooner.run fair (hsteady.widths hrest))

end Front

namespace Target

variable {t : Target Int} {rules rules' : PackingRules} {a : Aggregate Int}
  {units : List (PackingUnit Int)} {s s' : Arrangement Int}

theorem types_typeOf {m : Member Int} (h : ∃ d, t.memberType m = .ok d) :
    t.Types m (t.typeOf m) := by
  obtain ⟨d, hd⟩ := h
  rw [typeOf_eq hd]
  exact types_of_memberType hd

theorem totalSize_arranged (ha : a.kind = .struct) (hpacked : a.packed = false)
    (htyped : ∀ u ∈ units, ∀ m ∈ u.members, ∃ d, t.memberType m = .ok d)
    (h : t.arrange a units = .ok s) :
    s.layout.totalSize = roundUp (Front.run t.profile (t.fields units) { cursor := 0 }).cursor
      s.layout.totalAlignment := by
  obtain ⟨_, hagg, hlaid⟩ := arrange_eq_ok.mp h
  obtain ⟨_, typed, hm, htypes, hl⟩ := hagg ▸ lays_of_layout hlaid
  have hfields : typed.map (fun x => (x.1.bits, x.2.plain)) = t.fields units := by
    unfold fields
    change typed.map Prod.fst = units.flatMap (·.members) at hm
    rw [← hm, List.map_map]
    refine List.map_congr_left fun x hx => Prod.ext rfl ?_
    have hmem : x.1 ∈ units.flatMap (·.members) := hm ▸ List.mem_map_of_mem hx
    obtain ⟨u, hu, hmem⟩ := List.mem_flatMap.mp hmem
    exact (htypes x hx).unique (types_typeOf (htyped u hu _ hmem))
  have size := Layout.totalSize_front (a := a.withUnits units) ha hpacked hl
  rwa [hfields] at size

theorem units_steady (hrules : rules.preserveGroups = false)
    (hparted : ∀ m ∈ a.members, t.Parted a m → m.bits = none ∧ (t.typeOf m).Filled)
    (hwidth : ∀ m ∈ a.members, ∀ width, m.bits = some width → 0 ≤ width)
    (h : t.units rules a = .ok units) : Steady t units := by
  have given (u : PackingUnit Int) (hu : u ∈ units) (m : Member Int) (hm : m ∈ u.members) :
      m ∈ a.members ∧ u.Lone t m := by
    obtain ⟨k, hk, lone⟩ := units_lone hrules h u hu
    rw [lone.members, List.mem_singleton] at hm
    exact hm ▸ ⟨hk, lone⟩
  refine ⟨units_row hrules h, fun u hu => ?_, fun u hu m hm => ?_, fun u hu m hm hp => ?_⟩
  · obtain ⟨m, _, lone⟩ := units_lone hrules h u hu
    exact ⟨m, lone⟩
  · exact hwidth m (given u hu m hm).1
  · obtain ⟨hmem, lone⟩ := given u hu m hm
    exact hparted m hmem (.of_unit hrules h lone hp)

theorem arrange_hint_le (hrules : rules.preserveGroups = false) (ha : a.kind = .struct)
    (hpacked : a.packed = false) (hplain : rules'.cacheLineHint = false)
    (hparted : ∀ m ∈ a.members, t.Parted a m → m.bits = none ∧ (t.typeOf m).Filled)
    (hunits : t.units rules a = .ok units)
    (h : t.arrange a (PackingUnit.sort rules units) = .ok s)
    (h' : t.arrange a (PackingUnit.sort rules' units) = .ok s') :
    s.layout.totalSize ≤ s'.layout.totalSize := by
  have perm := sort_perm rules units
  have perm' := sort_perm rules' units
  have complete := units_perm hunits
  have hof := arrange_of ((perm.flatMap_right _).trans complete) h
  have hof' := arrange_of ((perm'.flatMap_right _).trans complete) h'
  have lays := lays_of_layout hof.laid
  have lays' := lays_of_layout hof'.laid
  have widths : ∀ m ∈ a.members, ∀ width, m.bits = some width → 0 ≤ width := by
    intro m hm width hbits
    obtain ⟨d, _, fits⟩ := lays.sound.bitfields m (hof.perm.symm.subset hm) width hbits
    have := fits.positive
    omega
  have steady := units_steady hrules hparted widths hunits
  have typed : ∀ u ∈ units, ∀ m ∈ u.members, ∃ d, t.memberType m = .ok d := fun u hu m hm =>
    (units_eq_ok_gather.mp hunits).1 m (complete.subset (List.mem_flatMap.mpr ⟨u, hu, hm⟩))
  -- Both orders start where nothing is placed, so that no unit is before the drawn ones.
  have behind := Front.run_drawn (p := t.profile) (s := { cursor := 0 }) [] hplain steady
    (fun _ _ hu => (nomatch hu)) (by simp) perm (pairwise_precedes_sort rules units)
    (perm'.trans perm.symm) (pairwise_precedes_sort rules' units)
  have kind : s.aggregate.kind = .struct := by rw [hof.ordered]; exact ha
  have kind' : s'.aggregate.kind = .struct := by rw [hof'.ordered]; exact ha
  have packed : s.aggregate.packed = s'.aggregate.packed := by rw [hof.ordered, hof'.ordered]; rfl
  have aligned := lays.totalAlignment_perm lays' kind kind' packed (hof.perm.trans hof'.perm.symm)
  rw [totalSize_arranged ha hpacked (fun u hu => typed u (perm.subset hu)) h,
    totalSize_arranged ha hpacked (fun u hu => typed u (perm'.subset hu)) h', roundUp_congr aligned]
  exact roundUp_mono behind.cursor

theorem settle_totalSize_le {passes : Nat} (h : t.settle passes s = .ok s') :
    s'.layout.totalSize ≤ s.layout.totalSize := by
  refine settle_invariant (P := fun x => x.layout.totalSize ≤ s.layout.totalSize) ?_ le_rfl h
  intro n x x' hx hexchange
  rcases exchange_eq_ok hexchange with rfl | ⟨_, _, _, _, _, _, hle, _⟩
  · exact hx
  · exact hle.trans hx

theorem pack_hint_le (ha : a.kind = .struct) (hpacked : a.packed = false)
    (hparted : rules.preserveGroups = false →
      ∀ m ∈ a.members, t.Parted a m → m.bits = none ∧ (t.typeOf m).Filled)
    (h : t.pack { rules with cacheLineHint := true } a = .ok s)
    (h' : t.pack { rules with cacheLineHint := false } a = .ok s') :
    s.layout.totalSize ≤ s'.layout.totalSize := by
  obtain ⟨units, sorted, hunits, hsorted, hs⟩ := pack_eq_ok.mp h
  obtain ⟨units', sorted', hunits', hsorted', hs'⟩ := pack_eq_ok.mp h'
  obtain rfl : units = units' := Except.ok.inj (hunits.symm.trans hunits')
  obtain rfl : sorted' = s' := hs'
  have hplain : ({ rules with cacheLineHint := false } : PackingRules).cacheLineHint = false := rfl
  cases hrules : rules.preserveGroups with
  | false =>
    obtain rfl : sorted = s := by simpa [hrules] using hs
    have hrules' : ({ rules with cacheLineHint := true } : PackingRules).preserveGroups = false :=
      hrules
    exact arrange_hint_le hrules' ha hpacked hplain (hparted hrules) hunits hsorted hsorted'
  | true =>
    -- A group is a single unit here, so that only the exchanges tell the two apart.
    have gathered := units_gathered hunits
    rw [sort_of_apart hplain (gathered.apart hrules) gathered.distinct] at hsorted
    obtain rfl : sorted = sorted' := Except.ok.inj (hsorted.symm.trans hsorted')
    exact settle_totalSize_le (by simpa [hrules] using hs)

end Target

theorem repack_hint_le (t : Target Int) (rules : PackingRules) (a : Aggregate Int)
    (r r' : Repack Int)
    (hparted : a.hasFixedSize = false → rules.preserveGroups = false →
      ∀ m ∈ a.members, t.Parted a m → m.bits = none ∧ (t.typeOf m).Filled)
    (h : t.repack { rules with cacheLineHint := true } a = .ok r)
    (h' : t.repack { rules with cacheLineHint := false } a = .ok r') :
    r.layout.totalSize ≤ r'.layout.totalSize := by
  obtain ⟨l, hl, hr⟩ := Target.repack_eq_ok.mp h
  obtain ⟨l', hl', hr'⟩ := Target.repack_eq_ok.mp h'
  obtain rfl : l = l' := Except.ok.inj (hl.symm.trans hl')
  rcases hr with ⟨hfixed, rfl⟩ | ⟨hfixed, s, hs, rfl⟩
  · rcases hr' with ⟨_, rfl⟩ | ⟨hfixed', _⟩
    · exact le_rfl
    · exact (nomatch hfixed.symm.trans hfixed')
  · rcases hr' with ⟨hfixed', _⟩ | ⟨_, s', hs', rfl⟩
    · exact (nomatch hfixed'.symm.trans hfixed)
    · obtain ⟨ha, hpacked⟩ := Aggregate.hasFixedSize_eq_false.mp hfixed
      have hle := Target.pack_hint_le ha hpacked (hparted hfixed) hs hs'
      -- Each of the two keeps the given order where that is smaller.
      split <;> split <;> dsimp only <;> omega

namespace Target

def rowOf (a : Aggregate Int) (alignments : List PowerOfTwo) : List (PackingUnit Int) :=
  (a.members.zip alignments).zipIdx.map fun x =>
    { members := [x.1.1], alignment := x.1.2, position := x.2 }

theorem repacks_of_sorted {t : Target Int} {a : Aggregate Int}
    {units drawn sorted : List (PackingUnit Int)} {n j k : Int} (hfixed : a.hasFixedSize = false)
    (hunits : ∀ hint, t.units { cacheLineHint := hint } a = .ok units)
    (hsorted : PackingUnit.sort { cacheLineHint := true } units = drawn ∧
      PackingUnit.sort {} units = sorted)
    (hn : ∃ l, t.layout a = .ok l ∧ l.totalSize = n)
    (hj : ∃ l, t.layout (a.withUnits drawn) = .ok l ∧ l.totalSize = j)
    (hk : ∃ l, t.layout (a.withUnits sorted) = .ok l ∧ l.totalSize = k) (hle : max j k ≤ n) :
    ∃ r r', t.repack { cacheLineHint := true } a = .ok r ∧ t.repack {} a = .ok r' ∧
      r.layout.totalSize = j ∧ r'.layout.totalSize = k := by
  obtain ⟨l, hl, rfl⟩ := hn
  obtain ⟨drawnLayout, hdrawn, rfl⟩ := hj
  obtain ⟨sortedLayout, hplain, rfl⟩ := hk
  obtain ⟨hjn, hkn⟩ := max_le_iff.mp hle
  exact ⟨_, _, repack_of_sorted hfixed rfl (hunits true) hsorted.1 hl hdrawn (not_lt.mpr hjn),
    repack_of_sorted hfixed rfl (hunits false) hsorted.2 hl hplain (not_lt.mpr hkn), rfl, rfl⟩

end Target

def word (name : String) (group : Option String) (bits : Option Int) : Member Int where
  name
  type := .descriptor (integer .four)
  bits
  group

def flagsAndCounts : Aggregate Int where
  name := "counts"
  members :=
    [word "hits" (some "counts") none, word "valid" none (some 4),
      word "misses" (some "counts") none, word "dirty" none (some 4)]

def flagsAndCountsRow : List (PackingUnit Int) :=
  Target.rowOf flagsAndCounts [.four, .four, .four, .four]

theorem sort_flagsAndCounts :
    PackingUnit.sort { cacheLineHint := true } flagsAndCountsRow =
        [0, 2, 1, 3].filterMap (flagsAndCountsRow[·]?) ∧
      PackingUnit.sort {} flagsAndCountsRow = flagsAndCountsRow := by
  simp [PackingUnit.sort, List.mergeSort, PackingUnit.precedes, PackingUnit.cluster,
    PackingUnit.tag?, Member.tag?, flagsAndCountsRow, Target.rowOf, flagsAndCounts, word]

theorem flagsAndCounts_filled : ∀ m ∈ flagsAndCounts.members,
    (Target.ofProfile .lp64).Parted flagsAndCounts m →
      m.bits = none ∧ ((Target.ofProfile .lp64).typeOf m).Filled := by
  intro m hm hparted
  simp only [flagsAndCounts, List.mem_cons, List.not_mem_nil, or_false] at hm
  rcases hm with rfl | rfl | rfl | rfl
  · exact ⟨rfl, 1, rfl⟩
  · exact absurd hparted.1 (by decide)
  · exact ⟨rfl, 1, rfl⟩
  · exact absurd hparted.1 (by decide)

theorem repack_hint_le_flagsAndCounts :
    ∃ r r', (Target.ofProfile .lp64).repack { cacheLineHint := true } flagsAndCounts = .ok r ∧
      (Target.ofProfile .lp64).repack {} flagsAndCounts = .ok r' ∧
      r.layout.totalSize ≤ r'.layout.totalSize ∧ r.layout.totalSize = 12 := by
  obtain ⟨r, r', h, h', size, _⟩ := Target.repacks_of_sorted (t := .ofProfile .lp64)
    (a := flagsAndCounts) (n := 16) (j := 12) (k := 16) rfl (fun _ => rfl) sort_flagsAndCounts
    ⟨_, rfl, rfl⟩ ⟨_, rfl, rfl⟩ ⟨_, rfl, rfl⟩ (by decide)
  exact ⟨r, r', h, h', repack_hint_le _ {} _ r r' (fun _ _ => flagsAndCounts_filled) h h', size⟩

def fieldsByTurns : Aggregate Int where
  name := "fields"
  members :=
    [tag, word "high" (some "wide") (some 20), word "low" none (some 12),
      word "upper" (some "wide") (some 20), word "lower" none (some 12), code]

def fieldsByTurnsRow : List (PackingUnit Int) :=
  Target.rowOf fieldsByTurns [.one, .four, .four, .four, .four, .one]

theorem sort_fieldsByTurns :
    PackingUnit.sort { cacheLineHint := true } fieldsByTurnsRow =
        [1, 3, 2, 4, 0, 5].filterMap (fieldsByTurnsRow[·]?) ∧
      PackingUnit.sort {} fieldsByTurnsRow =
        [1, 2, 3, 4, 0, 5].filterMap (fieldsByTurnsRow[·]?) := by
  simp [PackingUnit.sort, List.mergeSort, PackingUnit.precedes, PackingUnit.cluster,
    PackingUnit.tag?, Member.tag?, fieldsByTurnsRow, Target.rowOf, fieldsByTurns, word, tag, code,
    PowerOfTwo.one, PowerOfTwo.four]

def unfilled : Member Int where
  name := "unfilled"
  type := .descriptor (.basic "unfilled" (.of 6) .four .scalar false)
  group := some "pair"

def unfilledLast : Aggregate Int where
  name := "pairs"
  members := [tag, word "first" (some "pair") none, word "other" none none, unfilled]

def unfilledLastRow : List (PackingUnit Int) :=
  Target.rowOf unfilledLast [.one, .four, .four, .four]

theorem sort_unfilledLast :
    PackingUnit.sort { cacheLineHint := true } unfilledLastRow =
        [1, 3, 2, 0].filterMap (unfilledLastRow[·]?) ∧
      PackingUnit.sort {} unfilledLastRow = [1, 2, 3, 0].filterMap (unfilledLastRow[·]?) := by
  simp [PackingUnit.sort, List.mergeSort, PackingUnit.precedes, PackingUnit.cluster,
    PackingUnit.tag?, Member.tag?, unfilledLastRow, Target.rowOf, unfilledLast, word, tag, unfilled,
    PowerOfTwo.one, PowerOfTwo.four]

theorem repack_hint_grows :
    (∃ r r', (Target.ofProfile .lp64).repack { cacheLineHint := true } fieldsByTurns = .ok r ∧
      (Target.ofProfile .lp64).repack {} fieldsByTurns = .ok r' ∧
      r.layout.totalSize = 16 ∧ r'.layout.totalSize = 12) ∧
    ∃ r r', (Target.ofProfile .lp64).repack { cacheLineHint := true } unfilledLast = .ok r ∧
      (Target.ofProfile .lp64).repack {} unfilledLast = .ok r' ∧
      r.layout.totalSize = 20 ∧ r'.layout.totalSize = 16 := by
  constructor
  · exact Target.repacks_of_sorted (n := 16) rfl (fun _ => rfl) sort_fieldsByTurns
      ⟨_, rfl, rfl⟩ ⟨_, rfl, rfl⟩ ⟨_, rfl, rfl⟩ (by decide)
  · exact Target.repacks_of_sorted (n := 20) rfl (fun _ => rfl) sort_unfilledLast
      ⟨_, rfl, rfl⟩ ⟨_, rfl, rfl⟩ ⟨_, rfl, rfl⟩ (by decide)

end AggregateLayout
