import Mathlib
import AggregateLayout.Proofs.Arranging
import AggregateLayout.Proofs.IntegerLayouts

namespace AggregateLayout

open AggregateLayout.Measure (whole)

namespace Table

variable {α β : Type}

theorem insert_mapValues (f : α → β) (t : Table α) (key : String) (value : α) :
    (t.insert key value).mapValues f = (t.mapValues f).insert key (f value) := by
  induction t with
  | nil => rfl
  | cons x rest ih =>
    unfold mapValues at ih ⊢
    rw [List.map_cons]
    unfold insert
    split
    · rfl
    · rw [List.map_cons, ih]

theorem forall_insert {P : α → Prop} {t : Table α} {key : String} {value : α}
    (h : ∀ x ∈ t, P x.2) (hvalue : P value) : ∀ x ∈ t.insert key value, P x.2 := by
  induction t with
  | nil => exact List.forall_mem_singleton.mpr hvalue
  | cons x rest ih =>
    obtain ⟨hx, hrest⟩ := List.forall_mem_cons.mp h
    unfold insert
    split
    · exact List.forall_mem_cons.mpr ⟨hvalue, hrest⟩
    · exact List.forall_mem_cons.mpr ⟨hx, ih hrest⟩

end Table

section Spans

variable {l : Layout Quantity} {l' : Layout Int} {q : Placement Quantity} {q' : Placement Int}

theorem Layout.StandsFor.placement? (h : l.StandsFor l') (name : String) :
    Option.Rel Placement.StandsFor (l.placement? name) (l'.placement? name) := by
  have hplacements := h.placements
  unfold Layout.placement?
  generalize l.placements = qs, l'.placements = qs' at hplacements
  induction hplacements with
  | nil => exact .none
  | @cons q q' rest rest' hq _ ih =>
    rw [List.find?_cons, List.find?_cons, hq.name]
    split
    · exact .some hq
    · exact ih

theorem Placement.StandsFor.start (h : q.StandsFor q') : q.offset.IsWhole := h.isWhole _ (.head _)

theorem Placement.StandsFor.stop (h : q.StandsFor q') : q'.stop = q.stop.integer := by
  unfold Placement.stop
  rw [h.offset, h.size]
  exact (Quantity.integer_add h.start h.natural.isWhole).symm

/-- Where the bytes of a group start and stop, as integers. -/
def integerSpan (s : Quantity × Quantity) : Int × Int := (s.1.integer, s.2.integer)

def WholeSpan (s : Quantity × Quantity) : Prop := s.1.IsWhole ∧ s.2.IsWhole

theorem groupSpans_integral (h : l.StandsFor l') (a : Aggregate Quantity) :
    (∀ x ∈ groupSpans a l, WholeSpan x.2) ∧
      groupSpans a.integral l' = (groupSpans a l).mapValues integerSpan := by
  unfold groupSpans
  rw [a.members_integral, List.foldl_map]
  have start : (∀ x ∈ ([] : Table (Quantity × Quantity)), WholeSpan x.2) ∧
      ([] : Table (Int × Int)) = Table.mapValues integerSpan [] := ⟨fun _ hx => (nomatch hx), rfl⟩
  -- The spans of the members before go along with the induction, and they are whole.
  generalize ([] : Table (Quantity × Quantity)) = spans, ([] : Table (Int × Int)) = spans' at start
  induction a.members generalizing spans spans' with
  | nil => exact start
  | cons m rest ih =>
    refine ih _ _ ?_
    obtain ⟨hspans, rfl⟩ := start
    dsimp only
    rw [m.tag?_integral, m.name_integral]
    cases m.tag? with
    | none => exact ⟨hspans, rfl⟩
    | some tag =>
      have hplace := h.placement? m.name
      generalize l.placement? m.name = found, l'.placement? m.name = found' at hplace
      cases hplace with
      | none => exact ⟨hspans, rfl⟩
      | @some q q' hq =>
        have hsize := hq.natural.isWhole
        have hstop : q.stop.IsWhole := hq.start.add hsize
        have hempty : (q'.size.val == whole 0) = (q.size.val == whole 0) := by
          rw [hq.size]
          exact (Quantity.beq_eq hsize (Quantity.isWhole_whole 0)).symm
        have hbefore : WholeSpan ((Table.find? tag spans).getD (q.offset, q.stop)) := by
          cases hfound : Table.find? tag spans with
          | none => exact ⟨hq.start, hstop⟩
          | some span => exact hspans _ (Table.mem_of_find? hfound)
        have hbefore' : ((Table.mapValues integerSpan spans).find? tag).getD (q'.offset, q'.stop) =
            integerSpan ((Table.find? tag spans).getD (q.offset, q.stop)) := by
          rw [Table.find?_mapValues, hq.offset, hq.stop]
          cases Table.find? tag spans <;> rfl
        dsimp only
        rw [hempty, hbefore', hq.offset, hq.stop]
        generalize (Table.find? tag spans).getD (q.offset, q.stop) = before at hbefore
        split
        · exact ⟨hspans, rfl⟩
        · refine ⟨Table.forall_insert hspans ⟨hbefore.1.smaller hq.start,
            hbefore.2.larger hstop⟩, ?_⟩
          rw [Table.insert_mapValues]
          unfold integerSpan
          rw [Quantity.integer_smaller hbefore.1 hq.start, Quantity.integer_larger hbefore.2 hstop]

theorem straddlingGroups_integral (h : l.StandsFor l') (a : Aggregate Quantity)
    (line : PowerOfTwo) : straddlingGroups a.integral l' line = straddlingGroups a l line := by
  obtain ⟨hwhole, hspans⟩ := groupSpans_integral h a
  unfold straddlingGroups Table.values
  dsimp only
  rw [hspans]
  unfold Table.mapValues
  rw [List.map_map, List.countP_map, List.countP_map]
  refine List.countP_congr fun x hx => ?_
  obtain ⟨hstart, hstop⟩ := hwhole x hx
  have hone : (whole 1 : Quantity).IsWhole := Quantity.isWhole_whole 1
  have hline := Quantity.beq_eq (Quantity.IsWhole.floorDiv hstart line.val)
    (Quantity.IsWhole.floorDiv (hstop.sub hone) line.val)
  rw [Quantity.integer_floorDiv hstart, Quantity.integer_floorDiv (hstop.sub hone),
    Quantity.integer_sub hstop hone] at hline
  exact Bool.eq_iff_iff.mp (congrArg not hline).symm

end Spans

namespace PackingUnit

def integral (u : PackingUnit Quantity) : PackingUnit Int where
  members := u.members.map Member.integral
  alignment := u.alignment
  position := u.position

variable {rules : PackingRules} {units : List (PackingUnit Quantity)} {u v : PackingUnit Quantity}

@[simp] theorem tag?_integral (u : PackingUnit Quantity) : u.integral.tag? = u.tag? := by
  unfold tag? integral
  dsimp only
  cases u.members with
  | nil => rfl
  | cons m rest => exact m.tag?_integral

theorem join_integral (tag : String) (m : Member Quantity) (alignment : PowerOfTwo)
    (position : Nat) (units : List (PackingUnit Quantity)) :
    (join tag m alignment position units).map integral =
      join tag m.integral alignment position (units.map integral) := by
  induction units with
  | nil => rfl
  | cons u rest ih =>
    rw [List.map_cons]
    unfold join
    rw [u.tag?_integral]
    split
    · unfold integral
      rw [List.map_cons, List.map_append]
      rfl
    · rw [List.map_cons, ih]

theorem add_integral (rules : PackingRules) (m : Member Quantity) (alignment : PowerOfTwo)
    (position : Nat) (units : List (PackingUnit Quantity)) :
    (add rules m alignment position units).map integral =
      add rules m.integral alignment position (units.map integral) := by
  have alone : (units ++ [({ members := [m], alignment, position } : PackingUnit Quantity)]).map
      integral = units.map integral ++ [{ members := [m.integral], alignment, position }] :=
    List.map_append
  unfold add
  rw [m.tag?_integral]
  cases m.tag? with
  | none => exact alone
  | some tag =>
    dsimp only
    split
    · exact join_integral ..
    · exact alone

theorem cluster_integral (rules : PackingRules) (units : List (PackingUnit Quantity))
    (u : PackingUnit Quantity) :
    cluster rules (units.map integral) u.integral = cluster rules units u := by
  have hleader : (units.map integral).find? (fun v => v.tag? == u.tag? &&
      v.alignment.val == u.integral.alignment.val) =
      (units.find? fun v => v.tag? == u.tag? && v.alignment.val == u.alignment.val).map
        integral := by
    rw [List.find?_map]
    refine congrArg (fun test => (units.find? test).map integral) (funext fun v => ?_)
    exact congrArg (fun tag => tag == u.tag? && v.alignment.val == u.alignment.val)
      v.tag?_integral
  unfold cluster
  rw [u.tag?_integral, hleader]
  cases units.find? fun v => v.tag? == u.tag? && v.alignment.val == u.alignment.val <;> rfl

theorem sort_integral (rules : PackingRules) (units : List (PackingUnit Quantity)) :
    (sort rules units).map integral = sort rules (units.map integral) := by
  refine List.map_mergeSort fun u _ v _ => ?_
  unfold precedes
  rw [cluster_integral, cluster_integral]
  rfl

theorem members_flatMap_integral (units : List (PackingUnit Quantity)) :
    (units.map integral).flatMap (·.members) =
      (units.flatMap (·.members)).map Member.integral := by
  rw [List.flatMap_map, List.map_flatMap]
  rfl

end PackingUnit

theorem Aggregate.withUnits_integral (a : Aggregate Quantity)
    (units : List (PackingUnit Quantity)) :
    (a.withUnits units).integral = a.integral.withUnits (units.map PackingUnit.integral) := by
  cases a
  unfold withUnits
  rw [PackingUnit.members_flatMap_integral]
  simp only [Aggregate.integral, integralMembers_eq]

namespace Target

section Orders

variable {t : Target Quantity} {a b : Aggregate Quantity}

theorem isWhole_of_members (ha : a.IsWhole) (h : b.members ⊆ a.members) : b.IsWhole :=
  .mk fun _ hm => ha.member (h hm)

theorem ShortBelow.of_members (hshort : t.ShortBelow a) (h : b.members ⊆ a.members) :
    t.ShortBelow b := by
  refine shortBelow_of_nests (fun m hm => hshort a .refl m (h hm)) ?_
  rintro c ⟨m, hm, hc⟩
  exact hshort.nests ⟨m, h hm, hc⟩

end Orders

end Target

/-- The integers of an arrangement of some of the members of an aggregate. -/
structure Arrangement.StandsFor (a : Aggregate Quantity) (s : Arrangement Quantity)
    (s' : Arrangement Int) : Prop where
  units : s'.units = s.units.map PackingUnit.integral
  members : s.units.flatMap (·.members) ⊆ a.members
  aggregate : s'.aggregate = s.aggregate.integral
  layout : s.layout.StandsFor s'.layout

/-- The integers of a packing. -/
structure Repack.StandsFor (r : Repack Quantity) (r' : Repack Int) : Prop where
  given : r'.given = r.given.integral
  aggregate : r'.aggregate = r.aggregate.integral
  givenLayout : r.givenLayout.StandsFor r'.givenLayout
  layout : r.layout.StandsFor r'.layout
  outgrown : r'.outgrown = r.outgrown.map Quantity.integer

theorem Layout.StandsFor.totalSize_lt_iff {l k : Layout Quantity} {l' k' : Layout Int}
    (hl : l.StandsFor l') (hk : k.StandsFor k') :
    l'.totalSize < k'.totalSize ↔ l.totalSize < k.totalSize := by
  rw [hl.totalSize, hk.totalSize]
  exact (Quantity.lt_iff hl.isWhole.totalSize.isWhole hk.isWhole.totalSize.isWhole).symm

theorem Layout.StandsFor.totalSize_le_iff {l k : Layout Quantity} {l' k' : Layout Int}
    (hl : l.StandsFor l') (hk : k.StandsFor k') :
    l'.totalSize ≤ k'.totalSize ↔ l.totalSize ≤ k.totalSize := by
  rw [hl.totalSize, hk.totalSize]
  exact (Quantity.le_iff hl.isWhole.totalSize.isWhole hk.isWhole.totalSize.isWhole).symm

namespace Target

variable {t : Target Quantity} {a b : Aggregate Quantity} {units : List (PackingUnit Quantity)}
  {s : Arrangement Quantity} {s' : Arrangement Int} {rules : PackingRules}

theorem straddling_integral (h : s.StandsFor a s') : t.integral.straddling s' = t.straddling s := by
  unfold straddling
  rw [h.aggregate, straddlingGroups_integral h.layout]
  rfl

theorem abreast_units (ht : t.IsWhole) (ha : a.IsWhole) (hshort : t.ShortBelow a)
    (rules : PackingRules) :
    digits.Abreast (fun units units' => units' = units.map PackingUnit.integral ∧
      units.flatMap (·.members) ⊆ a.members) (t.units rules a) (t.integral.units rules a.integral)
      := by
  have hmembers : List.Forall₂ (fun x x' => x.1 ∈ a.members ∧ x' = (x.1.integral, x.2))
      a.members.zipIdx a.integral.members.zipIdx := by
    rw [a.members_integral, List.zipIdx_map, List.forall₂_map_right_iff]
    exact List.forall₂_same.mpr fun x hx => ⟨List.fst_mem_of_mem_zipIdx hx, rfl⟩
  unfold Target.units
  refine .foldlM ?_ hmembers ⟨rfl, List.nil_subset _⟩
  rintro ⟨m, position⟩ _ units _ ⟨hm, rfl⟩ ⟨rfl, hunits⟩
  refine (abreast_memberType ht ha hshort hm).bind fun d d' hd => .done ⟨?_, ?_⟩
  · rw [PackingUnit.add_integral, hd.2, d.alignment_integral]
  · intro n hn
    have hn := (PackingUnit.add_perm rules m d.alignment position units).subset hn
    rcases List.mem_append.mp hn with hn | hn
    · exact hunits hn
    · exact List.mem_singleton.mp hn ▸ hm

theorem abreast_arrange (ht : t.IsWhole) (ha : a.IsWhole) (hshort : t.ShortBelow a)
    (b : Aggregate Quantity) (h : units.flatMap (·.members) ⊆ a.members) :
    digits.Abreast (Arrangement.StandsFor a) (t.arrange b units)
      (t.integral.arrange b.integral (units.map PackingUnit.integral)) := by
  have hmembers : (b.withUnits units).members ⊆ a.members := h
  unfold arrange
  dsimp only
  rw [← b.withUnits_integral]
  refine (abreast_layout ht (isWhole_of_members ha hmembers) (hshort.of_members hmembers)).bind
    fun l l' hl => .done ⟨rfl, h, rfl, hl⟩

theorem abreast_exchange (ht : t.IsWhole) (ha : a.IsWhole) (hshort : t.ShortBelow a)
    (h : s.StandsFor a s') (n : Nat) :
    digits.Abreast (Arrangement.StandsFor a) (t.exchange s n) (t.integral.exchange s' n) := by
  unfold exchange
  rw [h.units, List.getElem?_map, List.getElem?_map]
  cases s.units[n]? with
  | none => exact .done h
  | some u =>
    cases s.units[n + 1]? with
    | none => exact .done h
    | some v =>
      dsimp only [Option.map_some]
      rw [u.tag?_integral, v.tag?_integral]
      change digits.Abreast _ (if (u.alignment.val ≠ v.alignment.val || _ : Bool) then _ else _)
        (if (u.alignment.val ≠ v.alignment.val || _ : Bool) then _ else _)
      split
      · exact .done h
      · rw [← map_swapAt, h.aggregate]
        have hswapped : (swapAt n s.units).flatMap (·.members) ⊆ a.members :=
          List.Subset.trans ((swapAt_perm n s.units).flatMap_right _).subset h.members
        refine (abreast_arrange ht ha hshort s.aggregate hswapped).bind
          fun trial trial' htrial => ?_
        have hsize : decide (trial'.layout.totalSize ≤ s'.layout.totalSize) =
            decide (trial.layout.totalSize ≤ s.layout.totalSize) :=
          decide_eq_decide.mpr (htrial.layout.totalSize_le_iff h.layout)
        rw [straddling_integral h, straddling_integral htrial, hsize]
        split
        · exact .done htrial
        · exact .done h

theorem abreast_settle (ht : t.IsWhole) (ha : a.IsWhole) (hshort : t.ShortBelow a)
    (h : s.StandsFor a s') (passes : Nat) :
    digits.Abreast (Arrangement.StandsFor a) (t.settle passes s) (t.integral.settle passes s') := by
  induction passes generalizing s s' with
  | zero => exact .done h
  | succ passes ih =>
    have hall : digits.Abreast (Arrangement.StandsFor a) (t.exchangeAll s)
        (t.integral.exchangeAll s') := by
      unfold exchangeAll
      rw [h.units, List.length_map]
      refine .foldlM (I := Eq) ?_ (List.forall₂_refl _) h
      rintro n _ s s' rfl hs
      exact abreast_exchange ht ha hshort hs n
    unfold settle
    rw [straddling_integral h]
    split
    · exact .done h
    · refine hall.bind fun next next' hnext => ?_
      rw [straddling_integral hnext]
      split
      · exact ih hnext
      · exact .done hnext

theorem abreast_pack (ht : t.IsWhole) (ha : a.IsWhole) (hshort : t.ShortBelow a)
    (rules : PackingRules) :
    digits.Abreast (Arrangement.StandsFor a) (t.pack rules a)
      (t.integral.pack rules a.integral) := by
  unfold pack
  refine (abreast_units ht ha hshort rules).bind ?_
  rintro units _ ⟨rfl, hunits⟩
  have hsorted : (PackingUnit.sort rules units).flatMap (·.members) ⊆ a.members :=
    List.Subset.trans ((PackingUnit.sort_perm rules units).flatMap_right _).subset hunits
  rw [← PackingUnit.sort_integral, List.length_map]
  refine (abreast_arrange ht ha hshort a hsorted).bind fun s s' hs => ?_
  split
  · exact abreast_settle ht ha hshort hs _
  · exact .done hs

/-- Packing in whole quantities comes to what packing in integers does, or both fail alike, but for
numbers with too many digits. -/
theorem abreast_repack (ht : t.IsWhole) (ha : a.IsWhole) (hshort : t.ShortBelow a)
    (rules : PackingRules) :
    digits.Abreast Repack.StandsFor (t.repack rules a) (t.integral.repack rules a.integral) := by
  have hfixed : a.integral.hasFixedSize = a.hasFixedSize := by
    unfold Aggregate.hasFixedSize
    rw [a.isUnion_integral, a.packed_integral]
  unfold repack
  refine (abreast_layout ht ha hshort).bind fun l l' hl => ?_
  dsimp only
  rw [hfixed]
  split
  · exact .done ⟨rfl, rfl, hl, hl, rfl⟩
  · refine (abreast_pack ht ha hshort rules).bind fun s s' hs => ?_
    rw [if_congr (hl.totalSize_lt_iff hs.layout) rfl rfl]
    split
    · exact .done ⟨rfl, rfl, hl, hl, congrArg some hs.layout.totalSize⟩
    · exact .done ⟨rfl, hs.aggregate, hl, hs.layout, rfl⟩

/-- What is packed in quantities is packed alike in the integers that they stand for. -/
theorem exists_integral_repack {r : Repack Quantity} (ht : t.IsWhole) (ha : a.IsWhole)
    (h : t.repack rules a = .ok r) :
    ∃ r', t.integral.repack rules a.integral = .ok r' ∧ r.StandsFor r' := by
  obtain ⟨l, hl, _⟩ := except_bind_eq_ok.mp h
  have habreast := abreast_repack ht ha (shortBelow_of_layout ht.catalog ha hl) rules
  rw [h] at habreast
  generalize t.integral.repack rules a.integral = y at habreast
  cases habreast with
  | right hg => exact hg.elim
  | done hr => exact ⟨_, rfl, hr⟩

end Target

end AggregateLayout
