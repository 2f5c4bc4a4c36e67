import Mathlib
import AggregateLayout.Proofs.Infallible
import AggregateLayout.Proofs.IntegerLayouts

namespace AggregateLayout

open Relation (ReflTransGen TransGen)
open AggregateLayout.Measure (whole)

structure Member.SuitsBits (m : Member Quantity) (width : Quantity) (d : TypeDescriptor Quantity) :
    Prop where
  single : m.dims = []
  scalar : d.kind = .scalar
  integer : d.isInteger = true
  positive : whole 1 ≤ width
  within : width ≤ whole 8 * d.size.val

namespace Target

/-- The names, types, dimensions and bitfields of the members are in order. -/
structure InOrder (t : Target Quantity) (a : Aggregate Quantity) : Prop where
  named : "" ∉ a.memberNames
  distinct : a.memberNames.Nodup
  resolves : ∀ m ∈ a.members, ∀ name, m.type = .named name → t.catalog.contains name = true
  lengths : ∀ m ∈ a.members, ∀ n ∈ m.dims, whole 0 ≤ n
  bitfields : ∀ m ∈ a.members, ∀ width, m.bits = some width →
    ∃ d, t.flat? m.type = some d ∧ m.SuitsBits width d

variable {t : Target Quantity} {a b : Aggregate Quantity} {m : Member Quantity}
  {d : TypeDescriptor Quantity} {width : Quantity}

theorem suitsBits_iff (hd : d.IsWhole) (hwidth : width.IsWhole) :
    m.integral.FitsBits width.integer d.integral ↔ m.SuitsBits width d := by
  have hone : (whole 1 : Quantity).IsWhole := Quantity.isWhole_whole 1
  have height : (whole 8 : Quantity).IsWhole := Quantity.isWhole_whole 8
  have hpositive : whole 1 ≤ width ↔ 1 ≤ width.integer := Quantity.le_iff hone hwidth
  have hwithin : width ≤ whole 8 * d.size.val ↔ width.integer ≤ 8 * d.size.val.integer := by
    rw [Quantity.le_iff hwidth (height.mul hd.size.isWhole),
      Quantity.integer_mul height hd.size.isWhole]
    rfl
  constructor
  · intro h
    refine ⟨?_, d.kind_integral ▸ h.scalar, d.isInteger_integral ▸ h.integer,
      hpositive.mpr h.positive, hwithin.mpr ?_⟩
    · exact List.map_eq_nil_iff.mp (m.dims_integral ▸ h.single)
    · have hsize : d.integral.size.val = d.size.val.integer :=
        congrArg Size.val (TypeDescriptor.size_integral hd)
      exact hsize ▸ h.within
  · intro h
    refine ⟨?_, d.kind_integral.trans h.scalar, d.isInteger_integral.trans h.integer,
      hpositive.mp h.positive, ?_⟩
    · rw [m.dims_integral, h.single]
      rfl
    · rw [TypeDescriptor.size_integral hd]
      exact hwithin.mp h.within

theorem flat?_integral (t : Target Quantity) (r : TypeRef Quantity) :
    t.integral.flat? r.integral = (t.flat? r).map TypeDescriptor.integral := by
  cases r with
  | named name =>
    have hnested := t.catalog.nested?_integral name
    have hdescribe := t.catalog.describe_integral name
    change (if (t.catalog.integral.nested? name).isSome then _ else
      (t.catalog.integral.describe name).toOption) = _
    rw [hnested, hdescribe, Option.isSome_map]
    unfold flat?
    dsimp only
    split
    · rfl
    · cases t.catalog.describe name <;> rfl
  | descriptor => rfl
  | inline => rfl

theorem contains_integral (t : Target Quantity) (name : String) :
    t.integral.catalog.contains name = t.catalog.contains name := by
  have htypes := Table.find?_mapValues TypeDescriptor.integral t.catalog.types
    (t.catalog.resolve name)
  have haggregates := Table.find?_mapValues Aggregate.integral t.catalog.aggregates
    (t.catalog.resolve name)
  unfold Catalog.contains Table.contains
  change ((Table.find? (t.catalog.resolve name) (t.catalog.types.mapValues _)).isSome ||
    (Table.find? (t.catalog.resolve name) (t.catalog.aggregates.mapValues _)).isSome || _) = _
  rw [htypes, haggregates, Option.isSome_map, Option.isSome_map]
  rfl

theorem sound_integral (ht : t.catalog.IsWhole) (ha : a.IsWhole) :
    t.integral.Sound a.integral ↔ t.InOrder a := by
  have hlength {m : Member Quantity} (hm : m ∈ a.members) {n : Quantity} (hn : n ∈ m.dims) :
      whole 0 ≤ n ↔ 0 ≤ n.integer :=
    Quantity.le_iff (Quantity.isWhole_whole 0) ((ha.member hm).dims n hn)
  constructor
  · intro h
    refine ⟨a.memberNames_integral ▸ h.named, a.memberNames_integral ▸ h.distinct,
      fun m hm name htype => ?_, fun m hm n hn => ?_, fun m hm width hbits => ?_⟩
    all_goals have hmem : m.integral ∈ a.integral.members :=
      a.members_integral ▸ List.mem_map_of_mem hm
    · rw [← t.contains_integral]
      exact h.resolves _ hmem name (by rw [m.type_integral, htype]; rfl)
    · refine (hlength hm hn).mpr (h.lengths _ hmem _ ?_)
      exact m.dims_integral ▸ List.mem_map_of_mem hn
    · have hinteger : m.integral.bits = some width.integer := by
        rw [m.bits_integral, hbits]
        rfl
      obtain ⟨_, hflat, hfits⟩ := h.bitfields _ hmem width.integer hinteger
      rw [m.type_integral, flat?_integral, Option.map_eq_some_iff] at hflat
      obtain ⟨d, hd, rfl⟩ := hflat
      have hwhole := isWhole_flat? ht (ha.member hm).type hd
      exact ⟨d, hd, (suitsBits_iff hwhole ((ha.member hm).bits hbits)).mp hfits⟩
  · intro h
    refine ⟨a.memberNames_integral ▸ h.named, a.memberNames_integral ▸ h.distinct, ?_, ?_, ?_⟩
    all_goals
      rw [a.members_integral]
      refine List.forall_mem_map.mpr fun m hm => ?_
    · intro name htype
      rw [t.contains_integral]
      refine h.resolves m hm name ?_
      rw [m.type_integral] at htype
      cases hr : m.type <;> rw [hr] at htype <;> cases htype
      rfl
    · rw [m.dims_integral]
      exact List.forall_mem_map.mpr fun n hn => (hlength hm hn).mp (h.lengths m hm n hn)
    · intro n hbits
      rw [m.bits_integral, Option.map_eq_some_iff] at hbits
      obtain ⟨width, hbits, rfl⟩ := hbits
      obtain ⟨d, hd, hsuits⟩ := h.bitfields m hm width hbits
      have hwhole := isWhole_flat? ht (ha.member hm).type hd
      refine ⟨d.integral, ?_, (suitsBits_iff hwhole ((ha.member hm).bits hbits)).mpr hsuits⟩
      rw [m.type_integral, flat?_integral, hd]
      rfl

theorem nestsWithin_integral {levels : Nat} (h : t.NestsWithin levels a) :
    t.integral.NestsWithin levels a.integral := by
  induction levels generalizing a with
  | zero => exact h
  | succ levels ih =>
    intro c hc
    obtain ⟨b, hb, rfl⟩ := nests_integral.mp hc
    exact ih (h b hb)

theorem chain_integral {c : Aggregate Int} (h : TransGen t.integral.Nests a.integral c) :
    ∃ b, TransGen t.Nests a b ∧ b.integral = c := by
  obtain ⟨_, hb, hc⟩ := TransGen.tail'_iff.mp h
  obtain ⟨b, hbelow, rfl⟩ := below_integral.mp hb
  obtain ⟨c, hnests, rfl⟩ := nests_integral.mp hc
  exact ⟨c, TransGen.tail' hbelow hnests, rfl⟩

theorem distinct_integral (h : t.Distinct a) : t.integral.Distinct a.integral := by
  constructor
  · intro b' c' hb hc hname
    obtain ⟨b, hbelow, rfl⟩ := below_integral.mp hb
    obtain ⟨c, hchain, rfl⟩ := chain_integral hc
    rw [b.name_integral] at hname ⊢
    rw [c.name_integral]
    exact h.chains b c hbelow hchain hname
  · intro b' hb
    obtain ⟨b, hbelow, rfl⟩ := below_integral.mp hb
    rw [b.name_integral]
    exact h.named b hbelow

theorem exists_layout_integral {levels : Nat} (ht : t.IsWhole) (ha : a.IsWhole)
    (hlevels : whole levels ≤ t.maxDepth) (hdepth : t.NestsWithin levels a)
    (hdistinct : t.Distinct a) (horder : ∀ b, ReflTransGen t.Nests a b → t.InOrder b) :
    ∃ l, t.integral.layout a.integral = .ok l := by
  have henough : levels ≤ t.integral.levels := by
    have hinteger : (levels : Int) ≤ t.maxDepth.integer :=
      (Quantity.le_iff (Quantity.isWhole_whole levels) ht.maxDepth).mp hlevels
    change levels ≤ t.maxDepth.integer.toNat
    omega
  refine exists_layout ((nestsWithin_integral hdepth).mono henough)
    (distinct_integral hdistinct) fun c hc => ?_
  obtain ⟨b, hb, rfl⟩ := below_integral.mp hc
  exact (sound_integral ht.catalog (isWhole_below ht.catalog ha hb)).mpr (horder b hb)

end Target

/-- Where aggregates do not nest too deep and their names stay apart, there is a layout exactly if
everything is in order and all numbers that are written on the way can be. Else there is a layout
error, or a number is too long. -/
theorem layout_accepts (t : Target Quantity) (a : Aggregate Quantity) (levels : Nat)
    (ht : t.IsWhole) (ha : a.IsWhole) (hlevels : whole levels ≤ t.maxDepth)
    (hdepth : t.NestsWithin levels a) (hdistinct : t.Distinct a) :
    ((∃ l, t.layout a = .ok l) ↔
      (∀ b, ReflTransGen t.Nests a b → t.InOrder b) ∧
      (∀ b, ReflTransGen t.Nests a b → ∀ m ∈ b.members, ∀ n ∈ m.dims, ¬ n.IsTooLong) ∧
      ∀ n, t.Notes a n → ¬ n.IsTooLong) ∧
    ((¬ ∃ l, t.layout a = .ok l) → (∃ e, t.layout a = .error (.invalid e)) ∨
      t.layout a = .error (.number .tooManyDigits) ∧ ∃ n, t.Notes a n ∧ n.IsTooLong) := by
  refine ⟨⟨fun ⟨l, hl⟩ => ⟨fun b hb => ?order, ?lengths, fun n hn hlong => ?notes⟩,
    fun ⟨horder, hshort, hnotes⟩ => ?converse⟩, fun hnone => ?otherwise⟩
  case order =>
    obtain ⟨l', hl', _⟩ := Target.exists_integral_layout ht ha hl
    have hsound := (Target.lays_of_layout hl').sound_below (Target.below_integral.mpr ⟨b, hb, rfl⟩)
    exact (Target.sound_integral ht.catalog (Target.isWhole_below ht.catalog ha hb)).mp hsound
  case lengths => exact Target.shortBelow_of_layout ht.catalog ha hl
  case notes =>
    have hfails := (Target.layout_number ht ha).mpr ⟨rfl, n, hn, hlong⟩
    cases hl.symm.trans hfails
  case converse =>
    -- The integers have a layout, so only a number can stop the quantities, and none does.
    have habreast := Target.abreast_layout ht ha hshort
    obtain ⟨l', hl'⟩ := Target.exists_layout_integral ht ha hlevels hdepth hdistinct horder
    cases hl : t.layout a with
    | ok l => exact ⟨l, rfl⟩
    | error f =>
      rw [hl, hl'] at habreast
      cases habreast with
      | left hf =>
        obtain ⟨_, n, hn, hlong⟩ := (Target.layout_number ht ha).mp (hf ▸ hl)
        exact absurd hlong (hnotes n hn)
  case otherwise =>
    cases hl : t.layout a with
    | ok l => exact absurd ⟨l, hl⟩ hnone
    | error f =>
      cases f with
      | invalid e => exact .inl ⟨e, rfl⟩
      | number fault =>
        obtain ⟨rfl, hlong⟩ := (Target.layout_number ht ha).mp hl
        exact .inr ⟨rfl, hlong⟩

theorem isWhole_headers : (headers : Aggregate Quantity).IsWhole := by
  have hbyte : (byte : TypeDescriptor Quantity).IsWhole := Quantity.isWhole_whole 1
  have hheader : (header : Aggregate Quantity).IsWhole := by
    refine .mk (List.forall_mem_cons.mpr ⟨.mk (.descriptor hbyte) nofun ?_, ?_⟩)
    · rintro _ ⟨⟩
      exact Quantity.isWhole_whole 3
    · refine List.forall_mem_singleton.mpr (.mk (.descriptor hbyte) ?_ nofun)
      exact List.forall_mem_singleton.mpr (Quantity.isWhole_whole 2)
  refine .mk (List.forall_mem_singleton.mpr (.mk (.inline hheader) ?_ nofun))
  exact List.forall_mem_cons.mpr ⟨Quantity.isWhole_whole 4, List.forall_mem_singleton.mpr
    (Quantity.isWhole_whole 0)⟩

theorem layout_accepts_headers :
    (Target.ofProfile .lp64 : Target Quantity).IsWhole ∧ (headers : Aggregate Quantity).IsWhole ∧
      (Target.ofProfile .lp64).NestsWithin 2 (headers : Aggregate Quantity) ∧
      (Target.ofProfile .lp64).Distinct (headers : Aggregate Quantity) ∧
      (Target.ofProfile .lp64).InOrder headers := by
  have htarget : (Target.ofProfile .lp64).IsWhole := Target.isWhole_ofProfile ⟨16, rfl⟩
  have hlayout : ∃ l, (Target.ofProfile .lp64).layout (headers : Aggregate Quantity) = .ok l := by
    decide +kernel
  refine ⟨htarget, isWhole_headers, nestsWithin_headers, distinct_headers, ?_⟩
  exact ((layout_accepts _ headers 2 htarget isWhole_headers (by decide) nestsWithin_headers
    distinct_headers).1.mp hlayout).1 _ .refl

theorem layout_stops_unwritable :
    (Target.ofProfile .lp64).NestsWithin 1 Aggregate.unwritable ∧
      (Target.ofProfile .lp64).Distinct Aggregate.unwritable ∧
      ¬ (Target.ofProfile .lp64).InOrder Aggregate.unwritable ∧
      ∃ f, (Target.ofProfile .lp64).layout .unwritable = .error f ∧ ∀ e, f ≠ .invalid e := by
  have hflat (b : Aggregate Quantity) : ¬ (Target.ofProfile .lp64).Nests .unwritable b := by
    have hnone (name : String) :
        (Catalog.ofProfile .lp64 : Catalog Quantity).nested? name = none := by
      unfold Catalog.nested? Catalog.aggregate?
      rw [Catalog.aggregates_ofProfile]
      split <;> rfl
    rintro ⟨m, hm, hb⟩
    simp only [Aggregate.unwritable, List.mem_cons, List.not_mem_nil, or_false] at hm
    rcases hm with rfl | rfl <;> cases (hnone _).symm.trans hb
  have hbelow {b : Aggregate Quantity}
      (hb : ReflTransGen (Target.ofProfile .lp64).Nests .unwritable b) : b = .unwritable := by
    rcases ReflTransGen.cases_head hb with h | ⟨c, hc, _⟩
    · exact h.symm
    · exact absurd hc (hflat c)
  refine ⟨fun b hb => hflat b hb, ⟨fun b c hb hc _ => ?_, fun b hb => ?_⟩, fun h => ?_, _,
    layout_unwritable, nofun⟩
  · obtain ⟨e, he, _⟩ := TransGen.head'_iff.mp hc
    exact absurd (hbelow hb ▸ he) (hflat e)
  · rw [hbelow hb]
    decide
  · have hmissing : (Catalog.ofProfile .lp64 : Catalog Quantity).contains "mystery" = false := by
      decide +kernel
    have hfound := h.resolves _ (.tail _ (.head _)) "mystery" rfl
    cases hmissing.symm.trans hfound

end AggregateLayout
