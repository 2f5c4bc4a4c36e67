import Mathlib
import AggregateLayout.Profile.Builtin
import AggregateLayout.Proofs.Cycles
import AggregateLayout.Proofs.LongNumbers
import AggregateLayout.Proofs.Lookup

/-!
What cannot fail. Every profile has its catalog, every value that is rounded up is a natural number
and meets an alignment that it can be rounded to, and every layout has a descriptor. What is left
are layout errors and, against all that is said of them, numbers with too many digits to be written.
-/

namespace AggregateLayout

open AggregateLayout.Measure (whole)

theorem PowerOfTwo.power?_measure (a : PowerOfTwo) :
    Measure.power? (a.measure : Quantity) = some a := by
  obtain ⟨val, isPower, isFlag, isFlag_one⟩ := a
  unfold measure
  cases isFlag with
  | true =>
    obtain rfl := isFlag_one rfl
    rfl
  | false => exact dif_pos isPower

theorem PowerOfTwo.isNatural_measure (a : PowerOfTwo) : (a.measure : Quantity).IsNatural :=
  ⟨a.val, Quantity.integer?_measure a, Int.natCast_nonneg _⟩

theorem Quantity.IsNatural.not_lt_zero {q : Quantity} (h : q.IsNatural) :
    ¬ q < Measure.whole 0 := by
  obtain ⟨n, hn, hpos⟩ := h
  exact (lt_zero_iff hn).not.mpr (not_lt.mpr hpos)

theorem TypeDescriptor.make_measure {q : Quantity} (h : q.IsNatural) (name : String)
    (a : PowerOfTwo) (kind : TypeKind) (isInteger : Bool) :
    make name q a.measure kind isInteger = .ok (.basic name (.of q) a kind isInteger) := by
  unfold make Size.of
  rw [dif_neg h.not_lt_zero, dif_neg h.not_lt_zero, a.power?_measure]

namespace Catalog

def primitiveFields (p : MachineProfile Quantity) :
    List (String × Quantity × Option Quantity × Bool) :=
  (integerSizes p).map (fun (name, size) =>
      (name, size.measure, some (integerAlignment p size).measure, true)) ++
    [("float", whole 4, none, false), ("double", whole 8, some p.doubleAlignment.measure, false),
      ("long double", p.longDoubleSize, some p.longDoubleAlignment.measure, false)]

def build (p : MachineProfile Quantity) : Except (TypeFault Quantity) (Catalog Quantity) := do
  let types ← (primitiveFields p).mapM fun (name, size, alignment, isInteger) =>
    TypeDescriptor.scalar name size alignment isInteger
  let c : Catalog Quantity := types.foldl register { profile := p }
  return spellings.foldl (fun c (name, target) => c.registerAlias name target) c

variable {p : MachineProfile Quantity}

theorem isNatural_longDoubleSize (hp : p.longDoubleSize.IsWhole) : p.longDoubleSize.IsNatural := by
  obtain ⟨n, hn⟩ := hp
  refine ⟨n, hn, ?_⟩
  by_contra hnegative
  exact p.longDoubleSize_pos (.inl ((Quantity.lt_zero_iff hn).mpr (not_le.mp hnegative)))

theorem mapM_scalar (hp : p.longDoubleSize.IsWhole) :
    ((primitiveFields p).mapM fun (name, size, alignment, isInteger) =>
      TypeDescriptor.scalar name size alignment isInteger) = .ok (primitives p) := by
  have hfour : (whole 4 : Quantity).IsNatural := ⟨4, rfl, by decide⟩
  have height : (whole 8 : Quantity).IsNatural := ⟨8, rfl, by decide⟩
  rw [mapM_eq_ok]
  unfold primitiveFields primitives
  refine List.rel_append ?_ (.cons ?_ (.cons ?_ (.cons ?_ .nil)))
  · rw [List.forall₂_map_left_iff, List.forall₂_map_right_iff, List.forall₂_same]
    exact fun x _ => TypeDescriptor.make_measure x.2.isNatural_measure _ _ _ _
  · exact TypeDescriptor.make_measure hfour _ .four _ _
  · exact TypeDescriptor.make_measure height _ _ _ _
  · exact TypeDescriptor.make_measure (isNatural_longDoubleSize hp) _ _ _ _

theorem build_eq (hp : p.longDoubleSize.IsWhole) : build p = .ok (ofProfile p) := by
  unfold build
  rw [mapM_scalar hp]
  rfl

theorem isWhole_primitives (hp : p.longDoubleSize.IsWhole) : ∀ d ∈ primitives p, d.IsWhole := by
  unfold primitives
  rw [List.forall_mem_append, List.forall_mem_map]
  refine ⟨fun x _ => TypeDescriptor.isWhole_sizeOf x.2.isNatural_measure.isWhole, ?_⟩
  simp only [List.forall_mem_cons]
  refine ⟨?_, ?_, ?_, fun _ hd => (nomatch hd)⟩
  · exact TypeDescriptor.isWhole_sizeOf (Quantity.isWhole_whole 4)
  · exact TypeDescriptor.isWhole_sizeOf (Quantity.isWhole_whole 8)
  · exact TypeDescriptor.isWhole_sizeOf hp

theorem forall_values_foldl_register {P : TypeDescriptor Quantity → Prop} {c : Catalog Quantity}
    {ds : List (TypeDescriptor Quantity)} (h : ∀ d ∈ c.types.values, P d) (hds : ∀ d ∈ ds, P d) :
    ∀ d ∈ (ds.foldl register c).types.values, P d := by
  induction ds generalizing c with
  | nil => exact h
  | cons d rest ih =>
    obtain ⟨hd, hrest⟩ := List.forall_mem_cons.mp hds
    refine ih (fun e he => ?_) hrest
    rcases Table.mem_values_insert he with rfl | he
    · exact hd
    · exact h e he

theorem isWhole_values_ofProfile (hp : p.longDoubleSize.IsWhole) :
    ∀ d ∈ (ofProfile p).types.values, d.IsWhole := by
  rw [ofProfile_eq, (registerAliases_keeps _ _).2.1]
  exact forall_values_foldl_register (fun _ hd => (nomatch hd)) (isWhole_primitives hp)

theorem isWhole_ofProfile (hp : p.longDoubleSize.IsWhole) : (ofProfile p).IsWhole := by
  refine ⟨fun _ d hd => isWhole_values_ofProfile hp d (Table.mem_values_of_find? hd), ?_⟩
  rw [aggregates_ofProfile]
  exact fun _ _ ha => (nomatch ha)

end Catalog

theorem Target.isWhole_ofProfile {p : MachineProfile Quantity} (hp : p.longDoubleSize.IsWhole) :
    (Target.ofProfile p).IsWhole :=
  ⟨Catalog.isWhole_ofProfile hp, Quantity.isWhole_whole 64⟩

/-- A value that is rounded up on the way to a layout, with the alignment: the byte after which a
plain member or a new unit goes, the end of a struct, or the size of the largest member of a
union. -/
inductive Layout.Rounds (p : MachineProfile Quantity) (a : Aggregate Quantity)
    (typed : List (Member Quantity × TypeDescriptor Quantity)) : Quantity → PowerOfTwo → Prop
  | plain {s : PartialStruct Quantity} {d : TypeDescriptor Quantity}
    (hs : s.Takes p a.packed typed) :
    Rounds p a typed (s.placer.close p).cursor (Placer.alignmentOf a.packed d)
  | unit {s : PartialStruct Quantity} {d : TypeDescriptor Quantity} {width : Quantity}
    (hs : s.Takes p a.packed typed) :
    Rounds p a typed (((s.placer.closeUnless p (·.type.sameAs d)).restart p width).closeUnless p
      (·.fits width)).cursor (Placer.alignmentOf a.packed d)
  | struct {s : PartialStruct Quantity}
    (hs : s.Takes p a.packed typed) :
    Rounds p a typed (s.placer.close p).cursor (s.finish p a).totalAlignment
  | union {placements : List (Placement Quantity)}
    (hs : typed.mapM (fun x => overlay p x.1 x.2) = .ok placements) :
    Rounds p a typed (largestSize placements) (finishUnion a placements).totalAlignment

theorem Layout.Rounds.isNatural {p : MachineProfile Quantity} {a : Aggregate Quantity}
    {typed : List (Member Quantity × TypeDescriptor Quantity)} {value : Quantity}
    {alignment : PowerOfTwo} (h : Rounds p a typed value alignment) (htyped : WholeTypes typed) :
    value.IsNatural := by
  cases h with
  | plain hs => exact (hs.isWhole htyped).close.cursor
  | unit hs => exact (((hs.isWhole htyped).closeUnless _).restart.closeUnless _).cursor
  | struct hs => exact (hs.isWhole htyped).close.cursor
  | union hs => exact isNatural_largestSize htyped hs

theorem Layout.IsWhole.make_descriptor {l : Layout Quantity} (h : l.IsWhole) :
    TypeDescriptor.make (orAnonymous l.name) l.totalSize l.totalAlignment.measure .aggregate false =
      .ok l.descriptor :=
  TypeDescriptor.make_measure h.totalSize _ _ _ _

theorem withDims_negative {m : Member Quantity} {d : TypeDescriptor Quantity} (hd : d.IsWhole)
    (hm : m.IsWhole) (hnegative : ∃ n ∈ m.dims, n < whole 0) :
    ∃ f, withDims m d = .error f ∧ m.BadLength f := by
  refine (withDims_whole hd hm.dims).resolve_left ?_
  rintro ⟨_, _, _, hnonneg⟩
  obtain ⟨n, hn, hless⟩ := hnegative
  exact hnonneg n hn hless

theorem PowerOfTwo.exists_val (a : PowerOfTwo) : ∃ k, a.val = 2 ^ k := ⟨_, a.isPower⟩

/-- Every profile has a catalog of types that are valid. For whole numbers in the aggregates and in
the target, whatever is rounded up is a natural number, nested layouts have a descriptor, a
negative length is the fault of its member, and widths are only checked where there is one. What is
left to go wrong with a layout is a layout error or a number that is too long to be written, and the
latter does whenever there is one. -/
theorem fails_only_on_digits (p : MachineProfile Quantity) (t : Target Quantity) :
    (p.longDoubleSize.IsWhole →
      Catalog.build p = .ok (Catalog.ofProfile p) ∧ (Catalog.ofProfile p).IsWhole ∧
        ∀ d ∈ (Catalog.ofProfile p).types.values,
          d.size.val.IsNatural ∧ ∃ k, d.alignment.val = 2 ^ k) ∧
    (t.IsWhole →
      (∀ a : Aggregate Quantity, a.IsWhole →
        (∀ f, t.layout a = .error f →
          (∃ e, f = .invalid e) ∨ f = .number .tooManyDigits ∧ ∃ n, t.Notes a n ∧ n.IsTooLong) ∧
        ((∃ n, t.Notes a n ∧ n.IsTooLong) → t.layout a = .error (.number .tooManyDigits))) ∧
      (∀ keep levels path a memo later typed memo', a.IsWhole → memo.IsWhole →
        a.members = typed.map Prod.fst ++ later →
        t.Typing (t.nestedAt keep levels path) memo typed memo' →
        ∀ value alignment, Layout.Rounds t.profile a typed value alignment →
          value.IsNatural ∧ 1 ≤ alignment.val ∧
            Quantity.roundUp value alignment.measure = .ok (roundUp value alignment)) ∧
      (∀ keep levels path a memo l memo', a.IsWhole → memo.IsWhole →
        t.layoutAt keep levels path a memo = .ok (l, memo') →
        TypeDescriptor.make (orAnonymous l.name) l.totalSize l.totalAlignment.measure .aggregate
          false = .ok l.descriptor) ∧
      (∀ (m : Member Quantity) (d : TypeDescriptor Quantity), m.IsWhole → d.IsWhole →
        (∃ n ∈ m.dims, n < whole 0) → ∃ f, withDims m d = .error f ∧ m.BadLength f) ∧
      ∀ packed (m : Member Quantity) d (s : Placer Quantity) f,
        (s.place t.profile packed m d = .error f ↔
          ∃ width, m.bits = some width ∧ checkBitfield m width d = .error f) ∧
        (overlay t.profile m d = .error f ↔
          ∃ width, m.bits = some width ∧ checkBitfield m width d = .error f)) := by
  refine ⟨fun hp => ⟨Catalog.build_eq hp, Catalog.isWhole_ofProfile hp, fun d hd =>
    ⟨(Catalog.isWhole_values_ofProfile hp d hd).size, d.alignment.exists_val⟩⟩, fun ht => ?_⟩
  refine ⟨fun a ha => ⟨fun f hf => ?failure, fun hlong => ?digits⟩, ?rounding, ?nested, ?lengths,
    fun packed m d s f => ⟨Placer.place_eq_error, overlay_eq_error⟩⟩
  case failure =>
    cases f with
    | invalid e => exact .inl ⟨e, rfl⟩
    | number fault =>
      obtain ⟨rfl, hlong⟩ := (Target.layout_number ht ha).mp hf
      exact .inr ⟨rfl, hlong⟩
  case digits => exact (Target.layout_number ht ha).mpr ⟨rfl, hlong⟩
  case rounding =>
    intro keep levels path a memo later typed memo' ha hmemo hmembers htyping value power hrounds
    have hn := Target.keepsWhole_nestedAt ht.catalog keep levels path
    have hnatural := hrounds.isNatural (hn.earlier ht.catalog ha hmemo hmembers htyping).1
    exact ⟨hnatural, power.pos, Quantity.roundUp_measure hnatural.isWhole power⟩
  case nested =>
    intro keep levels path a memo l memo' ha hmemo hl
    exact (Target.isWhole_layoutAt ht.catalog ha hmemo hl).1.make_descriptor
  case lengths => exact fun m d hm hd => withDims_negative hd hm

theorem fails_only_on_digits_unwritable :
    (MachineProfile.lp64 : MachineProfile Quantity).longDoubleSize.IsWhole ∧
      (Target.ofProfile .lp64 : Target Quantity).IsWhole ∧ Aggregate.unwritable.IsWhole ∧
        ∃ n, (Target.ofProfile .lp64).Notes .unwritable n ∧ n.IsTooLong := by
  have hsize : (MachineProfile.lp64 : MachineProfile Quantity).longDoubleSize.IsWhole := ⟨16, rfl⟩
  have hdigits := fails_only_on_digits .lp64 (.ofProfile .lp64)
  have htarget := Target.isWhole_ofProfile hsize
  have hlayout := (hdigits.2 htarget).1 _ Aggregate.isWhole_unwritable
  refine ⟨hsize, htarget, Aggregate.isWhole_unwritable, ?_⟩
  rcases hlayout.1 _ layout_unwritable with ⟨e, he⟩ | ⟨_, hlong⟩
  · cases he
  · exact hlong

theorem fails_otherwise_unwritable : Aggregate.unwritable.IsWhole ∧
    ∃ f, (Target.ofProfile .lp64).layout .unwritable = .error f ∧ ∀ e, f ≠ .invalid e :=
  ⟨Aggregate.isWhole_unwritable, _, layout_unwritable, nofun⟩

end AggregateLayout
