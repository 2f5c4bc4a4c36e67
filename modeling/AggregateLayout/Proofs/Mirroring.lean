import Mathlib
import AggregateLayout.Proofs.Infallible
import AggregateLayout.Proofs.IntegerLayouts
import AggregateLayout.Proofs.Neighbours

namespace AggregateLayout

open AggregateLayout.Measure (whole)

def BitfieldDirection.opposite : BitfieldDirection → BitfieldDirection
  | .lowToHigh => .highToLow
  | .highToLow => .lowToHigh

section Reversed

variable {μ : Type} [Measure μ]

/-- The profile that differs in nothing but the direction of bitfields. -/
def MachineProfile.reversed (p : MachineProfile μ) : MachineProfile μ :=
  { p with bitfieldDirection := p.bitfieldDirection.opposite }

/-- The target of the reversed profile, with the same registrations. -/
def Target.reversed (t : Target μ) : Target μ :=
  { t with catalog := { t.catalog with profile := t.catalog.profile.reversed } }

def Placement.mirrored (q : Placement μ) : Placement μ :=
  { q with bits := q.bits.map fun bits =>
      { bits with offset := q.extentBits - bits.offset - bits.width } }

def HasUnit (placements : List (Placement μ)) (start unitBits : μ) : Prop :=
  ∃ q ∈ placements, q.bits.isSome ∧ q.offset = start ∧ q.extentBits = unitBits

inductive Padding.Turned (placements : List (Placement μ)) : Padding μ → Padding μ → Prop
  | bytes {offset length : μ} : Turned placements (.bytes offset length) (.bytes offset length)
  | bits {start bitOffset length unitBits : μ} (hunit : HasUnit placements start unitBits) :
    Turned placements (.bits start bitOffset length)
      (.bits start (unitBits - bitOffset - length) length)

theorem Padding.Turned.mono {ps qs : List (Placement μ)} (hps : ps ⊆ qs) {r r' : Padding μ}
    (h : r.Turned ps r') : r.Turned qs r' := by
  cases h with
  | bytes => exact .bytes
  | bits hunit =>
    obtain ⟨q, hq, hunit⟩ := hunit
    exact .bits ⟨q, hps hq, hunit⟩

theorem Padding.Turned.bitCount {ps : List (Placement μ)} {r r' : Padding μ}
    (h : r.Turned ps r') : r'.bitCount = r.bitCount := by
  cases h <;> rfl

end Reversed

variable {p : MachineProfile Quantity} {packed : Bool} {m : Member Quantity}
  {d e : TypeDescriptor Quantity} {ps : List (Placement Quantity)} {width : Quantity}

theorem bitPosition_opposite (direction : BitfieldDirection) (used : Int) {unitBits : Quantity}
    (hwidth : width.IsWhole) (hunit : unitBits.IsWhole) :
    bitPosition direction.opposite (.whole used) width unitBits =
      unitBits - bitPosition direction (.whole used) width unitBits - width := by
  cases direction with
  | lowToHigh => rfl
  | highToLow =>
    have hused : (Quantity.whole used).IsWhole := ⟨used, rfl⟩
    have hrest := hunit.sub hused
    have hposition := hrest.sub hwidth
    have hback : unitBits - (unitBits - .whole used - width) - width =
        .whole ((unitBits - (unitBits - .whole used - width)).integer - width.integer) :=
      Quantity.combine_whole (hunit.sub hposition) hwidth _ _
    change Quantity.whole used = unitBits - (unitBits - .whole used - width) - width
    rw [hback, Quantity.integer_sub hunit hposition, Quantity.integer_sub hrest hwidth,
      Quantity.integer_sub hunit hused]
    change Quantity.whole used =
      .whole (unitBits.integer - (unitBits.integer - used - width.integer) - width.integer)
    exact congrArg _ (by omega)

theorem TypeDescriptor.bitSize_eq_of_sameAs (hd : d.IsWhole) (he : e.IsWhole)
    (h : d.sameAs e = true) : d.bitSize = e.bitSize := by
  have hplain := plain_eq_of_sameAs ((sameAs_integral hd he).trans h)
  have hsize := congrArg Size.val (size_of_plain_eq hplain)
  rw [size_integral hd, size_integral he] at hsize
  have height : (whole 8 : Quantity).IsWhole := Quantity.isWhole_whole 8
  have hproduct {d : TypeDescriptor Quantity} (hd : d.IsWhole) :
      d.bitSize = .whole (d.size.val.integer * 8) :=
    Quantity.combine_whole hd.size.isWhole height _ _
  rw [hproduct hd, hproduct he]
  exact congrArg (fun n : Int => Quantity.whole (n * 8)) hsize

def eitherStops : Tolerance Quantity Quantity where
  left f := f = .number .tooManyDigits
  right g := g = .number .tooManyDigits
  both := Eq
  located_left := @LayoutFailure.located_number _ .tooManyDigits
  located_right := @LayoutFailure.located_number _ .tooManyDigits
  located_both a m h := congrArg (·.located a m) h

theorem eitherStops_refl {α : Type} (x : Except (LayoutFailure Quantity) α) :
    eitherStops.Abreast Eq x x := by
  cases x with
  | error f => exact .both rfl
  | ok a => exact .done rfl

theorem eitherStops_written {q q' : Placement Quantity} (hq : q.IsWhole) (hq' : q'.IsWhole) :
    eitherStops.Abreast (fun _ _ => True) (q.written.mapError LayoutFailure.number)
      (q'.written.mapError LayoutFailure.number) := by
  have stops {q : Placement Quantity} (hq : q.IsWhole) {fault : NumberFault}
      (h : q.written = .error fault) : fault = .tooManyDigits := by
    rw [q.written_eq, forM_written_eq_error hq] at h
    exact h.1
  cases hw : q.written with
  | error fault =>
    obtain rfl := stops hq hw
    exact .left rfl
  | ok _ =>
    cases hw' : q'.written with
    | error fault =>
      obtain rfl := stops hq' hw'
      exact .right rfl
    | ok _ => exact .done trivial

theorem Placement.IsWhole.mirrored {q : Placement Quantity} (h : q.IsWhole) :
    q.mirrored.IsWhole := by
  obtain ⟨name, typeName, offset, size, alignment, bits⟩ := q
  cases bits with
  | none => exact h
  | some bits =>
    simp only [Placement.IsWhole, numbers, Placement.mirrored, Option.map_some, Option.getD_some,
      List.cons_append, List.nil_append, List.forall_mem_cons] at h ⊢
    obtain ⟨hoffset, hsize, hbits, hwidth, hnil⟩ := h
    have hextent := hsize.mul (Quantity.isWhole_whole 8)
    exact ⟨hoffset, hsize, (hextent.sub hbits).sub hwidth, hwidth, hnil⟩

namespace Placer

/-- The two have come to the same, but for the padding inside units. -/
structure Mirrors (ps : List (Placement Quantity)) (s s' : Placer Quantity) : Prop where
  isWhole : s.IsWhole
  cursor : s'.cursor = s.cursor
  unit : s'.unit = s.unit
  unitStart : s'.unitStart = s.unitStart
  padding : List.Forall₂ (Padding.Turned ps) s.padding s'.padding
  opened : ∀ u, s.unit = some u →
    HasUnit ps s.unitStart u.type.bitSize ∧ ∃ n, u.used = .whole n

namespace Mirrors

variable {s s' : Placer Quantity}

theorem start : Mirrors [] {} {} :=
  ⟨isWhole_start, rfl, rfl, rfl, .nil, fun _ hu => (nomatch hu)⟩

theorem align (h : Mirrors ps s s') (a : PowerOfTwo) : Mirrors ps (s.align a) (s'.align a) := by
  have hwhole := h.isWhole.align a
  obtain ⟨cursor, unit, unitStart, padding⟩ := s
  obtain ⟨cursor', unit', unitStart', padding'⟩ := s'
  obtain ⟨-, hcursor, hunit, hstart, hpadding, hopened⟩ := h
  cases hcursor
  cases hunit
  cases hstart
  unfold Placer.align at hwhole ⊢
  dsimp only at *
  by_cases hgap : cursor < roundUp cursor a
  · simp only [if_pos hgap] at hwhole ⊢
    exact ⟨hwhole, rfl, rfl, rfl, List.rel_append hpadding (.cons .bytes .nil), hopened⟩
  · simp only [if_neg hgap] at hwhole ⊢
    exact ⟨hwhole, rfl, rfl, rfl, hpadding, hopened⟩

theorem padUnit {u : StorageUnit Quantity} (h : Mirrors ps s s') (hu : s.unit = some u)
    {length : Quantity} (hlength : length.IsWhole) :
    List.Forall₂ (Padding.Turned ps)
      (s.padding ++ [u.padding p.bitfieldDirection s.unitStart length])
      (s'.padding ++ [u.padding p.reversed.bitfieldDirection s.unitStart length]) := by
  obtain ⟨hunit, n, hused⟩ := h.opened u hu
  have hbits := (h.isWhole.unit u hu).type.bitSize
  refine List.rel_append h.padding (.cons ?_ .nil)
  unfold StorageUnit.padding
  rw [show p.reversed.bitfieldDirection = p.bitfieldDirection.opposite from rfl, hused,
    bitPosition_opposite _ _ hlength hbits]
  exact .bits hunit

theorem close (h : Mirrors ps s s') : Mirrors ps (s.close p) (s'.close p.reversed) := by
  have hwhole := h.isWhole.close (p := p)
  have hpad := fun u hu => h.padUnit (p := p) (u := u) hu
    ((h.isWhole.unit u hu).type.bitSize.sub (h.isWhole.unit u hu).used)
  obtain ⟨cursor, unit, unitStart, padding⟩ := s
  obtain ⟨cursor', unit', unitStart', padding'⟩ := s'
  obtain ⟨-, hcursor, hunit, hstart, hpadding, hopened⟩ := h
  cases hcursor
  cases hunit
  cases hstart
  cases unit with
  | none => exact ⟨hwhole, rfl, rfl, rfl, hpadding, hopened⟩
  | some u =>
    refine ⟨hwhole, rfl, rfl, rfl, ?_, fun _ hu => (nomatch hu)⟩
    unfold Placer.close
    dsimp only
    split
    · exact hpad u rfl
    · rw [List.append_nil, List.append_nil]
      exact hpadding

theorem restart (h : Mirrors ps s s') (width : Quantity) :
    Mirrors ps (s.restart p width) (s'.restart p.reversed width) := by
  have hwhole : (s.restart p width).IsWhole := h.isWhole.restart
  have hpad (u : StorageUnit Quantity) (hu : s.unit = some u) (length : Quantity)
      (hlength : length.IsWhole) := h.padUnit (p := p) hu hlength
  obtain ⟨cursor, unit, unitStart, padding⟩ := s
  obtain ⟨cursor', unit', unitStart', padding'⟩ := s'
  obtain ⟨hbefore, hcursor, hunit, hstart, hpadding, hopened⟩ := h
  cases hcursor
  cases hunit
  cases hstart
  cases unit with
  | none => exact ⟨hwhole, rfl, rfl, rfl, hpadding, hopened⟩
  | some u =>
    unfold Placer.restart at hwhole ⊢
    dsimp only at hwhole ⊢
    rw [show p.reversed.bitfieldByteRestart = p.bitfieldByteRestart from rfl]
    cases hskip : u.skip? width with
    | none => exact ⟨hbefore, rfl, rfl, rfl, hpadding, hopened⟩
    | some gap =>
      rw [hskip] at hwhole
      cases hrestart : p.bitfieldByteRestart with
      | false => exact ⟨hbefore, rfl, rfl, rfl, hpadding, hopened⟩
      | true =>
        rw [hrestart] at hwhole
        have hu := hbefore.unit u rfl
        have hgap := hu.skip? hskip
        refine ⟨hwhole, rfl, rfl, rfl, hpad u rfl gap hgap, ?_⟩
        rintro _ ⟨⟩
        exact ⟨(hopened u rfl).1, _, Quantity.combine_whole hu.used hgap _ _⟩

theorem closeUnless (h : Mirrors ps s s') (test : StorageUnit Quantity → Bool) :
    Mirrors ps (s.closeUnless p test) (s'.closeUnless p.reversed test) := by
  unfold Placer.closeUnless
  rw [h.unit]
  cases s.unit with
  | none => exact h
  | some u =>
    dsimp only
    split
    · exact h
    · exact h.close

theorem ready (h : Mirrors ps s s') (d : TypeDescriptor Quantity) (width : Quantity) :
    Mirrors ps (s.ready p d width) (s'.ready p.reversed d width) :=
  ((h.closeUnless _).restart width).closeUnless _

theorem takeBits (h : Mirrors ps s s') (hd : d.IsWhole) (hwidth : width.IsWhole)
    (hbits : ∀ u, s.unit = some u → u.type.bitSize = d.bitSize) :
    (s'.takeBits p.reversed packed m width d).1 = (s.takeBits p packed m width d).1.mirrored ∧
      Mirrors ((s.takeBits p packed m width d).1 :: ps) (s.takeBits p packed m width d).2
        (s'.takeBits p.reversed packed m width d).2 := by
  have direction : p.reversed.bitfieldDirection = p.bitfieldDirection.opposite := rfl
  obtain ⟨-, hwhole⟩ : (s.takeBits p packed m width d).1.IsWhole ∧
      (s.takeBits p packed m width d).2.IsWhole := h.isWhole.takeBits hd hwidth rfl
  unfold Placer.takeBits at hwhole ⊢
  rw [h.unit]
  cases hu : s.unit with
  | some u =>
    rw [hu] at hwhole
    dsimp only at hwhole ⊢
    obtain ⟨-, n, hused⟩ := h.opened u hu
    have hsize := hbits u hu
    have hposition := bitPosition_opposite p.bitfieldDirection n hwidth hd.bitSize
    refine ⟨?_, hwhole, h.cursor, rfl, h.unitStart, ?_, ?_⟩
    · rw [h.unitStart, direction, hused, hsize, hposition]
      rfl
    · exact h.padding.imp fun _ _ hr => hr.mono (List.subset_cons_self _ ps)
    · rintro _ ⟨⟩
      exact ⟨⟨_, .head _, rfl, rfl, hsize.symm⟩, _,
        Quantity.combine_whole (h.isWhole.unit u hu).used hwidth _ _⟩
  | none =>
    rw [hu] at hwhole
    have halign := h.align (alignmentOf packed d)
    have hposition := bitPosition_opposite p.bitfieldDirection 0 hwidth hd.bitSize
    unfold Placer.openUnit at hwhole ⊢
    dsimp only at hwhole ⊢
    rw [halign.cursor]
    refine ⟨?_, hwhole, rfl, rfl, rfl, ?_, ?_⟩
    · rw [direction]
      change (⟨_, _, _, _, _, some ⟨bitPosition _ (.whole 0) _ _, _⟩⟩ : Placement Quantity) = _
      rw [hposition]
      rfl
    · exact halign.padding.imp fun _ _ hr => hr.mono (List.subset_cons_self _ ps)
    · rintro _ ⟨⟩
      exact ⟨⟨_, .head _, rfl, rfl, rfl⟩, _,
        Quantity.combine_whole (Quantity.isWhole_whole 0) hwidth _ _⟩

theorem placePlain (h : Mirrors ps s s') (hd : d.IsWhole) (m : Member Quantity) :
    (s'.placePlain p.reversed packed m d).1 = (s.placePlain p packed m d).1.mirrored ∧
      Mirrors ((s.placePlain p packed m d).1 :: ps) (s.placePlain p packed m d).2
        (s'.placePlain p.reversed packed m d).2 := by
  have halign := (h.close (p := p)).align (alignmentOf packed d)
  have hunit : ((s.close p).align (alignmentOf packed d)).unit = none :=
    (align_unit _ _).trans (s.close_unit p)
  obtain ⟨-, hwhole⟩ : (s.placePlain p packed m d).1.IsWhole ∧
      (s.placePlain p packed m d).2.IsWhole := h.isWhole.placePlain hd rfl
  unfold Placer.placePlain at hwhole ⊢
  dsimp only at hwhole ⊢
  rw [halign.cursor]
  refine ⟨rfl, hwhole, rfl, halign.unit, halign.unitStart, ?_, fun u hu => ?_⟩
  · exact halign.padding.imp fun _ _ hr => hr.mono (List.subset_cons_self _ ps)
  · exact absurd (hunit.symm.trans hu) nofun

theorem place (h : Mirrors ps s s') (hm : m.IsWhole) (hd : d.IsWhole) :
    eitherStops.Abreast
      (fun r r' => r.1.IsWhole ∧ r'.1 = r.1.mirrored ∧ Mirrors (r.1 :: ps) r.2 r'.2)
      (s.place p packed m d) (s'.place p.reversed packed m d) := by
  have hwhole {r : Placement Quantity × Placer Quantity} (hr : s.place p packed m d = .ok r) :
      r.1.IsWhole := (h.isWhole.place hm hd hr).1
  unfold Placer.place at hwhole ⊢
  cases hbits : m.bits with
  | none =>
    rw [hbits] at hwhole
    exact .done ⟨hwhole rfl, h.placePlain hd m⟩
  | some width =>
    rw [hbits] at hwhole
    have hwidth := hm.bits hbits
    have hready := h.ready (p := p) d width
    dsimp only at hwhole ⊢
    unfold placeBitfield at hwhole ⊢
    generalize checkBitfield m width d = checked at hwhole ⊢
    cases checked with
    | error f => exact .both rfl
    | ok _ =>
      refine .done ⟨hwhole rfl, hready.takeBits hd hwidth fun u hu => ?_⟩
      obtain ⟨_, u₀, hu₀, htype, hsame⟩ := open_ready hu
      rw [htype]
      exact TypeDescriptor.bitSize_eq_of_sameAs (h.isWhole.unit u₀ hu₀).type hd hsame

end Mirrors

end Placer

structure Layout.Turned (l l' : Layout Quantity) : Prop where
  isWhole : l.IsWhole
  name : l'.name = l.name
  kind : l'.kind = l.kind
  totalSize : l'.totalSize = l.totalSize
  totalAlignment : l'.totalAlignment = l.totalAlignment
  packed : l'.packed = l.packed
  placements : l'.placements = l.placements.map Placement.mirrored
  padding : List.Forall₂ (Padding.Turned l.placements) l.padding l'.padding

namespace Layout.Turned

variable {l l' : Layout Quantity}

theorem descriptor (h : l.Turned l') : l'.descriptor = l.descriptor := by
  unfold Layout.descriptor
  rw [h.name, h.totalSize, h.totalAlignment]

theorem written (h : l.Turned l') : l'.written = l.written := by
  have hpadding : l'.padding.map Padding.bitCount = l.padding.map Padding.bitCount := by
    rw [← List.forall₂_eq_eq_eq, List.forall₂_map_left_iff, List.forall₂_map_right_iff]
    exact h.padding.flip.imp fun _ _ hr => hr.bitCount
  unfold Layout.written Layout.paddingBits
  rw [h.totalSize, h.totalAlignment, hpadding]

theorem computed (h : l.Turned l') : eitherStops.Abreast Turned l.computed l'.computed := by
  unfold Layout.computed
  rw [h.totalSize, h.isWhole.totalSize.isWhole.computed]
  exact .done h

end Layout.Turned

namespace PartialStruct

structure Mirrors (q q' : PartialStruct Quantity) : Prop where
  placer : Placer.Mirrors q.placements q.placer q'.placer
  alignment : q'.alignment = q.alignment
  placements : q'.placements = q.placements.map Placement.mirrored

variable {q q' : PartialStruct Quantity}

theorem mirrors_start : Mirrors {} {} := ⟨.start, rfl, rfl⟩

theorem Mirrors.add (h : q.Mirrors q') (hm : m.IsWhole) (hd : d.IsWhole) :
    eitherStops.Abreast Mirrors (q.add p packed m d) (q'.add p.reversed packed m d) := by
  unfold PartialStruct.add
  refine (h.placer.place hm hd).bind ?_
  rintro ⟨r, s⟩ ⟨_, s'⟩ ⟨hr, rfl, hs⟩
  have hcomputed : s'.computed = .ok () := by
    have hwhole := hs.isWhole.computed
    unfold Placer.computed at hwhole ⊢
    rw [hs.cursor, hs.unit]
    exact hwhole
  dsimp only
  rw [hs.isWhole.computed, hcomputed]
  refine (eitherStops_written hr hr.mirrored).bind fun _ _ _ => .done ?_
  refine ⟨hs, ?_, ?_⟩
  · exact congrArg (PowerOfTwo.max · d.alignment) h.alignment
  · exact congrArg (r.mirrored :: ·) h.placements

theorem Mirrors.finish (h : q.Mirrors q') (a : Aggregate Quantity) :
    (q.finish p a).Turned (q'.finish p.reversed a) := by
  have hplacer := (h.placer.close (p := p)).align (if a.packed then .one else q.alignment)
  have hwhole := isWhole_finish (p := p) (a := a) h.placer.isWhole
  unfold PartialStruct.finish at hwhole ⊢
  dsimp only at hwhole ⊢
  rw [h.alignment]
  refine ⟨hwhole, rfl, rfl, hplacer.cursor, rfl, rfl, ?_, ?_⟩
  · rw [h.placements, List.map_reverse]
  · exact hplacer.padding.imp fun _ _ hr => hr.mono fun _ hx => List.mem_reverse.mpr hx

end PartialStruct

theorem overlay_mirrored (hm : m.IsWhole) (hd : d.IsWhole) :
    eitherStops.Abreast (fun q q' => q.size.val.IsNatural ∧ q' = q.mirrored) (overlay p m d)
      (overlay p.reversed m d) := by
  unfold overlay
  cases hbits : m.bits with
  | none => exact .done ⟨hd.size, rfl⟩
  | some width =>
    have hposition := bitPosition_opposite p.bitfieldDirection 0 (hm.bits hbits) hd.bitSize
    dsimp only
    refine (eitherStops_refl (checkBitfield m width d)).bind fun _ _ _ => .done ⟨hd.size, ?_⟩
    change (⟨_, _, _, _, _, some ⟨bitPosition p.bitfieldDirection.opposite (.whole 0) _ _, _⟩⟩ :
      Placement Quantity) = _
    rw [hposition]
    rfl

theorem finishUnion_mirrored (a : Aggregate Quantity) {placements : List (Placement Quantity)}
    (h : ∀ q ∈ placements, q.size.val.IsNatural) :
    (finishUnion a placements).Turned (finishUnion a (placements.map Placement.mirrored)) := by
  have hsize : (placements.map Placement.mirrored).map (·.size.val) =
      placements.map (·.size.val) := by
    rw [List.map_map]
    rfl
  have halignment : (placements.map Placement.mirrored).map (·.alignment) =
      placements.map (·.alignment) := by
    rw [List.map_map]
    rfl
  have hlargest : (largestSize placements).IsNatural :=
    isNatural_foldl_larger (List.forall_mem_map.mpr h)
  have hstart : Placer.Mirrors placements { cursor := largestSize placements }
      { cursor := largestSize placements } :=
    ⟨⟨hlargest, fun _ hu => (nomatch hu), Quantity.isWhole_whole 0, fun _ hr => (nomatch hr)⟩, rfl,
      rfl, rfl, .nil, fun _ hu => (nomatch hu)⟩
  have hwhole := isWhole_finishUnion (a := a) hlargest
  unfold finishUnion at hwhole ⊢
  dsimp only at hwhole ⊢
  rw [hsize, halignment]
  exact ⟨hwhole, rfl, rfl, rfl, rfl, rfl, rfl, (hstart.align _).padding⟩

def TypeDescriptor.SameWhole (d d' : TypeDescriptor Quantity) : Prop := d.IsWhole ∧ d = d'

def Memo.SameWhole (memo memo' : Memo Quantity) : Prop := memo.IsWhole ∧ memo = memo'

namespace Target

variable {t : Target Quantity} {a b : Aggregate Quantity} {levels : Nat} {path : List String}
  {nested nested' : Aggregate Quantity → Layouting Quantity (TypeDescriptor Quantity)}

theorem typeWith_mirrored (ht : t.catalog.IsWhole) (hm : m.IsWhole)
    (hn : ∀ b, t.nested? m.type = some b →
      eitherStops.Run Memo.SameWhole TypeDescriptor.SameWhole (nested b) (nested' b)) :
    eitherStops.Run Memo.SameWhole TypeDescriptor.SameWhole (t.typeWith nested m)
      (t.reversed.typeWith nested' m) := by
  have dims (d d' : TypeDescriptor Quantity) (h : d.SameWhole d') :
      eitherStops.Run Memo.SameWhole TypeDescriptor.SameWhole
        (liftM (withDims m d) : Layouting Quantity _) (liftM (withDims m d')) := by
    obtain ⟨hd, rfl⟩ := h
    refine .lift ?_
    rcases withDims_whole hd hm.dims with ⟨e, he, hwhole, _⟩ | ⟨f, hf, _⟩
    · rw [he]
      exact .done ⟨hwhole, rfl⟩
    · rw [hf]
      exact .both rfl
  have htype := hm.type
  unfold typeWith
  cases hr : m.type with
  | descriptor d =>
    rw [hr] at htype
    cases htype with
    | descriptor hd =>
      exact (Tolerance.Run.pure (R := TypeDescriptor.SameWhole) ⟨hd, rfl⟩).bind dims
  | inline b => exact (hn b (congrArg t.nested? hr)).bind dims
  | named name =>
    have hnested : t.reversed.catalog.nested? name = t.catalog.nested? name := rfl
    have hdescribe : t.reversed.catalog.describe name = t.catalog.describe name := rfl
    dsimp only
    rw [hnested, hdescribe]
    cases hb : t.catalog.nested? name with
    | some b => exact (hn b ((congrArg t.nested? hr).trans hb)).bind dims
    | none =>
      have hsame : eitherStops.Abreast TypeDescriptor.SameWhole
          ((t.catalog.describe name).mapError LayoutFailure.invalid)
          ((t.catalog.describe name).mapError LayoutFailure.invalid) := by
        cases hd : t.catalog.describe name with
        | ok d => exact .done ⟨isWhole_describe ht hd, rfl⟩
        | error e => exact .both rfl
      exact (Tolerance.Run.lift hsame).bind dims

theorem layoutWith_mirrored (ht : t.catalog.IsWhole) (ha : a.IsWhole)
    (hn : ∀ b, t.Nests a b →
      eitherStops.Run Memo.SameWhole TypeDescriptor.SameWhole (nested b) (nested' b)) :
    eitherStops.Run Memo.SameWhole Layout.Turned (t.layoutWith nested a)
      (t.reversed.layoutWith nested' a) := by
  refine .layoutWith (N := fun m m' => m ∈ a.members ∧ m = m') (D := TypeDescriptor.SameWhole)
    (P := PartialStruct.Mirrors) (Q := fun q q' => q.size.val.IsNatural ∧ q' = q.mirrored) rfl rfl
    (List.forall₂_same.mpr fun m hm => ⟨hm, rfl⟩) ?_ ?_ PartialStruct.mirrors_start ?_ ?_ ?_ ?_
  · rintro m _ ⟨_, rfl⟩
    rfl
  · rintro m _ ⟨hm, rfl⟩
    exact typeWith_mirrored ht (ha.member hm) fun b hb => hn b ⟨m, hm, hb⟩
  · rintro m _ d _ s s' ⟨hm, rfl⟩ ⟨hd, rfl⟩ hs
    exact hs.add (ha.member hm) hd
  · exact fun s s' hs => (hs.finish a).computed
  · rintro m _ d _ ⟨hm, rfl⟩ ⟨hd, rfl⟩
    exact overlay_mirrored (ha.member hm) hd
  · intro ps ps' hps
    obtain rfl : ps' = ps.map Placement.mirrored := by
      rw [← List.forall₂_eq_eq_eq, List.forall₂_map_right_iff]
      exact hps.flip.imp fun _ _ hq => hq.2
    exact (finishUnion_mirrored a fun q hq =>
      (exists_of_forall₂ hps hq).elim fun _ hq' => hq'.2.1).computed

theorem layoutAt_mirrored (ht : t.catalog.IsWhole) (keep : Bool) (levels : Nat)
    (path : List String) (ha : a.IsWhole) :
    eitherStops.Run Memo.SameWhole Layout.Turned (t.layoutAt keep levels path a)
      (t.reversed.layoutAt keep levels path a) := by
  -- A nested aggregate gives both the same descriptor, and the same is remembered of it.
  induction levels generalizing path a with
  | zero =>
    unfold layoutAt
    exact (Tolerance.Run.lift (eitherStops_refl (checkCycle path a))).bind
      fun _ _ _ _ _ _ => .both rfl
  | succ levels ih =>
    unfold layoutAt
    refine (Tolerance.Run.lift (eitherStops_refl (checkCycle path a))).bind fun _ _ _ => ?_
    refine (Tolerance.Run.lift (eitherStops_refl (checkNames a [] a.members))).bind
      fun _ _ _ => ?_
    refine layoutWith_mirrored ht ha fun b hb => ?_
    have hwhole := isWhole_nests ht ha hb
    refine .remembered ((ih _ hwhole).bind fun l l' hl =>
      .pure ⟨hl.isWhole.descriptor, hl.descriptor.symm⟩) keep ?_ ?_
    · rintro memo _ ⟨hmemo, rfl⟩
      cases hd : memo.find? b with
      | none => exact .none
      | some d =>
        obtain ⟨x, hx, rfl⟩ := Option.map_eq_some_iff.mp hd
        exact .some ⟨hmemo x (List.mem_of_find?_eq_some hx), rfl⟩
    · rintro memo _ d _ ⟨hmemo, rfl⟩ ⟨hd, rfl⟩
      exact ⟨List.forall_mem_cons.mpr ⟨hd, hmemo⟩, rfl⟩

theorem layout_turned (ht : t.catalog.IsWhole) (ha : a.IsWhole) :
    eitherStops.Abreast Layout.Turned (t.layout a) (t.reversed.layout a) := by
  have hstart : Memo.SameWhole [] [] := ⟨Memo.isWhole_nil, rfl⟩
  unfold layout noted
  refine ((layoutAt_mirrored ht true t.levels [] ha).run' hstart).bind fun l l' hl => ?_
  rw [hl.written]
  exact (eitherStops_refl _).bind fun _ _ _ => .done hl

end Target

theorem Layout.size_pos_of_bitfield {p : MachineProfile Int} {a : Aggregate Int} {l : Layout Int}
    {typed : List (Member Int × TypeDescriptor Int)} (hl : Layout.ofTypes p a typed = .ok l) :
    ∀ q ∈ l.placements, q.bits.isSome → 0 < q.size.val := by
  have fits := Layout.exists_ofTypes_iff.mp ⟨l, hl⟩
  have holds := (List.forall₂_and_left typed _).mpr ⟨fits, Layout.holds_ofTypes hl⟩
  have positive : List.Forall₂ (fun q x => (q.bits.isSome → 0 < q.size.val) ∧ q.Holds x.1 x.2)
      l.placements typed := by
    refine holds.flip.imp ?_
    rintro q x ⟨hfits, hholds⟩
    refine ⟨fun hbits => ?_, hholds⟩
    obtain ⟨bits, hbits⟩ := Option.isSome_iff_exists.mp hbits
    have hwidth : x.1.bits = some bits.width := by
      rw [← hholds.width, hbits]
      rfl
    rw [hholds.size]
    exact (hfits bits.width hwidth).size_pos
  exact ((List.forall₂_and_left _ _).mp positive).1

theorem Layout.size_of_unit {p : MachineProfile Int} {a : Aggregate Int} {l : Layout Int}
    {typed : List (Member Int × TypeDescriptor Int)} (ha : a.kind = .struct)
    (hl : Layout.ofTypes p a typed = .ok l) {q r : Placement Int} (hq : q ∈ l.placements)
    (hr : r ∈ l.placements) (hqbits : q.bits.isSome) (hrbits : r.bits.isSome)
    (hstart : q.offset = r.offset) : q.size.val = r.size.val := by
  by_cases hqr : q = r
  · rw [hqr]
  · have hqpos := size_pos_of_bitfield hl q hq hqbits
    have hrpos := size_pos_of_bitfield hl r hr hrbits
    have hqstop : q.stop = q.offset + q.size.val := rfl
    have hrstop : r.stop = r.offset + r.size.val := rfl
    rcases (Layout.beside_ofTypes ha hl).forall hq hr hqr with (h | h) | ⟨h, _⟩
    · omega
    · omega
    · exact h.size

theorem Layout.bytes_of_union {p : MachineProfile Int} {a : Aggregate Int} {l : Layout Int}
    {typed : List (Member Int × TypeDescriptor Int)} (ha : a.kind = .union)
    (hl : Layout.ofTypes p a typed = .ok l) :
    ∀ r ∈ l.padding, ∃ offset length, r = .bytes offset length := by
  obtain ⟨placements, _, rfl⟩ := ofTypes_union ha hl
  intro r hr
  unfold finishUnion at hr
  dsimp only at hr
  generalize (if a.packed then PowerOfTwo.one else _) = alignment at hr
  unfold Placer.align at hr
  dsimp only at hr
  split at hr
  · obtain rfl := List.mem_singleton.mp hr
    exact ⟨_, _, rfl⟩
  · exact absurd hr List.not_mem_nil

inductive Padding.Mirrored (placements : List (Placement Quantity)) :
    Padding Quantity → Padding Quantity → Prop
  | bytes {offset length : Quantity} :
    Mirrored placements (.bytes offset length) (.bytes offset length)
  | bits {start bitOffset bitOffset' length : Quantity}
    (hunit : ∃ q ∈ placements, q.bits.isSome ∧ q.offset = start)
    (hbits : ∀ q ∈ placements, q.bits.isSome → q.offset = start →
      bitOffset' = q.extentBits - bitOffset - length) :
    Mirrored placements (.bits start bitOffset length) (.bits start bitOffset' length)

/-- The same layout, but for the ends that bits are counted from. -/
structure Layout.Mirrors (l l' : Layout Quantity) : Prop where
  name : l'.name = l.name
  kind : l'.kind = l.kind
  totalSize : l'.totalSize = l.totalSize
  totalAlignment : l'.totalAlignment = l.totalAlignment
  packed : l'.packed = l.packed
  placements : l'.placements = l.placements.map Placement.mirrored
  padding : List.Forall₂ (Padding.Mirrored l.placements) l.padding l'.padding

section Units

variable {t : Target Quantity} {a : Aggregate Quantity} {l l' : Layout Quantity}

theorem Layout.extentBits_of_unit (ht : t.IsWhole) (ha : a.IsWhole) (hl : t.layout a = .ok l)
    (hkind : a.kind = .struct) {q r : Placement Quantity} (hq : q ∈ l.placements)
    (hr : r ∈ l.placements) (hqbits : q.bits.isSome) (hrbits : r.bits.isSome)
    (hstart : q.offset = r.offset) : q.extentBits = r.extentBits := by
  obtain ⟨l₀, hl₀, hstands⟩ := Target.exists_integral_layout ht ha hl
  obtain ⟨typed, _, hof⟩ := Target.layout_typed hl₀
  obtain ⟨q₀, hq₀, hqstands⟩ := exists_of_forall₂ hstands.placements hq
  obtain ⟨r₀, hr₀, hrstands⟩ := exists_of_forall₂ hstands.placements hr
  have hsize : q₀.size.val = r₀.size.val := by
    refine size_of_unit (a.kind_integral.trans hkind) hof hq₀ hr₀ ?_ ?_ ?_
    · rw [hqstands.bits, Option.isSome_map]
      exact hqbits
    · rw [hrstands.bits, Option.isSome_map]
      exact hrbits
    · rw [hqstands.offset, hrstands.offset, hstart]
  rw [hqstands.size, hrstands.size] at hsize
  have hinteger : q.size.val.integer = r.size.val.integer := hsize
  have hextent {q : Placement Quantity} (hq : q.size.val.IsNatural) :
      q.extentBits = .whole (q.size.val.integer * 8) :=
    Quantity.combine_whole hq.isWhole (Quantity.isWhole_whole 8) _ _
  rw [hextent hqstands.natural, hextent hrstands.natural, hinteger]

theorem Layout.Turned.mirrors (h : l.Turned l') (ht : t.IsWhole) (ha : a.IsWhole)
    (hl : t.layout a = .ok l) : l.Mirrors l' := by
  refine ⟨h.name, h.kind, h.totalSize, h.totalAlignment, h.packed, h.placements, ?_⟩
  have turned := (List.forall₂_and_left l.padding l'.padding).mpr
    ⟨fun (r : Padding Quantity) (hr : r ∈ l.padding) => hr, h.padding⟩
  refine turned.imp ?_
  rintro r r' ⟨hr, hturned⟩
  cases hturned with
  | bytes => exact .bytes
  | @bits start bitOffset length _ hunit =>
    cases hkind : a.kind with
    | union =>
      -- The padding of a union is whole bytes.
      obtain ⟨l₀, hl₀, hstands⟩ := Target.exists_integral_layout ht ha hl
      obtain ⟨typed, _, hof⟩ := Target.layout_typed hl₀
      have hmem : (Padding.bits start bitOffset length).integral ∈ l₀.padding :=
        hstands.padding ▸ List.mem_map_of_mem hr
      obtain ⟨_, _, hbytes⟩ := bytes_of_union (a.kind_integral.trans hkind) hof _ hmem
      cases hbytes
    | struct =>
      obtain ⟨q, hq, hbits, hstart, rfl⟩ := hunit
      refine .bits ⟨q, hq, hbits, hstart⟩ fun r hr hrbits hrstart => ?_
      rw [extentBits_of_unit ht ha hl hkind hq hr hbits hrbits (hstart.trans hrstart.symm)]

end Units

theorem Target.IsWhole.reversed {t : Target Quantity} (h : t.IsWhole) : t.reversed.IsWhole :=
  ⟨⟨h.catalog.types, h.catalog.aggregates⟩, h.maxDepth⟩

theorem layout_mirrors (t : Target Quantity) (a : Aggregate Quantity) (ht : t.IsWhole)
    (ha : a.IsWhole) :
    (∃ f, t.layout a = .error f ∧ t.reversed.layout a = .error f) ∨
      (∃ l l', t.layout a = .ok l ∧ t.reversed.layout a = .ok l' ∧ l.Mirrors l') ∨
      (t.layout a = .error (.number .tooManyDigits) ∧ ∃ n, t.Notes a n ∧ n.IsTooLong) ∨
      t.reversed.layout a = .error (.number .tooManyDigits) ∧
        ∃ n, t.reversed.Notes a n ∧ n.IsTooLong := by
  have habreast := Target.layout_turned ht.catalog ha
  have hmirrors := fun l l' (hl : t.layout a = .ok l) (h : l.Turned l') => h.mirrors ht ha hl
  have hlong (h : t.layout a = .error (.number .tooManyDigits)) :=
    ((Target.layout_number ht ha).mp h).2
  have hlong' (h : t.reversed.layout a = .error (.number .tooManyDigits)) :=
    ((Target.layout_number ht.reversed ha).mp h).2
  generalize t.layout a = x, t.reversed.layout a = y at habreast hmirrors hlong hlong' ⊢
  cases habreast with
  | left hf =>
    obtain rfl := hf
    exact .inr (.inr (.inl ⟨rfl, hlong rfl⟩))
  | right hg =>
    obtain rfl := hg
    exact .inr (.inr (.inr ⟨rfl, hlong' rfl⟩))
  | both hfg =>
    obtain rfl := hfg
    exact .inl ⟨_, rfl, rfl⟩
  | done hl => exact .inr (.inl ⟨_, _, rfl, rfl, hmirrors _ _ rfl hl⟩)

def flags : Aggregate Quantity where
  name := "flags"
  members :=
    [{ name := "ready", type := .descriptor byte, bits := some (.whole 2) },
      { name := "code", type := .descriptor byte }]

theorem isWhole_flags : flags.IsWhole := by
  have hbyte : (byte : TypeDescriptor Quantity).IsWhole := Quantity.isWhole_whole 1
  refine .mk (List.forall_mem_cons.mpr ⟨.mk (.descriptor hbyte) nofun ?_,
    List.forall_mem_singleton.mpr (.mk (.descriptor hbyte) nofun nofun)⟩)
  rintro _ ⟨⟩
  exact Quantity.isWhole_whole 2

theorem layout_mirrors_flags : (Target.ofProfile .lp64).IsWhole ∧ flags.IsWhole ∧
    ∃ l l', (Target.ofProfile .lp64).layout flags = .ok l ∧
      (Target.ofProfile .lp64).reversed.layout flags = .ok l' ∧ l.Mirrors l' := by
  have htarget : (Target.ofProfile .lp64).IsWhole := Target.isWhole_ofProfile ⟨16, rfl⟩
  obtain ⟨l, hl⟩ : ∃ l, (Target.ofProfile .lp64).layout flags = .ok l := by decide +kernel
  obtain ⟨l', hl'⟩ : ∃ l, (Target.ofProfile .lp64).reversed.layout flags = .ok l := by
    decide +kernel
  refine ⟨htarget, isWhole_flags, ?_⟩
  rcases layout_mirrors _ flags htarget isWhole_flags with
    ⟨_, hf, _⟩ | hmirrors | ⟨hf, _⟩ | ⟨hf, _⟩
  · cases hl.symm.trans hf
  · exact hmirrors
  · cases hl.symm.trans hf
  · cases hl'.symm.trans hf

def longUnit : Aggregate Quantity where
  name := "s"
  members :=
    [{ name := "a", bits := some (.whole 1),
       type := .descriptor (.basic "wide" (.of (.whole (10 ^ 4300 / 8 + 8))) .one .scalar true) },
      { name := "tail", type := .named "mystery" }]

theorem layout_parts_longUnit :
    (∃ e, (Target.ofProfile .lp64).layout longUnit = .error (.invalid e) ∧
      e.cause = .unknownType "mystery") ∧
      (Target.ofProfile .lp64).reversed.layout longUnit = .error (.number .tooManyDigits) := by
  refine ⟨?_, by decide +kernel⟩
  have hunknown : (match (Target.ofProfile .lp64).layout longUnit with
      | .error (.invalid { cause := .unknownType name, .. }) => some name
      | _ => none) = some "mystery" := by decide +kernel
  split at hunknown
  · next name aggregate member h => exact ⟨_, h, by rw [Option.some.inj hunknown]⟩
  · cases hunknown

end AggregateLayout
