import Mathlib
import AggregateLayout.Proofs.Abreast
import AggregateLayout.Proofs.Dimensions
import AggregateLayout.Proofs.Integers
import AggregateLayout.Proofs.Lengths
import AggregateLayout.Proofs.LongNumbers
import AggregateLayout.Proofs.Placing

/-!
A layout in whole quantities goes abreast of the one in the integers that these stand for. The two
come to the same, or they fail alike, unless the one in quantities stops at a number that has too
many digits.
-/

namespace AggregateLayout

open AggregateLayout.Measure (whole)

def Padding.integral : Padding Quantity → Padding Int
  | .bytes offset length => .bytes offset.integer length.integer
  | .bits unit bitOffset length => .bits unit.integer bitOffset.integer length.integer

def BitRange.integral (r : BitRange Quantity) : BitRange Int :=
  { offset := r.offset.integer, width := r.width.integer }

theorem integer_bitPosition {used width bits : Quantity} (hused : used.IsWhole)
    (hwidth : width.IsWhole) (hbits : bits.IsWhole) (direction : BitfieldDirection) :
    (bitPosition direction used width bits).integer =
      bitPosition direction used.integer width.integer bits.integer := by
  cases direction with
  | lowToHigh => rfl
  | highToLow =>
    change (bits - used - width).integer = _
    rw [Quantity.integer_sub (hbits.sub hused) hwidth, Quantity.integer_sub hbits hused]
    rfl

namespace StorageUnit

def integral (u : StorageUnit Quantity) : StorageUnit Int :=
  { type := u.type.integral, used := u.used.integer }

variable {u : StorageUnit Quantity} {width length : Quantity}

theorem fits_integral (h : u.IsWhole) (hwidth : width.IsWhole) :
    u.integral.fits width.integer = u.fits width := by
  have hle := Quantity.le_iff (h.used.add hwidth) h.type.bitSize
  unfold fits integral
  rw [TypeDescriptor.bitSize_integral h.type, ← Quantity.integer_add h.used hwidth]
  exact decide_eq_decide.mpr hle.symm

theorem take_integral (h : u.IsWhole) (hwidth : width.IsWhole) :
    (u.take width).integral = u.integral.take width.integer := by
  unfold take integral
  rw [Quantity.integer_add h.used hwidth]

theorem padding_integral (h : u.IsWhole) (hlength : length.IsWhole)
    (direction : BitfieldDirection) (start : Quantity) :
    (u.padding direction start length).integral =
      u.integral.padding direction start.integer length.integer := by
  have hposition := integer_bitPosition h.used hlength h.type.bitSize direction
  unfold padding integral
  rw [TypeDescriptor.bitSize_integral h.type, ← hposition]
  rfl

theorem skip?_integral (h : u.IsWhole) (hwidth : width.IsWhole) :
    u.integral.skip? width.integer = (u.skip? width).map Quantity.integer := by
  have height : (whole 8 : Quantity).IsWhole := Quantity.isWhole_whole 8
  have hinByte : (Measure.floorMod u.used 8).IsWhole := h.used.floorMod 8
  have hgap := height.sub hinByte
  have hmod : (Measure.floorMod u.used 8).integer = Measure.floorMod u.used.integer 8 :=
    Quantity.integer_floorMod h.used 8
  have hzero : (Measure.floorMod u.used 8 == whole 0) =
      (Measure.floorMod u.used.integer 8 == whole 0) := by
    rw [← hmod]
    exact Quantity.beq_eq hinByte (Quantity.isWhole_whole 0)
  have hwide : decide (whole 8 < width) = decide (whole 8 < width.integer) :=
    decide_eq_decide.mpr (Quantity.lt_iff height hwidth)
  have hend : decide (Measure.floorMod u.used 8 + width ≤ whole 8) =
      decide (Measure.floorMod u.used.integer 8 + width.integer ≤ whole 8) := by
    rw [← hmod, ← Quantity.integer_add hinByte hwidth]
    exact decide_eq_decide.mpr (Quantity.le_iff (hinByte.add hwidth) height)
  have hsub : (whole 8 - Measure.floorMod u.used 8 : Quantity).integer =
      whole 8 - Measure.floorMod u.used.integer 8 := by
    rw [Quantity.integer_sub height hinByte, hmod]
    rfl
  have hfits : (u.integral.take (whole 8 - Measure.floorMod u.used.integer 8)).fits width.integer =
      (u.take (whole 8 - Measure.floorMod u.used 8)).fits width := by
    rw [← hsub, ← take_integral h hgap, fits_integral (h.take hgap) hwidth]
  unfold skip?
  dsimp only
  rw [apply_ite (Option.map Quantity.integer), hzero, hwide, hend, Option.map_some, hsub]
  change (if (_ || !(u.integral.take (whole 8 - Measure.floorMod u.used.integer 8)).fits
    width.integer) = true then _ else _) = _
  rw [hfits]
  rfl

end StorageUnit

namespace Placer

def integral (s : Placer Quantity) : Placer Int where
  cursor := s.cursor.integer
  unit := s.unit.map StorageUnit.integral
  unitStart := s.unitStart.integer
  padding := s.padding.map Padding.integral

variable {p : MachineProfile Quantity} {packed : Bool} {m : Member Quantity}
  {d : TypeDescriptor Quantity} {s : Placer Quantity} {width : Quantity}

@[simp] theorem unit_integral (s : Placer Quantity) :
    s.integral.unit = s.unit.map StorageUnit.integral := rfl

theorem align_integral (h : s.IsWhole) (a : PowerOfTwo) :
    (s.align a).integral = s.integral.align a := by
  have hcursor := h.cursor.isWhole
  have hstart := (h.cursor.roundUp a).isWhole
  have hround := Quantity.integer_roundUp hcursor a
  have hless := Quantity.lt_iff hcursor hstart
  rw [hround] at hless
  unfold align
  dsimp only
  by_cases hgap : s.cursor < roundUp s.cursor a
  · have hpad : (Padding.bytes s.cursor (roundUp s.cursor a - s.cursor)).integral =
        .bytes s.cursor.integer (roundUp s.cursor.integer a - s.cursor.integer) := by
      rw [← hround, ← Quantity.integer_sub hstart hcursor]
      rfl
    have hgap' : s.integral.cursor < roundUp s.integral.cursor a := hless.mp hgap
    rw [if_pos hgap, if_pos hgap']
    unfold integral
    dsimp only
    rw [hround, List.map_append, List.map_singleton, hpad]
  · have hgap' : ¬ s.integral.cursor < roundUp s.integral.cursor a := hless.not.mp hgap
    rw [if_neg hgap, if_neg hgap']
    unfold integral
    dsimp only
    rw [hround]

theorem close_integral (h : s.IsWhole) :
    (s.close p).integral = s.integral.close p.integral := by
  obtain ⟨cursor, unit, unitStart, padding⟩ := s
  cases unit with
  | none => rfl
  | some u =>
    have hu := h.unit u rfl
    have hleft := hu.type.bitSize.sub hu.used
    have hinteger : (u.type.bitSize - u.used).integer =
        u.integral.type.bitSize - u.integral.used := by
      rw [Quantity.integer_sub hu.type.bitSize hu.used, ← TypeDescriptor.bitSize_integral hu.type]
      rfl
    have hless : whole 0 < u.type.bitSize - u.used ↔
        whole 0 < u.integral.type.bitSize - u.integral.used := by
      rw [← hinteger]
      exact Quantity.lt_iff (Quantity.isWhole_whole 0) hleft
    have hpad := u.padding_integral hu hleft p.bitfieldDirection unitStart
    rw [hinteger] at hpad
    unfold close integral
    dsimp only [Option.map_some]
    rw [List.map_append, apply_ite (List.map Padding.integral), List.map_singleton, hpad,
      if_congr hless rfl rfl]
    rfl

theorem closeUnless_integral (h : s.IsWhole) {test : StorageUnit Quantity → Bool}
    {test' : StorageUnit Int → Bool}
    (htest : ∀ u : StorageUnit Quantity, u.IsWhole → test' u.integral = test u) :
    (s.closeUnless p test).integral = s.integral.closeUnless p.integral test' := by
  unfold closeUnless
  rw [unit_integral]
  cases hunit : s.unit with
  | none => rfl
  | some u =>
    dsimp only [Option.map_some]
    rw [htest u (h.unit u hunit), ← close_integral h]
    cases test u <;> rfl

theorem restart_integral (h : s.IsWhole) (hwidth : width.IsWhole) :
    (s.restart p width).integral = s.integral.restart p.integral width.integer := by
  obtain ⟨cursor, unit, unitStart, padding⟩ := s
  cases unit with
  | none => rfl
  | some u =>
    have hu := h.unit u rfl
    have hskip := u.skip?_integral hu hwidth
    unfold restart integral
    dsimp only [Option.map_some]
    rw [hskip]
    cases hgap : u.skip? width with
    | none => rfl
    | some gap =>
      have hwhole := hu.skip? hgap
      have hpad := u.padding_integral hu hwhole p.bitfieldDirection unitStart
      dsimp only [Option.map_some]
      rw [← StorageUnit.take_integral hu hwhole]
      by_cases hrestart : p.bitfieldByteRestart = true
      · rw [if_pos hrestart, if_pos (show p.integral.bitfieldByteRestart = true from hrestart)]
        dsimp only [Option.map_some]
        rw [List.map_append, List.map_singleton, hpad]
        rfl
      · rw [if_neg hrestart, if_neg (show ¬ p.integral.bitfieldByteRestart = true from hrestart)]
        rfl

@[simp] theorem alignmentOf_integral (packed : Bool) (d : TypeDescriptor Quantity) :
    alignmentOf packed d.integral = alignmentOf packed d := by
  unfold alignmentOf
  rw [TypeDescriptor.alignment_integral]

theorem openUnit_integral (h : s.IsWhole) (hd : d.IsWhole) (packed : Bool) :
    (s.openUnit packed d).integral = s.integral.openUnit packed d.integral := by
  have halign := h.align (alignmentOf packed d)
  unfold openUnit
  dsimp only
  rw [alignmentOf_integral, ← align_integral h, TypeDescriptor.size_integral hd]
  unfold integral
  dsimp only
  rw [Quantity.integer_add halign.cursor.isWhole hd.size.isWhole]
  rfl

end Placer

/-- The integers of a placement. The name of the type may be written otherwise. -/
structure Placement.StandsFor (q : Placement Quantity) (q' : Placement Int) : Prop where
  isWhole : q.IsWhole
  natural : q.size.val.IsNatural
  name : q'.name = q.name
  offset : q'.offset = q.offset.integer
  size : q'.size = q.size.integral
  alignment : q'.alignment = q.alignment
  bits : q'.bits = q.bits.map BitRange.integral

namespace Placer

variable {p : MachineProfile Quantity} {packed : Bool} {m : Member Quantity}
  {d : TypeDescriptor Quantity} {s : Placer Quantity} {width : Quantity}

theorem standsFor_takeBits (h : s.IsWhole) (hd : d.IsWhole) (hwidth : width.IsWhole) :
    (s.takeBits p packed m width d).1.StandsFor
        (s.integral.takeBits p.integral packed m.integral width.integer d.integral).1 ∧
      (s.integral.takeBits p.integral packed m.integral width.integer d.integral).2 =
        (s.takeBits p packed m width d).2.integral := by
  have bits {u : StorageUnit Quantity} (hu : u.IsWhole) :
      some (⟨bitPosition p.integral.bitfieldDirection u.integral.used width.integer
        u.integral.type.bitSize, width.integer⟩ : BitRange Int) =
      some (BitRange.integral ⟨bitPosition p.bitfieldDirection u.used width u.type.bitSize, width⟩)
      := by
    unfold BitRange.integral
    rw [integer_bitPosition hu.used hwidth hu.type.bitSize,
      ← TypeDescriptor.bitSize_integral hu.type]
    rfl
  have hname := m.name_integral
  have hsize := TypeDescriptor.size_integral hd
  have halignment := d.alignment_integral
  have hwhole : (s.takeBits p packed m width d).1.IsWhole := (h.takeBits hd hwidth rfl).1
  unfold takeBits at hwhole ⊢
  rw [unit_integral]
  cases hunit : s.unit with
  | some u =>
    have hu := h.unit u hunit
    rw [hunit] at hwhole
    dsimp only [Option.map_some] at hwhole ⊢
    refine ⟨⟨hwhole, hd.size, hname, rfl, hsize, halignment, bits hu⟩, ?_⟩
    rw [← StorageUnit.take_integral hu hwidth]
    rfl
  | none =>
    have hu : StorageUnit.IsWhole { type := d, used := whole 0 } := ⟨hd, Quantity.isWhole_whole 0⟩
    rw [hunit] at hwhole
    dsimp only [Option.map_none] at hwhole ⊢
    rw [← openUnit_integral h hd]
    refine ⟨⟨hwhole, hd.size, hname, rfl, hsize, halignment, bits hu⟩, ?_⟩
    have htake := StorageUnit.take_integral hu hwidth
    unfold integral
    dsimp only [Option.map_some]
    rw [htake]
    rfl

theorem standsFor_placePlain (h : s.IsWhole) (hd : d.IsWhole) :
    (s.placePlain p packed m d).1.StandsFor
        (s.integral.placePlain p.integral packed m.integral d.integral).1 ∧
      (s.integral.placePlain p.integral packed m.integral d.integral).2 =
        (s.placePlain p packed m d).2.integral := by
  have haligned := h.close (p := p) |>.align (alignmentOf packed d)
  have hwhole : (s.placePlain p packed m d).1.IsWhole := (h.placePlain hd rfl).1
  unfold placePlain at hwhole ⊢
  dsimp only at hwhole ⊢
  rw [alignmentOf_integral, ← close_integral h, ← align_integral h.close]
  refine ⟨⟨hwhole, hd.size, m.name_integral, rfl, TypeDescriptor.size_integral hd,
    d.alignment_integral, rfl⟩, ?_⟩
  unfold integral
  dsimp only
  rw [Quantity.integer_add haligned.cursor.isWhole hd.size.isWhole,
    TypeDescriptor.size_integral hd]
  rfl

end Placer

/-- The same is wrong. The names of types may be written otherwise. -/
inductive LayoutCause.StandsFor : LayoutCause Quantity → LayoutCause Int → Prop
  | unknownType (name : String) : StandsFor (.unknownType name) (.unknownType name)
  | unnamed : StandsFor (.invalidMember .unnamed) (.invalidMember .unnamed)
  | duplicate (name : String) :
    StandsFor (.invalidMember (.duplicate name)) (.invalidMember (.duplicate name))
  | bitfieldArray : StandsFor (.invalidMember .bitfieldArray) (.invalidMember .bitfieldArray)
  | notInteger (type type' : String) :
    StandsFor (.invalidMember (.notInteger type)) (.invalidMember (.notInteger type'))
  | tooDeep (levels : Quantity) :
    StandsFor (.invalidMember (.tooDeep levels)) (.invalidMember (.tooDeep levels.integer))
  | negativeLength (element element' : String) (count : Quantity) :
    StandsFor (.invalidMember (.badLength (.negativeLength element count)))
      (.invalidMember (.badLength (.negativeLength element' count.integer)))
  | bitfieldWidth (width most : Quantity) :
    StandsFor (.bitfieldWidth width most) (.bitfieldWidth width.integer most.integer)
  | unknownPath (path : String) :
    StandsFor (.invalidMember (.unknownPath path)) (.invalidMember (.unknownPath path))
  | notNested (part path : String) :
    StandsFor (.invalidMember (.notNested part path)) (.invalidMember (.notNested part path))
  | cycle (path : List String) : StandsFor (.cycle path) (.cycle path)
  | overlap (first second : String) (start stop : Quantity) :
    StandsFor (.overlap first second start stop)
      (.overlap first second start.integer stop.integer)

theorem LayoutCause.StandsFor.ofChain_iff {c : LayoutCause Quantity} {c' : LayoutCause Int}
    (h : c.StandsFor c') : c.OfChain ↔ c'.OfChain := by
  cases h <;> exact Iff.rfl

inductive LayoutFailure.StandsFor : LayoutFailure Quantity → LayoutFailure Int → Prop
  | invalid {cause : LayoutCause Quantity} {cause' : LayoutCause Int}
    {aggregate member : Option String} (h : cause.StandsFor cause') :
    StandsFor (.invalid { cause, aggregate, member })
      (.invalid { cause := cause', aggregate, member })

/-- Quantities may stop at too many digits, and nothing stops the integers. -/
def digits : Tolerance Quantity Int where
  left f := f = .number .tooManyDigits
  right _ := False
  both := LayoutFailure.StandsFor
  located_left := @LayoutFailure.located_number _ .tooManyDigits
  located_right _ _ h := h
  located_both _ _ h := by
    cases h with
    | invalid h => exact .invalid h

section Steps

variable {p : MachineProfile Quantity} {packed : Bool} {a : Aggregate Quantity}
  {m : Member Quantity} {d : TypeDescriptor Quantity} {s : PartialStruct Quantity}
  {s' : PartialStruct Int} {q width : Quantity}

theorem abreast_number {x : Except NumberFault Unit} {y : Except NumberFault Unit}
    (hx : ∀ fault, x = .error fault → fault = .tooManyDigits) (hy : y = .ok ()) :
    digits.Abreast (fun _ _ => True) (x.mapError LayoutFailure.number)
      (y.mapError LayoutFailure.number) := by
  rw [hy]
  cases x with
  | error fault =>
    obtain rfl := hx fault rfl
    exact .left rfl
  | ok _ => exact .done trivial

theorem abreast_written (h : q.IsWhole) (n : Int) :
    digits.Abreast (fun _ _ => True) ((Measure.written q).mapError LayoutFailure.number)
      ((Measure.written n).mapError LayoutFailure.number) :=
  abreast_number (fun _ hfault => ((Quantity.written_eq_error h).mp hfault).1) rfl

theorem abreast_checkBitfield (hwidth : width.IsWhole) (hd : d.IsWhole) :
    digits.Abreast (fun _ _ => True) (checkBitfield m width d)
      (checkBitfield m.integral width.integer d.integral) := by
  have hout : (width ≤ whole 0 || d.bitSize < width : Bool) =
      (width.integer ≤ whole 0 || d.bitSize.integer < width.integer : Bool) := by
    refine congrArg₂ or (decide_eq_decide.mpr ?_) (decide_eq_decide.mpr ?_)
    · exact Quantity.le_iff hwidth (Quantity.isWhole_whole 0)
    · exact Quantity.lt_iff hd.bitSize hwidth
  unfold checkBitfield
  dsimp only
  rw [m.isArray_integral, d.kind_integral, d.isInteger_integral, m.name_integral,
    TypeDescriptor.bitSize_integral hd, hout]
  by_cases harray : m.isArray = true
  · rw [if_pos harray, if_pos harray]
    exact .both (.invalid .bitfieldArray)
  by_cases hkind : (d.kind != .scalar || !d.isInteger) = true
  · rw [if_neg harray, if_neg harray, if_pos hkind, if_pos hkind]
    exact .both (.invalid (.notInteger _ _))
  rw [if_neg harray, if_neg harray, if_neg hkind, if_neg hkind]
  split
  · refine (abreast_written hwidth _).bind fun _ _ _ => ?_
    refine (abreast_written hd.bitSize _).bind fun _ _ _ => ?_
    exact .both (.invalid (.bitfieldWidth _ _))
  · exact .done trivial

theorem abreast_place {s : Placer Quantity} (hs : s.IsWhole) (hm : m.IsWhole) (hd : d.IsWhole) :
    digits.Abreast (fun r r' => r.1.StandsFor r'.1 ∧ r'.2 = r.2.integral) (s.place p packed m d)
      (s.integral.place p.integral packed m.integral d.integral) := by
  unfold Placer.place
  rw [m.bits_integral]
  cases hbits : m.bits with
  | none => exact .done (Placer.standsFor_placePlain hs hd)
  | some width =>
    have hwidth := hm.bits hbits
    have hready : ((s.closeUnless p (·.type.sameAs d)).restart p width).IsWhole :=
      (hs.closeUnless _).restart
    dsimp only [Option.map_some]
    unfold Placer.placeBitfield
    refine (abreast_checkBitfield hwidth hd).bind fun _ _ _ => .done ?_
    rw [← Placer.closeUnless_integral hs fun u hu => TypeDescriptor.sameAs_integral hu.type hd,
      ← Placer.restart_integral (hs.closeUnless _) hwidth,
      ← Placer.closeUnless_integral hready fun u hu => StorageUnit.fits_integral hu hwidth]
    exact Placer.standsFor_takeBits (hready.closeUnless _) hd hwidth

/-- The integers of a struct that has some of its members. -/
structure PartialStruct.StandsFor (s : PartialStruct Quantity) (s' : PartialStruct Int) : Prop where
  isWhole : s.placer.IsWhole
  placer : s'.placer = s.placer.integral
  alignment : s'.alignment = s.alignment
  placements : List.Forall₂ Placement.StandsFor s.placements s'.placements

theorem PartialStruct.standsFor_start : PartialStruct.StandsFor {} {} :=
  ⟨Placer.isWhole_start, rfl, rfl, .nil⟩

theorem abreast_add (hs : s.StandsFor s') (hm : m.IsWhole) (hd : d.IsWhole) :
    digits.Abreast PartialStruct.StandsFor (s.add p packed m d)
      (s'.add p.integral packed m.integral d.integral) := by
  have hplace : digits.Abreast (fun r r' => r.1.StandsFor r'.1 ∧ r'.2 = r.2.integral)
      (s.placer.place p packed m d) (s.placer.integral.place p.integral packed m.integral
        d.integral) :=
    abreast_place hs.isWhole hm hd
  have hkeeps {q : Placement Quantity} {r : Placer Quantity}
      (hq : s.placer.place p packed m d = .ok (q, r)) : q.IsWhole ∧ r.IsWhole :=
    hs.isWhole.place hm hd hq
  unfold PartialStruct.add
  rw [hs.placer]
  generalize s.placer.place p packed m d = x, s.placer.integral.place p.integral packed m.integral
    d.integral = y at hplace hkeeps
  cases hplace with
  | left hf => exact .left hf
  | right hg => exact hg.elim
  | both hfg => exact .both hfg
  | @done r r' hr =>
    obtain ⟨q, placer⟩ := r
    obtain ⟨q', placer'⟩ := r'
    obtain ⟨hstands, rfl⟩ := hr
    obtain ⟨hq, hplacer⟩ := hkeeps rfl
    refine (abreast_number (x := placer.computed) (fun fault hfault => ?_)
      (Placer.computed_int _)).bind fun _ _ _ => ?_
    · cases hplacer.computed.symm.trans hfault
    refine (abreast_number (x := q.written) (fun fault hfault => ?_)
      (Placement.written_int _)).bind fun _ _ _ => ?_
    · rw [q.written_eq, forM_written_eq_error hq] at hfault
      exact hfault.1
    · refine .done ⟨hplacer, rfl, ?_, .cons hstands hs.placements⟩
      dsimp only
      rw [hs.alignment, d.alignment_integral]

theorem abreast_overlay (hm : m.IsWhole) (hd : d.IsWhole) :
    digits.Abreast Placement.StandsFor (overlay p m d)
      (overlay p.integral m.integral d.integral) := by
  have hsize := TypeDescriptor.size_integral hd
  have hplace : ∀ n ∈ [whole 0, d.size.val], Quantity.IsWhole n :=
    List.forall_mem_cons.mpr ⟨Quantity.isWhole_whole 0,
      List.forall_mem_singleton.mpr hd.size.isWhole⟩
  unfold overlay
  rw [m.bits_integral]
  cases hbits : m.bits with
  | none => exact .done ⟨hplace, hd.size, m.name_integral, rfl, hsize, d.alignment_integral, rfl⟩
  | some width =>
    have hwidth := hm.bits hbits
    have hposition := integer_bitPosition (Quantity.isWhole_whole 0) hwidth hd.bitSize
      p.bitfieldDirection
    dsimp only [Option.map_some]
    have hfield := isWhole_bitPosition (Quantity.isWhole_whole 0) hwidth hd.bitSize
      p.bitfieldDirection
    refine (abreast_checkBitfield hwidth hd).bind fun _ _ _ => .done ?_
    have hbits := List.forall_mem_cons.mpr ⟨hfield, List.forall_mem_singleton.mpr hwidth⟩
    refine ⟨List.forall_mem_append.mpr ⟨hplace, hbits⟩, hd.size, m.name_integral, rfl, hsize,
      d.alignment_integral, congrArg some ?_⟩
    unfold BitRange.integral
    rw [TypeDescriptor.bitSize_integral hd]
    exact congrArg (BitRange.mk · _) hposition.symm

/-- The integers of a layout. -/
structure Layout.StandsFor (l : Layout Quantity) (l' : Layout Int) : Prop where
  isWhole : l.IsWhole
  name : l'.name = l.name
  kind : l'.kind = l.kind
  placements : List.Forall₂ Placement.StandsFor l.placements l'.placements
  padding : l'.padding = l.padding.map Padding.integral
  totalSize : l'.totalSize = l.totalSize.integer
  totalAlignment : l'.totalAlignment = l.totalAlignment
  packed : l'.packed = l.packed

theorem Layout.StandsFor.descriptor {l : Layout Quantity} {l' : Layout Int} (h : l.StandsFor l') :
    l'.descriptor = l.descriptor.integral := by
  unfold Layout.descriptor TypeDescriptor.aggregate TypeDescriptor.integral
  rw [h.name, h.totalSize, h.totalAlignment, Size.integral_of h.isWhole.totalSize.isWhole]

theorem abreast_computed {l : Layout Quantity} {l' : Layout Int} (h : l.StandsFor l') :
    digits.Abreast Layout.StandsFor l.computed l'.computed := by
  rw [h.isWhole.computed]
  exact .done h

theorem PartialStruct.StandsFor.finish (h : s.StandsFor s') (a : Aggregate Quantity) :
    (s.finish p a).StandsFor (s'.finish p.integral a.integral) := by
  have hplacer : (s'.placer.close p.integral).align (if a.packed then .one else s.alignment) =
      ((s.placer.close p).align (if a.packed then .one else s.alignment)).integral := by
    rw [h.placer, ← Placer.close_integral h.isWhole, ← Placer.align_integral h.isWhole.close]
  have hwhole := isWhole_finish (p := p) (a := a) h.isWhole
  unfold PartialStruct.finish at hwhole ⊢
  dsimp only at hwhole ⊢
  rw [a.packed_integral, h.alignment, hplacer]
  refine ⟨hwhole, a.name_integral, a.kind_integral, ?_, rfl, rfl, rfl, rfl⟩
  exact List.rel_reverse h.placements

theorem integer_foldl_larger {qs : List Quantity} {q : Quantity} (hqs : ∀ n ∈ qs, n.IsNatural)
    (hq : q.IsNatural) :
    (qs.foldl Measure.larger q).integer =
      (qs.map Quantity.integer).foldl Measure.larger q.integer := by
  induction qs generalizing q with
  | nil => rfl
  | cons n rest ih =>
    obtain ⟨hn, hrest⟩ := List.forall_mem_cons.mp hqs
    rw [List.map_cons, List.foldl_cons, List.foldl_cons,
      ih hrest (Quantity.isNatural_larger hq hn), Quantity.integer_larger hq.isWhole hn.isWhole]

theorem abreast_finishUnion {placements : List (Placement Quantity)}
    {placements' : List (Placement Int)} (a : Aggregate Quantity)
    (h : List.Forall₂ Placement.StandsFor placements placements') :
    digits.Abreast Layout.StandsFor (finishUnion a placements).computed
      (finishUnion a.integral placements').computed := by
  have hnatural : ∀ q ∈ placements, q.size.val.IsNatural :=
    fun q hq => (exists_of_forall₂ h hq).elim fun _ hq' => hq'.2.natural
  have hsizes : placements'.map (·.size.val) =
      (placements.map (·.size.val)).map Quantity.integer := by
    rw [List.map_map, ← List.forall₂_eq_eq_eq, List.forall₂_map_left_iff,
      List.forall₂_map_right_iff]
    exact h.flip.imp fun _ _ hq => congrArg Size.val hq.size
  have halignments : placements'.map (·.alignment) = placements.map (·.alignment) := by
    rw [← List.forall₂_eq_eq_eq, List.forall₂_map_left_iff, List.forall₂_map_right_iff]
    exact h.flip.imp fun _ _ hq => hq.alignment
  have hlargest : (largestSize placements).IsNatural :=
    isNatural_foldl_larger (List.forall_mem_map.mpr hnatural)
  have hstart : ({ cursor := largestSize placements } : Placer Quantity).IsWhole :=
    ⟨hlargest, fun _ hu => (nomatch hu), Quantity.isWhole_whole 0, fun _ hr => (nomatch hr)⟩
  have hinteger : (placements'.map (·.size.val)).foldl Measure.larger (whole 0) =
      (largestSize placements).integer := by
    rw [hsizes]
    exact (integer_foldl_larger (List.forall_mem_map.mpr hnatural) Quantity.isNatural_zero).symm
  have hwhole := isWhole_finishUnion (a := a) hlargest
  have hplacer := Placer.align_integral hstart (finishUnion a placements).totalAlignment
  refine abreast_computed ?_
  unfold finishUnion at hwhole hplacer ⊢
  dsimp only at hwhole hplacer ⊢
  rw [a.packed_integral, halignments, hinteger]
  refine ⟨hwhole, a.name_integral, a.kind_integral, h, ?_, ?_, rfl, rfl⟩
  · exact (congrArg Placer.padding hplacer).symm
  · exact (congrArg Placer.cursor hplacer).symm

end Steps

section Types

variable {m : Member Quantity} {d : TypeDescriptor Quantity} {q : Quantity}

/-- A type in whole numbers, with its integers. -/
def TypeDescriptor.StandsFor (d : TypeDescriptor Quantity) (d' : TypeDescriptor Int) : Prop :=
  d.IsWhole ∧ d' = d.integral

theorem abreast_arrayOf (hd : d.IsWhole) (hq : q.IsWhole) (hshort : ¬ q.IsTooLong) :
    digits.Abreast TypeDescriptor.StandsFor
      ((TypeDescriptor.arrayOf d q).mapError m.lengthFailure)
      ((TypeDescriptor.arrayOf d.integral q.integer).mapError m.integral.lengthFailure) := by
  have hless : q < whole 0 ↔ q.integer < 0 := Quantity.lt_iff hq (Quantity.isWhole_whole 0)
  cases harray : TypeDescriptor.arrayOf d q with
  | error fault =>
    -- A length with too many digits is a layout error too, but the integers would take it.
    rcases hd.arrayOf_eq_error hq harray with ⟨hlong, _⟩ | ⟨hnegative, rfl⟩
    · exact absurd hlong hshort
    · rw [TypeDescriptor.arrayOf_int, dif_pos (hless.mp hnegative)]
      refine .both ?_
      unfold Member.lengthFailure
      rw [m.name_integral]
      exact .invalid (.negativeLength _ _ q)
  | ok e =>
    obtain ⟨hnonneg, rfl⟩ := TypeDescriptor.arrayOf_eq_ok harray
    rw [TypeDescriptor.arrayOf_int, dif_neg (hless.not.mp hnonneg)]
    exact .done ⟨⟨hd, hq⟩, rfl⟩

theorem abreast_withDims (hm : m.IsWhole) (hshort : m.ShortLengths) (hd : d.IsWhole) :
    digits.Abreast TypeDescriptor.StandsFor (withDims m d) (withDims m.integral d.integral) := by
  have hdims : List.Forall₂ (fun q n => (q.IsWhole ∧ ¬ q.IsTooLong) ∧ n = q.integer)
      m.dims.reverse m.integral.dims.reverse := by
    rw [m.dims_integral]
    refine List.rel_reverse (List.forall₂_map_right_iff.mpr (List.forall₂_same.mpr ?_))
    exact fun q hq => ⟨⟨hm.dims q hq, hshort q hq⟩, rfl⟩
  unfold withDims
  refine .foldlM ?_ hdims ⟨hd, rfl⟩
  rintro q _ e _ ⟨⟨hq, hq'⟩, rfl⟩ ⟨he, rfl⟩
  exact abreast_arrayOf he hq hq'

end Types

theorem TypeDescriptor.integral_pointer (target : String) (size : PowerOfTwo) :
    (pointer target size : TypeDescriptor Quantity).integral = pointer target size := by
  unfold pointer integral
  rw [Size.integral_of ⟨_, Quantity.integer?_measure size⟩, Quantity.integer_measure]

theorem Catalog.describe_integral (c : Catalog Quantity) (name : String) :
    c.integral.describe name = ((c.describe name).map TypeDescriptor.integral).mapError fun _ =>
      { cause := .unknownType name } := by
  have hfound : c.integral.types.find? (c.resolve name) =
      (c.types.find? (c.resolve name)).map TypeDescriptor.integral := Table.find?_mapValues _ _ _
  have hresolve : c.integral.resolve name = c.resolve name := rfl
  unfold describe
  rw [hresolve]
  dsimp only
  rw [hfound]
  by_cases hpointer : TypeName.isPointer (c.resolve name) = true
  · rw [if_pos hpointer, if_pos hpointer]
    exact congrArg Except.ok (TypeDescriptor.integral_pointer _ _).symm
  · rw [if_neg hpointer, if_neg hpointer]
    cases c.types.find? (c.resolve name) <;> rfl

/-- A memo in whole numbers, with its integers. -/
def Memo.StandsFor (memo : Memo Quantity) (memo' : Memo Int) : Prop :=
  memo.WhollyWhole ∧ memo' = memo.integral

theorem Memo.standsFor_nil : Memo.StandsFor [] [] := ⟨fun _ hx => (nomatch hx), rfl⟩

namespace Target

variable {t : Target Quantity} {a b : Aggregate Quantity} {m : Member Quantity}
  {nested : Aggregate Quantity → Layouting Quantity (TypeDescriptor Quantity)}
  {nested' : Aggregate Int → Layouting Int (TypeDescriptor Int)} {levels : Nat}
  {path : List String}

theorem run_typeWith (ht : t.catalog.IsWhole) (hm : m.IsWhole) (hshort : m.ShortLengths)
    (hn : ∀ b, t.nested? m.type = some b →
      digits.Run Memo.StandsFor TypeDescriptor.StandsFor (nested b) (nested' b.integral)) :
    digits.Run Memo.StandsFor TypeDescriptor.StandsFor (t.typeWith nested m)
      (t.integral.typeWith nested' m.integral) := by
  have dims (d : TypeDescriptor Quantity) (d' : TypeDescriptor Int) (h : d.StandsFor d') :
      digits.Run Memo.StandsFor TypeDescriptor.StandsFor
        (liftM (withDims m d) : Layouting Quantity _) (liftM (withDims m.integral d')) := by
    obtain ⟨hd, rfl⟩ := h
    exact .lift (abreast_withDims hm hshort hd)
  have htype := hm.type
  unfold typeWith
  rw [m.type_integral]
  cases hr : m.type with
  | descriptor d =>
    rw [hr] at htype
    cases htype with
    | descriptor hd =>
      exact (Tolerance.Run.pure (R := TypeDescriptor.StandsFor) ⟨hd, rfl⟩).bind dims
  | inline b =>
    exact (hn b (congrArg t.nested? hr)).bind dims
  | named name =>
    have hnested : t.integral.catalog.nested? name =
        (t.catalog.nested? name).map Aggregate.integral := t.catalog.nested?_integral name
    unfold TypeRef.integral
    dsimp only
    rw [hnested]
    cases hb : t.catalog.nested? name with
    | some b => exact (hn b ((congrArg t.nested? hr).trans hb)).bind dims
    | none =>
      have hdescribe : digits.Abreast TypeDescriptor.StandsFor
          ((t.catalog.describe name).mapError LayoutFailure.invalid)
          ((t.integral.catalog.describe name).mapError LayoutFailure.invalid) := by
        rw [show t.integral.catalog = t.catalog.integral from rfl, Catalog.describe_integral]
        cases hd : t.catalog.describe name with
        | ok d => exact .done ⟨isWhole_describe ht hd, rfl⟩
        | error e =>
          obtain rfl := Catalog.describe_error hd
          exact .both (.invalid (.unknownType name))
      exact (Tolerance.Run.lift hdescribe).bind dims

theorem abreast_checkCycle (path : List String) (a : Aggregate Quantity) :
    digits.Abreast (fun _ _ => True) (checkCycle path a) (checkCycle path a.integral) := by
  unfold checkCycle
  rw [a.name_integral]
  split
  · exact .both (.invalid (.cycle _))
  · exact .done trivial

theorem abreast_checkNames (a : Aggregate Quantity) (seen : List String)
    (members : List (Member Quantity)) :
    digits.Abreast (fun _ _ => True) (checkNames a seen members)
      (checkNames a.integral seen (members.map Member.integral)) := by
  induction members generalizing seen with
  | nil => exact .done trivial
  | cons m rest ih =>
    rw [List.map_cons]
    unfold checkNames
    rw [a.name_integral, m.name_integral]
    split
    · exact .both (.invalid .unnamed)
    · split
      · exact .both (.invalid (.duplicate _))
      · exact ih _

theorem run_tooDeep (ht : t.IsWhole) (a : Aggregate Quantity) {R : Layout Quantity → Layout Int →
    Prop} :
    digits.Run Memo.StandsFor R (throw (t.tooDeep a)) (throw (t.integral.tooDeep a.integral)) := by
  intro memo memo' _
  change digits.Abreast _ (.error (t.tooDeep a)) (.error (t.integral.tooDeep a.integral))
  unfold tooDeep
  rw [a.name_integral]
  cases hw : Measure.written t.maxDepth with
  | error fault =>
    obtain ⟨rfl, _⟩ := (Quantity.written_eq_error ht.maxDepth).mp hw
    exact .left rfl
  | ok _ => exact .both (.invalid (.tooDeep _))

theorem run_layoutWith (ht : t.catalog.IsWhole) (ha : a.IsWhole)
    (hshort : ∀ m ∈ a.members, m.ShortLengths)
    (hn : ∀ b, t.Nests a b → digits.Run Memo.StandsFor TypeDescriptor.StandsFor (nested b)
      (nested' b.integral)) :
    digits.Run Memo.StandsFor Layout.StandsFor (t.layoutWith nested a)
      (t.integral.layoutWith nested' a.integral) := by
  refine .layoutWith (N := fun m m' => m ∈ a.members ∧ m' = m.integral)
    (D := TypeDescriptor.StandsFor) (P := PartialStruct.StandsFor) (Q := Placement.StandsFor)
    a.name_integral.symm a.kind_integral.symm ?_ ?_ ?_ PartialStruct.standsFor_start ?_ ?_ ?_ ?_
  · rw [a.members_integral]
    exact List.forall₂_map_right_iff.mpr (List.forall₂_same.mpr fun m hm => ⟨hm, rfl⟩)
  · rintro m _ ⟨_, rfl⟩
    exact m.name_integral.symm
  · rintro m _ ⟨hm, rfl⟩
    exact run_typeWith ht (ha.member hm) (hshort m hm) fun b hb => hn b ⟨m, hm, hb⟩
  · rintro m _ d _ s s' ⟨hm, rfl⟩ ⟨hd, rfl⟩ hs
    rw [a.packed_integral]
    exact abreast_add hs (ha.member hm) hd
  · exact fun s s' hs => abreast_computed (hs.finish a)
  · rintro m _ d _ ⟨hm, rfl⟩ ⟨hd, rfl⟩
    exact abreast_overlay (ha.member hm) hd
  · exact fun ps ps' hps => abreast_finishUnion a hps

theorem run_nestedAt {keep : Bool} (hb : b.IsWhole)
    (h : digits.Run Memo.StandsFor Layout.StandsFor (t.layoutAt keep levels path b)
      (t.integral.layoutAt keep levels path b.integral)) :
    digits.Run Memo.StandsFor TypeDescriptor.StandsFor (t.nestedAt keep levels path b)
      (t.integral.nestedAt keep levels path b.integral) := by
  -- Whole aggregates are equal when their integers are, so both memos have it or neither does.
  refine .remembered (h.bind fun l l' hl => .pure ⟨hl.isWhole.descriptor, hl.descriptor⟩) keep ?_ ?_
  · rintro memo _ ⟨hmemo, rfl⟩
    rw [Memo.find?_integral hmemo hb]
    cases hd : memo.find? b with
    | none => exact .none
    | some d =>
      obtain ⟨x, hx, rfl⟩ := Option.map_eq_some_iff.mp hd
      exact .some ⟨(hmemo x (List.mem_of_find?_eq_some hx)).2, rfl⟩
  · rintro memo _ d _ ⟨hmemo, rfl⟩ ⟨hd, rfl⟩
    exact ⟨List.forall_mem_cons.mpr ⟨⟨hb, hd⟩, hmemo⟩, rfl⟩

theorem run_layoutAt (ht : t.IsWhole) (keep : Bool) (levels : Nat) (path : List String)
    (ha : a.IsWhole) (hshort : t.ShortBelow a) :
    digits.Run Memo.StandsFor Layout.StandsFor (t.layoutAt keep levels path a)
      (t.integral.layoutAt keep levels path a.integral) := by
  induction levels generalizing path a with
  | zero =>
    unfold layoutAt
    exact (Tolerance.Run.lift (abreast_checkCycle path a)).bind fun _ _ _ => run_tooDeep ht a
  | succ levels ih =>
    unfold layoutAt
    refine (Tolerance.Run.lift (abreast_checkCycle path a)).bind fun _ _ _ => ?_
    rw [a.members_integral, a.name_integral]
    refine (Tolerance.Run.lift (abreast_checkNames a [] a.members)).bind fun _ _ _ => ?_
    refine run_layoutWith ht.catalog ha (hshort a .refl) fun b hb => ?_
    have hwhole := isWhole_nests ht.catalog ha hb
    exact run_nestedAt hwhole (ih _ hwhole (hshort.nests hb))

theorem levels_integral (ht : t.IsWhole) : t.integral.levels = t.levels := by
  obtain ⟨n, hn⟩ := ht.maxDepth
  unfold levels integral Quantity.integer
  cases hdepth : t.maxDepth with
  | decimal x => cases (hdepth ▸ hn : Quantity.integer? (.decimal x) = _)
  | _ => rfl

theorem abreast_noted {x : Layouting Quantity (Layout Quantity)} {y : Layouting Int (Layout Int)}
    (h : digits.Run Memo.StandsFor Layout.StandsFor x y) :
    digits.Abreast Layout.StandsFor (noted x) (noted y) := by
  unfold noted
  refine (h.run' Memo.standsFor_nil).bind fun l l' hl => ?_
  refine (abreast_number (fun fault hfault => ?_) rfl).bind fun _ _ _ => .done hl
  exact (hl.isWhole.written_eq_error.mp hfault).1

/-- The layout in whole quantities is the one in integers, or both fail alike, but for numbers with
too many digits. -/
theorem abreast_layout (ht : t.IsWhole) (ha : a.IsWhole) (hshort : t.ShortBelow a) :
    digits.Abreast Layout.StandsFor (t.layout a) (t.integral.layout a.integral) := by
  unfold layout
  rw [levels_integral ht]
  exact abreast_noted (run_layoutAt ht true _ _ ha hshort)

theorem abreast_layoutAfresh (ht : t.IsWhole) (ha : a.IsWhole) (hshort : t.ShortBelow a) :
    digits.Abreast Layout.StandsFor (t.layoutAfresh a) (t.integral.layoutAfresh a.integral) := by
  unfold layoutAfresh
  rw [levels_integral ht]
  exact abreast_noted (run_layoutAt ht false _ _ ha hshort)

theorem abreast_memberType (ht : t.IsWhole) (ha : a.IsWhole) (hshort : t.ShortBelow a)
    (hm : m ∈ a.members) :
    digits.Abreast TypeDescriptor.StandsFor (t.memberType m)
      (t.integral.memberType m.integral) := by
  unfold memberType
  rw [levels_integral ht]
  refine Tolerance.Run.run' (run_typeWith ht.catalog (ha.member hm) (hshort a .refl m hm)
    fun b hb => ?_) Memo.standsFor_nil
  have hnests : t.Nests a b := ⟨m, hm, hb⟩
  have hwhole := isWhole_nests ht.catalog ha hnests
  exact run_nestedAt hwhole (run_layoutAt ht true _ _ hwhole (hshort.nests hnests))

/-- Where there is a layout in quantities there is one in the integers that they stand for. -/
theorem exists_integral_layout {l : Layout Quantity} (ht : t.IsWhole) (ha : a.IsWhole)
    (h : t.layout a = .ok l) : ∃ l', t.integral.layout a.integral = .ok l' ∧ l.StandsFor l' := by
  have habreast := abreast_layout ht ha (shortBelow_of_layout ht.catalog ha h)
  rw [h] at habreast
  generalize t.integral.layout a.integral = y at habreast
  cases habreast with
  | right hg => exact hg.elim
  | done hl => exact ⟨_, rfl, hl⟩

end Target

end AggregateLayout
