import Mathlib
import AggregateLayout.Proofs.Placing
import AggregateLayout.Proofs.Tiling.Extent

namespace AggregateLayout

def StorageUnit.taken (direction : BitfieldDirection) (start : Int) (u : StorageUnit Int)
    (v : Valuation) : Int :=
  match direction with
  | .lowToHigh => v.of (8 * start) (8 * start + u.used)
  | .highToLow => v.of (8 * start + u.type.size.val * 8 - u.used) (8 * start + u.type.size.val * 8)

namespace StorageUnit

variable (direction : BitfieldDirection) (start : Int) (v : Valuation)

theorem taken_take (u : StorageUnit Int) {width : Int} (hu : 0 ≤ u.used) (hw : 0 ≤ width) :
    u.taken direction start v +
        v.of (8 * start + bitPosition direction u.used width u.type.bitSize)
          (8 * start + bitPosition direction u.used width u.type.bitSize + width) =
      (u.take width).taken direction start v := by
  cases direction with
  | lowToHigh =>
    change v.of (8 * start) (8 * start + u.used) +
      v.of (8 * start + u.used) (8 * start + u.used + width) =
        v.of (8 * start) (8 * start + (u.used + width))
    rw [← add_assoc]
    exact v.add (by omega) (by omega)
  | highToLow =>
    let bits := u.type.size.val * 8
    change v.of (8 * start + bits - u.used) (8 * start + bits) +
      v.of (8 * start + (bits - u.used - width)) (8 * start + (bits - u.used - width) + width) =
        v.of (8 * start + bits - (u.used + width)) (8 * start + bits)
    rw [show 8 * start + (bits - u.used - width) = 8 * start + bits - (u.used + width) by omega,
      show 8 * start + bits - (u.used + width) + width = 8 * start + bits - u.used by omega,
      add_comm]
    exact v.add (by omega) (by omega)

theorem taken_fresh (d : TypeDescriptor Int) :
    ({ type := d, used := 0 } : StorageUnit Int).taken direction start v = 0 := by
  cases direction with
  | lowToHigh =>
    change v.of (8 * start) (8 * start + 0) = 0
    rw [add_zero, v.of_self]
  | highToLow =>
    change v.of (8 * start + d.size.val * 8 - 0) _ = 0
    rw [sub_zero, v.of_self]

theorem taken_full (u : StorageUnit Int) (h : u.used = u.type.size.val * 8) :
    u.taken direction start v = v.of (8 * start) (8 * (start + u.type.size.val)) := by
  have stop : 8 * start + u.type.size.val * 8 = 8 * (start + u.type.size.val) := by ring
  cases direction with
  | lowToHigh =>
    change v.of (8 * start) (8 * start + u.used) = _
    rw [h, stop]
  | highToLow =>
    change v.of (8 * start + u.type.size.val * 8 - u.used) _ = _
    rw [h, add_sub_cancel_right, stop]

theorem skip?_eq_some {u : StorageUnit Int} {width gap : Int} (h : u.skip? width = some gap) :
    0 < gap ∧ u.used + gap + width ≤ u.type.size.val * 8 := by
  unfold skip? at h
  dsimp only at h
  split at h
  · cases h
  · next declined =>
    cases h
    have hf : (u.take (8 - u.used % 8)).fits width = true := by
      by_contra hf
      apply declined
      change (_ || !(u.take (8 - u.used % 8)).fits width) = true
      rw [Bool.not_eq_true _ |>.mp hf, Bool.not_false, Bool.or_true]
    refine ⟨?_, StorageUnit.fits_iff.mp hf⟩
    change 0 < 8 - u.used % 8
    omega

end StorageUnit

structure Padding.Listed (padding : List (Padding Int)) (stop : Int) : Prop where
  nonempty : ∀ r ∈ padding, 0 < r.length
  ordered : padding.Pairwise (·.offset ≤ ·.offset)
  behind : ∀ r ∈ padding, r.offset ≤ stop

namespace Padding.Listed

variable {padding : List (Padding Int)} {stop stop' : Int}

theorem nil (stop : Int) : Listed [] stop :=
  ⟨fun _ hr => (nomatch hr), .nil, fun _ hr => (nomatch hr)⟩

theorem mono (h : Listed padding stop) (hle : stop ≤ stop') : Listed padding stop' :=
  ⟨h.nonempty, h.ordered, fun r hr => (h.behind r hr).trans hle⟩

theorem append {r : Padding Int} (h : Listed padding stop) (hlength : 0 < r.length)
    (hoffset : r.offset = stop) : Listed (padding ++ [r]) stop := by
  refine ⟨fun q hq => ?_, ?_, fun q hq => ?_⟩
  · rcases List.mem_append.mp hq with hq | hq
    · exact h.nonempty q hq
    · obtain rfl := List.mem_singleton.mp hq
      exact hlength
  · apply List.pairwise_append.mpr
    refine ⟨h.ordered, List.pairwise_singleton _ _, fun q hq x hx => ?_⟩
    obtain rfl := List.mem_singleton.mp hx
    rw [hoffset]
    exact h.behind q hq
  · rcases List.mem_append.mp hq with hq | hq
    · exact h.behind q hq
    · obtain rfl := List.mem_singleton.mp hq
      exact hoffset.le

end Padding.Listed

namespace Placer

def base (s : Placer Int) : Int :=
  match s.unit with
  | none => s.cursor
  | some _ => s.unitStart

def openBits (direction : BitfieldDirection) (s : Placer Int) (v : Valuation) : Int :=
  match s.unit with
  | none => 0
  | some u => u.taken direction s.unitStart v

structure Tiled (direction : BitfieldDirection) (s : Placer Int) (es : List Extent) : Prop where
  base_nonneg : 0 ≤ s.base
  filled : ∀ v : Valuation,
    v.total es + v.total (s.padding.map Padding.extent) =
      v.of 0 (8 * s.base) + s.openBits direction v
  listed : Padding.Listed s.padding s.base
  unit : ∀ u, s.unit = some u →
    0 ≤ u.used ∧ u.used ≤ u.type.size.val * 8 ∧ s.cursor = s.unitStart + u.type.size.val

section Units

variable {μ : Type} [Measure μ]

theorem align_unit (s : Placer μ) (a : PowerOfTwo) : (s.align a).unit = s.unit := by
  unfold align
  dsimp only
  split <;> rfl

theorem align_cursor (s : Placer μ) (a : PowerOfTwo) :
    (s.align a).cursor = roundUp s.cursor a := by
  unfold align
  dsimp only
  split <;> rfl

theorem close_of_unit {s : Placer μ} (hs : s.unit = none) (p : MachineProfile μ) :
    s.close p = s := by
  unfold close
  rw [hs]

theorem close_unit (p : MachineProfile μ) (s : Placer μ) : (s.close p).unit = none := by
  unfold close
  split
  · assumption
  · rfl

theorem unit_closeUnless {p : MachineProfile μ} {s : Placer μ} {test : StorageUnit μ → Bool}
    {u : StorageUnit μ} (h : (s.closeUnless p test).unit = some u) :
    s.closeUnless p test = s ∧ test u = true := by
  unfold closeUnless at h ⊢
  cases hu : s.unit with
  | none =>
    rw [hu] at h
    dsimp only at h
    rw [hu] at h
    cases h
  | some q =>
    rw [hu] at h
    dsimp only at h ⊢
    split at h
    · next ht =>
      rw [hu] at h
      cases h
      rw [if_pos ht]
      exact ⟨rfl, ht⟩
    · rw [close_unit] at h
      cases h

end Units

namespace Tiled

variable {direction : BitfieldDirection} {s : Placer Int} {es : List Extent}

theorem start : ({} : Placer Int).Tiled direction [] where
  base_nonneg := le_refl 0
  filled v := by
    change (0 : Int) + 0 = v.of 0 0 + 0
    rw [v.of_self]
  listed := .nil 0
  unit := by simp

theorem align (h : s.Tiled direction es) (hu : s.unit = none) (a : PowerOfTwo) :
    (s.align a).Tiled direction es := by
  obtain ⟨cursor, _, unitStart, padding⟩ := s
  subst hu
  have hb : 0 ≤ cursor := h.base_nonneg
  have hle := le_roundUp cursor a
  unfold Placer.align
  dsimp only
  split
  · next lt =>
    refine ⟨hb.trans hle, fun v => ?_, ?_, by simp⟩
    · have hv := h.filled v
      have joined := v.add (show 0 ≤ 8 * cursor by omega)
        (show 8 * cursor ≤ 8 * roundUp cursor a by omega)
      simp only [base, openBits] at hv ⊢
      simp only [List.map_append, List.map_cons, List.map_nil, Valuation.total_append,
        Valuation.total_cons, Valuation.total_nil, Padding.extent]
      rw [show cursor + (roundUp cursor a - cursor) = roundUp cursor a by omega]
      omega
    · have hlength : 0 < (Padding.bytes cursor (roundUp cursor a - cursor)).length := by
        change 0 < roundUp cursor a - cursor
        omega
      exact (h.listed.append hlength rfl).mono hle
  · next lt =>
    have he : roundUp cursor a = cursor := by omega
    rw [he]
    exact h

theorem padUnit (h : s.Tiled direction es) {u : StorageUnit Int} (hu : s.unit = some u) {gap : Int}
    (hgap : 0 < gap) (hfits : u.used + gap ≤ u.type.size.val * 8) :
    Placer.Tiled direction
      { s with
        unit := some (u.take gap)
        padding := s.padding ++ [u.padding direction s.unitStart gap] } es := by
  obtain ⟨cursor, _, unitStart, padding⟩ := s
  subst hu
  obtain ⟨used, _, hc⟩ := h.unit u rfl
  refine ⟨h.base_nonneg, fun v => ?_, h.listed.append hgap rfl, ?_⟩
  · have hv := h.filled v
    have ht := u.taken_take direction unitStart v used hgap.le
    simp only [base, openBits] at hv ⊢
    simp only [List.map_append, List.map_cons, List.map_nil, Valuation.total_append,
      Valuation.total_cons, Valuation.total_nil, Padding.extent, StorageUnit.padding]
    omega
  · rintro _ ⟨⟩
    change 0 ≤ u.used + gap ∧ u.used + gap ≤ u.type.size.val * 8 ∧ cursor = _
    exact ⟨by omega, hfits, hc⟩

theorem dropUnit (h : s.Tiled direction es) {u : StorageUnit Int} (hu : s.unit = some u)
    (full : u.used = u.type.size.val * 8) : Placer.Tiled direction { s with unit := none } es := by
  obtain ⟨cursor, _, unitStart, padding⟩ := s
  subst hu
  obtain ⟨used, _, hc⟩ := h.unit u rfl
  have hb : 0 ≤ unitStart := h.base_nonneg
  have later : unitStart ≤ cursor := by
    have := u.type.size.val_nonneg
    simp only at hc
    omega
  refine ⟨hb.trans later, fun v => ?_, h.listed.mono later, by simp⟩
  · have hv := h.filled v
    have joined := v.add (show 0 ≤ 8 * unitStart by omega)
      (show 8 * unitStart ≤ 8 * (unitStart + u.type.size.val) by omega)
    simp only [base, openBits, u.taken_full direction unitStart v full] at hv hc ⊢
    rw [hc]
    omega

theorem close {p : MachineProfile Int} (h : s.Tiled p.bitfieldDirection es) :
    (s.close p).Tiled p.bitfieldDirection es := by
  unfold Placer.close
  cases hu : s.unit with
  | none => exact h
  | some u =>
    obtain ⟨_, room, _⟩ := h.unit u hu
    dsimp only
    split
    · next left =>
      refine (h.padUnit hu left (by rw [u.type.bitSize_int]; omega)).dropUnit rfl ?_
      change u.used + (u.type.size.val * 8 - u.used) = u.type.size.val * 8
      omega
    · next left =>
      rw [List.append_nil]
      refine h.dropUnit hu ?_
      change ¬ 0 < u.type.size.val * 8 - u.used at left
      omega

theorem closeUnless {p : MachineProfile Int} (h : s.Tiled p.bitfieldDirection es)
    (test : StorageUnit Int → Bool) : (s.closeUnless p test).Tiled p.bitfieldDirection es := by
  unfold Placer.closeUnless
  split
  · exact h
  · split
    · exact h
    · exact h.close

theorem restart {p : MachineProfile Int} (h : s.Tiled p.bitfieldDirection es) {width : Int}
    (hw : 0 ≤ width) : (s.restart p width).Tiled p.bitfieldDirection es := by
  unfold Placer.restart
  cases hu : s.unit with
  | none => exact h
  | some u =>
    dsimp only
    split
    · exact h
    · next gap hg =>
      split
      · obtain ⟨hpos, hfits⟩ := StorageUnit.skip?_eq_some hg
        exact h.padUnit hu hpos (by omega)
      · exact h

theorem openUnit (h : s.Tiled direction es) (hu : s.unit = none) (packed : Bool)
    (d : TypeDescriptor Int) : (s.openUnit packed d).Tiled direction es := by
  have ha := h.align hu (alignmentOf packed d)
  have hn : (s.align (alignmentOf packed d)).unit = none := (s.align_unit _).trans hu
  unfold Placer.openUnit
  generalize s.align (alignmentOf packed d) = q at ha hn
  obtain ⟨cursor, _, unitStart, padding⟩ := q
  subst hn
  refine ⟨ha.base_nonneg, fun v => ?_, ha.listed, ?_⟩
  · have hv := ha.filled v
    simp only [base, openBits] at hv ⊢
    rw [Measure.whole_int, StorageUnit.taken_fresh]
    exact hv
  · rintro _ ⟨⟩
    have := d.size.val_nonneg
    change 0 ≤ (0 : Int) ∧ 0 ≤ d.size.val * 8 ∧ _
    exact ⟨le_refl 0, by omega, rfl⟩

theorem takeField (h : s.Tiled direction es) {u : StorageUnit Int} (hu : s.unit = some u)
    {width : Int} (hw : 0 ≤ width) (hfits : u.used + width ≤ u.type.size.val * 8) :
    Placer.Tiled direction { s with unit := some (u.take width) }
      ({ start := 8 * s.unitStart + bitPosition direction u.used width u.type.bitSize
         stop := 8 * s.unitStart + bitPosition direction u.used width u.type.bitSize + width } ::
        es) := by
  obtain ⟨cursor, _, unitStart, padding⟩ := s
  subst hu
  obtain ⟨used, _, hc⟩ := h.unit u rfl
  refine ⟨h.base_nonneg, fun v => ?_, h.listed, ?_⟩
  · have hv := h.filled v
    have ht := u.taken_take direction unitStart v used hw
    simp only [base, openBits, Valuation.total_cons] at hv ⊢
    omega
  · rintro _ ⟨⟩
    change 0 ≤ u.used + width ∧ u.used + width ≤ u.type.size.val * 8 ∧ cursor = _
    exact ⟨by omega, hfits, hc⟩

theorem takeBits {p : MachineProfile Int} (h : s.Tiled p.bitfieldDirection es) {packed : Bool}
    {m : Member Int} {width : Int} {d : TypeDescriptor Int} {placement : Placement Int}
    {s' : Placer Int} (fits : m.FitsBits width d)
    (room : ∀ u, s.unit = some u → u.used + width ≤ u.type.size.val * 8)
    (hs : s.takeBits p packed m width d = (placement, s')) :
    s'.Tiled p.bitfieldDirection (placement.extent :: es) := by
  have hw : 0 ≤ width := by have := fits.positive; omega
  unfold Placer.takeBits at hs
  cases hu : s.unit with
  | some u =>
    rw [hu] at hs
    obtain ⟨rfl, rfl⟩ := Prod.mk.inj hs
    exact h.takeField hu hw (room u hu)
  | none =>
    rw [hu] at hs
    obtain ⟨rfl, rfl⟩ := Prod.mk.inj hs
    refine (h.openUnit hu packed d).takeField rfl hw ?_
    have := fits.within
    change 0 + width ≤ d.size.val * 8
    omega

theorem placePlain {p : MachineProfile Int} (h : s.Tiled p.bitfieldDirection es) {packed : Bool}
    {m : Member Int} {d : TypeDescriptor Int} {placement : Placement Int} {s' : Placer Int}
    (hs : s.placePlain p packed m d = (placement, s')) :
    s'.Tiled p.bitfieldDirection (placement.extent :: es) := by
  have ha := h.close.align (s.close_unit p) (alignmentOf packed d)
  have hn : ((s.close p).align (alignmentOf packed d)).unit = none :=
    (align_unit _ _).trans (s.close_unit p)
  obtain ⟨rfl, rfl⟩ := Prod.mk.inj hs
  generalize (s.close p).align (alignmentOf packed d) = q at ha hn
  obtain ⟨cursor, _, unitStart, padding⟩ := q
  subst hn
  have hb : 0 ≤ cursor := ha.base_nonneg
  have later : cursor ≤ cursor + d.size.val := le_add_of_nonneg_right d.size.val_nonneg
  refine ⟨hb.trans later, fun v => ?_, ha.listed.mono later, by simp⟩
  have hv := ha.filled v
  have joined := v.add (show 0 ≤ 8 * cursor by omega)
    (show 8 * cursor ≤ 8 * (cursor + d.size.val) by omega)
  simp only [base, openBits, Valuation.total_cons, Placement.extent] at hv ⊢
  omega

theorem place {p : MachineProfile Int} (h : s.Tiled p.bitfieldDirection es) {packed : Bool}
    {m : Member Int} {d : TypeDescriptor Int} {placement : Placement Int} {s' : Placer Int}
    (hs : s.place p packed m d = .ok (placement, s')) :
    s'.Tiled p.bitfieldDirection (placement.extent :: es) := by
  rcases place_eq_ok.mp hs with ⟨_, hs⟩ | ⟨width, _, fits, hs⟩
  · exact h.placePlain hs
  · have hw : 0 ≤ width := by have := fits.positive; omega
    have ht := ((h.closeUnless (·.type.sameAs d)).restart hw).closeUnless (·.fits width)
    refine ht.takeBits fits (fun u hu => ?_) hs
    exact StorageUnit.fits_iff.mp (unit_closeUnless hu).2

end Tiled

end Placer

end AggregateLayout
