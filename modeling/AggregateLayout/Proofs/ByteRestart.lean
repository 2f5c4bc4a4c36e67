import Mathlib
import AggregateLayout.Proofs.Fronts

namespace AggregateLayout

/-- A field that fits in a byte is in one byte of its unit. -/
def Placement.KeepsByte (q : Placement Int) : Prop :=
  ∀ bits, q.bits = some bits → bits.width ≤ 8 →
    bits.offset / 8 = (bits.offset + bits.width - 1) / 8

/-- From the next free bit on, a field that fits in a byte would lie in two. -/
def StorageUnit.Straddles (u : StorageUnit Int) (width : Int) : Prop :=
  width ≤ 8 ∧ 8 < u.used % 8 + width

/-- The field is at the start of a new unit behind everything, and what was open is closed. -/
structure Placer.Reopens (p : MachineProfile Int) (packed : Bool) (width : Int)
    (d : TypeDescriptor Int) (s : Placer Int) (q : Placement Int) (s' : Placer Int) : Prop where
  offset : q.offset = roundUp s.cursor (alignmentOf packed d)
  bits : q.bits = some { offset := bitPosition p.bitfieldDirection 0 width d.bitSize, width }
  unit : s'.unit = some { type := d, used := width }
  unitStart : s'.unitStart = q.offset
  padding : s'.padding = ((s.close p).align (alignmentOf packed d)).padding

variable {p : MachineProfile Int} {packed : Bool} {m : Member Int} {d : TypeDescriptor Int}
  {s s' : Placer Int} {q : Placement Int} {u : StorageUnit Int} {width used : Int}

theorem fieldStart_inByte (hp : p.bitfieldByteRestart = true) (hwidth : width ≤ 8) :
    fieldStart p width used % 8 + width ≤ 8 := by
  unfold fieldStart
  rw [if_pos hp]
  split <;> omega

theorem bitPosition_inByte (direction : BitfieldDirection) (used size : Int) (hpos : 1 ≤ width)
    (h : used % 8 + width ≤ 8) :
    bitPosition direction used width (size * 8) / 8 =
      (bitPosition direction used width (size * 8) + width - 1) / 8 := by
  cases direction with
  | lowToHigh =>
    change used / 8 = (used + width - 1) / 8
    omega
  | highToLow =>
    change (size * 8 - used - width) / 8 = (size * 8 - used - width + width - 1) / 8
    omega

namespace StorageUnit

theorem skip?_of_no_room (hroom : (u.take (8 - u.used % 8)).fits width = false) :
    u.skip? width = none := by
  unfold skip?
  dsimp only
  rw [if_pos]
  change (_ || !(u.take (8 - u.used % 8)).fits width) = true
  rw [hroom, Bool.not_false, Bool.or_true]

theorem Straddles.not_fits (h : u.Straddles width)
    (hroom : (u.take (8 - u.used % 8)).fits width = false) : u.fits width = false := by
  obtain ⟨hwidth, hstraddles⟩ := h
  rw [← Bool.not_eq_true, fits_iff] at hroom ⊢
  change ¬ u.used + (8 - u.used % 8) + width ≤ u.type.size.val * 8 at hroom
  omega

end StorageUnit

namespace Placer

theorem place_keepsByte (hp : p.bitfieldByteRestart = true)
    (h : s.place p packed m d = .ok (q, s')) : q.KeepsByte := by
  intro bits hbits hwidth
  rcases place_eq_ok.mp h with ⟨_, h⟩ | ⟨width, _, fits, h⟩
  · obtain rfl := congrArg Prod.fst h
    cases hbits
  · change (s.ready p d width).takeBits p packed m width d = _ at h
    have hroom := @room?_front p s d width
    obtain rfl := congrArg Prod.fst h
    unfold takeBits at hbits
    cases hr : (s.ready p d width).unit with
    | some u =>
      rw [hr] at hbits hroom
      obtain rfl := Option.some.inj hbits
      obtain ⟨_, used, _, _, hused, _⟩ := Front.room?_eq_some.mp hroom
      have hstart : u.used = fieldStart p width used := hused
      refine bitPosition_inByte _ _ _ fits.positive ?_
      rw [hstart]
      exact fieldStart_inByte hp hwidth
    | none =>
      rw [hr] at hbits
      obtain rfl := Option.some.inj hbits
      refine bitPosition_inByte _ 0 _ fits.positive ?_
      rwa [Int.zero_emod, zero_add]

theorem ready_of_no_room (hu : s.unit = some u) (hsame : u.type.sameAs d = true)
    (hskip : u.skip? width = none) (hfits : u.fits width = false) :
    s.ready p d width = s.close p := by
  have hkept : s.closeUnless p (·.type.sameAs d) = s := by
    unfold closeUnless
    rw [hu]
    exact if_pos hsame
  have hrestart : s.restart p width = s := by
    unfold restart
    rw [hu]
    dsimp only
    rw [hskip]
  unfold ready
  rw [hkept, hrestart]
  unfold closeUnless
  rw [hu]
  exact if_neg (Bool.eq_false_iff.mp hfits)

theorem place_reopens (hu : s.unit = some u) (hsame : u.type.sameAs d = true)
    (hbits : m.bits = some width) (fits : m.FitsBits width d) (hstraddles : u.Straddles width)
    (hroom : (u.take (8 - u.used % 8)).fits width = false) :
    ∃ q s', s.place p packed m d = .ok (q, s') ∧ s.Reopens p packed width d q s' := by
  have hready : s.ready p d width = s.close p :=
    ready_of_no_room hu hsame (StorageUnit.skip?_of_no_room hroom) (hstraddles.not_fits hroom)
  have hplace : s.place p packed m d = .ok ((s.close p).takeBits p packed m width d) :=
    place_eq_ok.mpr (.inr ⟨width, hbits, fits, by
      rw [← hready]
      rfl⟩)
  have hstart : ((s.close p).align (alignmentOf packed d)).cursor =
      roundUp s.cursor (alignmentOf packed d) := by
    rw [align_cursor, (close_keeps p s).1]
  refine ⟨((s.close p).takeBits p packed m width d).1,
    ((s.close p).takeBits p packed m width d).2, hplace, ?_⟩
  unfold takeBits
  rw [close_unit p s]
  refine ⟨hstart, rfl, ?_, rfl, rfl⟩
  change some (StorageUnit.mk d (0 + width)) = _
  rw [zero_add]

end Placer

theorem overlay_keepsByte (h : overlay p m d = .ok q) : q.KeepsByte := by
  intro bits hbits hwidth
  unfold overlay at h
  cases hm : m.bits with
  | none =>
    rw [hm] at h
    obtain rfl := Except.ok.inj h
    cases hbits
  | some width =>
    rw [hm] at h
    obtain ⟨_, hcheck, h⟩ := except_bind_eq_ok.mp h
    obtain rfl := Except.ok.inj h
    obtain rfl := Option.some.inj hbits
    refine bitPosition_inByte _ 0 _ (checkBitfield_eq_ok.mp hcheck).positive ?_
    rwa [Int.zero_emod, zero_add]

theorem Layout.keepsByte_ofTypes {a : Aggregate Int} {l : Layout Int}
    {typed : List (Member Int × TypeDescriptor Int)} (hp : p.bitfieldByteRestart = true)
    (h : ofTypes p a typed = .ok l) : ∀ q ∈ l.placements, q.KeepsByte := by
  cases ha : a.kind with
  | struct =>
    obtain ⟨s, hs, rfl⟩ := ofTypes_struct ha h
    have kept : ∀ q ∈ s.placements, q.KeepsByte := by
      refine foldlM_invariant (P := fun s : PartialStruct Int => ∀ q ∈ s.placements, q.KeepsByte)
        (fun x s s' hs hx => ?_) (fun q hq => absurd hq List.not_mem_nil) hs
      obtain ⟨q, placer, hplace, rfl⟩ := PartialStruct.add_eq_ok.mp hx
      exact List.forall_mem_cons.mpr ⟨Placer.place_keepsByte hp hplace, hs⟩
    exact fun q hq => kept q (List.mem_reverse.mp hq)
  | union =>
    obtain ⟨placements, hs, rfl⟩ := ofTypes_union ha h
    have kept : List.Forall₂ (fun (q : Placement Int) x => q.KeepsByte ∧ overlay p x.1 x.2 = .ok q)
        placements typed := (mapM_eq_ok.mp hs).flip.imp fun _ _ hq => ⟨overlay_keepsByte hq, hq⟩
    exact ((List.forall₂_and_left _ _).mp kept).1

theorem layout_keeps_bytes (t : Target Int) (hrestart : t.profile.bitfieldByteRestart = true) :
    (∀ a l, t.layout a = .ok l → ∀ q ∈ l.placements, q.KeepsByte) ∧
    ∀ (s : Placer Int) u packed m width d, s.unit = some u → u.type.sameAs d = true →
      m.bits = some width → m.FitsBits width d → u.Straddles width →
      (u.take (8 - u.used % 8)).fits width = false →
      ∃ q s', s.place t.profile packed m d = .ok (q, s') ∧
        s.Reopens t.profile packed width d q s' := by
  refine ⟨fun a l h => ?_, fun s u packed m width d hu hsame hbits fits hstraddles hroom => ?_⟩
  · obtain ⟨typed, _, hl⟩ := Target.layout_typed h
    exact Layout.keepsByte_ofTypes hrestart hl
  · exact Placer.place_reopens hu hsame hbits fits hstraddles hroom

def smallField : Member Int where
  name := "small"
  type := .descriptor (integer .four)
  bits := some 5

def wideAndSmall : Aggregate Int where
  name := "fields"
  members :=
    [{ smallField with name := "wide", bits := some 24 }, smallField,
      { smallField with name := "other" }]

theorem layout_keeps_bytes_wideAndSmall :
    (∃ l : Layout Int, restartingTarget.layout wideAndSmall = .ok l ∧
      l.placements.map (·.offset) = [0, 0, 4] ∧ ∀ q ∈ l.placements, q.KeepsByte) ∧
    ∃ q s', Placer.place restartingTarget.profile false smallField (integer .four)
        { cursor := 4, unit := some { type := integer .four, used := 29 } } = .ok (q, s') ∧
      q.offset = 4 ∧ s'.padding = [.bits 0 0 3] := by
  obtain ⟨kept, reopened⟩ := layout_keeps_bytes restartingTarget rfl
  obtain ⟨l, hl, hoffsets⟩ : ∃ l : Layout Int, restartingTarget.layout wideAndSmall = .ok l ∧
      l.placements.map (·.offset) = [0, 0, 4] := ⟨_, rfl, rfl⟩
  obtain ⟨q, s', hplace, hreopens⟩ := reopened
    { cursor := 4, unit := some { type := integer .four, used := 29 } } _ false smallField 5
    (integer .four) rfl rfl rfl ⟨rfl, rfl, rfl, by decide, by decide⟩ ⟨by decide, by decide⟩ rfl
  exact ⟨⟨l, hl, hoffsets, kept wideAndSmall l hl⟩, q, s', hplace, hreopens.offset,
    hreopens.padding⟩

end AggregateLayout
