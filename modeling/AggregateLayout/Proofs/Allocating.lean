import Mathlib
import AggregateLayout.Proofs.Placements

/-!
Bitfields that are placed by themselves, in calls of any number and order that each come with a
cursor of their own. A ledger goes along with the calls and notes which bits of which unit they give
away, as read off the placements that are returned and the padding that is recorded. Whatever is
asked for, what is noted shares out the bits of each unit.
-/

namespace AggregateLayout

/-- What is asked of a placer: to find a place for a bitfield or to close the open unit. The cursor
is how far the aggregate has got. -/
inductive FieldCall where
  | place (m : Member Int) (d : TypeDescriptor Int) (cursor : Int)
  | close (cursor : Int)

inductive FieldFault where
  | notBitfield
  | refused (failure : LayoutFailure Int)

abbrev Allocating := ExceptT FieldFault (StateM (Placer Int))

namespace FieldCall

variable (p : MachineProfile Int) (packed : Bool)

def allocate (m : Member Int) (d : TypeDescriptor Int) (cursor : Int) :
    Allocating (Placement Int) :=
  match m.bits with
  | none => throw .notBitfield
  | some width => do
    ExceptT.mk (pure ((checkBitfield m width d).mapError .refused))
    modify ({ · with cursor })
    modify (Placer.closeUnless p (·.type.sameAs d))
    modify (Placer.restart p width)
    modify (Placer.closeUnless p (·.fits width))
    modifyGet (Placer.takeBits p packed m width d)

def perform : FieldCall → Allocating (Option (Placement Int))
  | place m d cursor => do return some (← allocate p packed m d cursor)
  | close cursor => do
    modify fun s => { s with cursor }.close p
    return none

def opens (s : Placer Int) : FieldCall → Bool
  | place m d cursor =>
    m.bits.any fun width => (({ s with cursor } : Placer Int).ready p d width).unit.isNone
  | close _ => false

end FieldCall

def Padding.bitExtent? : Padding Int → Option Extent
  | .bytes _ _ => none
  | .bits unit offset length => some (Padding.bits unit offset length).extent

structure UnitRecord where
  start : Int
  bits : Int
  pieces : List Extent

/-- A placer with what the calls so far have given away. -/
structure Ledger where
  placer : Placer Int := {}
  placed : List (Placement Int) := []
  pieces : List Extent := []
  closed : List UnitRecord := []

namespace Ledger

variable (p : MachineProfile Int) (packed : Bool)

def gained (l : Ledger) (s : Placer Int) : List Extent :=
  (s.padding.drop l.placer.padding.length).filterMap Padding.bitExtent?

def closing (l : Ledger) (s : Placer Int) : List UnitRecord :=
  match l.placer.unit with
  | none => l.closed
  | some u =>
    l.closed ++ [{ start := l.placer.unitStart, bits := u.type.bitSize,
                   pieces := l.pieces ++ l.gained s }]

def shut (l : Ledger) (s : Placer Int) : Ledger :=
  { l with placer := s, pieces := [], closed := l.closing s }

def join (l : Ledger) (q : Placement Int) (s : Placer Int) : Ledger :=
  { l with
    placer := s, placed := l.placed ++ [q], pieces := l.pieces ++ l.gained s ++ [q.extent] }

def reopen (l : Ledger) (q : Placement Int) (s : Placer Int) : Ledger :=
  { placer := s, placed := l.placed ++ [q], pieces := [q.extent], closed := l.closing s }

def call (l : Ledger) (c : FieldCall) : Ledger :=
  match (c.perform p packed).run l.placer with
  | (.error _, s) => { l with placer := s }
  | (.ok none, s) => l.shut s
  | (.ok (some q), s) => if c.opens p l.placer then l.reopen q s else l.join q s

def run (calls : List FieldCall) : Ledger := calls.foldl (call p packed) {}

def noted (l : Ledger) : List Extent := l.closed.flatMap (·.pieces) ++ l.pieces

def given (l : Ledger) : List Extent :=
  l.placed.map Placement.extent ++ l.placer.padding.filterMap Padding.bitExtent?

end Ledger

def unitExtent (direction : BitfieldDirection) (start bits used width : Int) : Extent where
  start := 8 * start + bitPosition direction used width bits
  stop := 8 * start + bitPosition direction used width bits + width

inductive Fills (direction : BitfieldDirection) (start bits : Int) : List Extent → Int → Prop
  | nil : Fills direction start bits [] 0
  | snoc {pieces : List Extent} {used width : Int}
      (hpieces : Fills direction start bits pieces used) (hwidth : 0 < width) :
      Fills direction start bits
        (pieces ++ [unitExtent direction start bits used width]) (used + width)

def bitRank (direction : BitfieldDirection) (start bits bit : Int) : Int :=
  bitPosition direction (bit - 8 * start) 1 bits

/-- Extents that share out the first bits of a unit: they follow one another, all are inside the
unit, and every one of those bits is in exactly one of them. -/
structure Shares (direction : BitfieldDirection) (start bits : Int) (pieces : List Extent)
    (taken : Int) : Prop where
  follow : Fills direction start bits pieces taken
  inside : ∀ e ∈ pieces, 8 * start ≤ e.start ∧ e.start < e.stop ∧ e.stop ≤ 8 * start + bits
  once : ∀ bit, pieces.countP (·.covers bit) =
    if 0 ≤ bitRank direction start bits bit ∧ bitRank direction start bits bit < taken then 1 else 0

section Fills

variable {direction : BitfieldDirection} {start bits used width : Int} {pieces : List Extent}

theorem covers_unitExtent (bit : Int) :
    (unitExtent direction start bits used width).covers bit = true ↔
      used ≤ bitRank direction start bits bit ∧
        bitRank direction start bits bit < used + width := by
  unfold Extent.covers unitExtent bitRank
  rw [Bool.and_eq_true, decide_eq_true_iff, decide_eq_true_iff]
  cases direction with
  | lowToHigh =>
    change 8 * start + used ≤ bit ∧ bit < 8 * start + used + width ↔
      used ≤ bit - 8 * start ∧ bit - 8 * start < used + width
    omega
  | highToLow =>
    change 8 * start + (bits - used - width) ≤ bit ∧
        bit < 8 * start + (bits - used - width) + width ↔
      used ≤ bits - (bit - 8 * start) - 1 ∧ bits - (bit - 8 * start) - 1 < used + width
    omega

namespace Fills

theorem nonneg (h : Fills direction start bits pieces used) : 0 ≤ used := by
  induction h with
  | nil => exact le_rfl
  | snoc _ hwidth ih => omega

theorem inside (h : Fills direction start bits pieces used) (hused : used ≤ bits) :
    ∀ e ∈ pieces, 8 * start ≤ e.start ∧ e.start < e.stop ∧ e.stop ≤ 8 * start + bits := by
  induction h with
  | nil => exact fun e he => (nomatch he)
  | @snoc pieces used width hpieces hwidth ih =>
    intro e he
    rcases List.mem_append.mp he with he | he
    · exact ih (by omega) e he
    · obtain rfl := List.mem_singleton.mp he
      have within := bitPosition_inside direction hpieces.nonneg hused
      refine ⟨?_, ?_, ?_⟩ <;> dsimp only [unitExtent] <;> omega

theorem countP_covers (h : Fills direction start bits pieces used) (bit : Int) :
    pieces.countP (·.covers bit) =
      if 0 ≤ bitRank direction start bits bit ∧ bitRank direction start bits bit < used
      then 1 else 0 := by
  induction h with
  | nil =>
    rw [List.countP_nil, if_neg (by omega)]
  | @snoc pieces used width hpieces hwidth ih =>
    have hused := hpieces.nonneg
    have hcovers := @covers_unitExtent direction start bits used width bit
    rw [List.countP_append, ih, List.countP_singleton]
    simp only [hcovers]
    split_ifs <;> omega

theorem shares (h : Fills direction start bits pieces used) (hused : used ≤ bits) :
    Shares direction start bits pieces used :=
  ⟨h, h.inside hused, h.countP_covers⟩

end Fills

end Fills

variable {p : MachineProfile Int} {packed : Bool} {m : Member Int} {d : TypeDescriptor Int}
  {s s' : Placer Int} {q : Placement Int} {width cursor : Int}

namespace FieldCall

theorem run_place (p : MachineProfile Int) (packed : Bool) (m : Member Int)
    (d : TypeDescriptor Int) (cursor : Int) (s : Placer Int) :
    ((place m d cursor).perform p packed).run s =
      match m.bits with
      | none => (.error .notBitfield, s)
      | some width =>
        match ({ s with cursor } : Placer Int).placeBitfield p packed m width d with
        | .error failure => (.error (.refused failure), s)
        | .ok (q, s') => (.ok (some q), s') := by
  change (some <$> allocate p packed m d cursor).run s = _
  unfold allocate Placer.placeBitfield
  cases m.bits with
  | none => rfl
  | some width =>
    dsimp only
    cases checkBitfield m width d <;> rfl

theorem run_place_cases (p : MachineProfile Int) (packed : Bool) (m : Member Int)
    (d : TypeDescriptor Int) (cursor : Int) (s : Placer Int) :
    (∃ fault, ((place m d cursor).perform p packed).run s = (.error fault, s)) ∨
      ∃ width, m.bits = some width ∧ m.FitsBits width d ∧
        ((place m d cursor).perform p packed).run s =
          ((({ s with cursor } : Placer Int).ready p d width).takeBits p packed m width d).map
            (.ok ∘ some) id := by
  rw [run_place]
  cases m.bits with
  | none => exact .inl ⟨_, rfl⟩
  | some width =>
    unfold Placer.placeBitfield
    rcases checkBitfield_cases m width d with ⟨hcheck, hfits⟩ | ⟨_, cause, _, hcheck⟩ <;>
      dsimp only <;> rw [hcheck]
    · exact .inr ⟨width, rfl, hfits, rfl⟩
    · exact .inl ⟨_, rfl⟩

theorem run_error {c : FieldCall} {fault : FieldFault}
    (h : (c.perform p packed).run s = (.error fault, s')) : s' = s := by
  cases c with
  | place m d cursor =>
    rw [run_place] at h
    split at h
    · exact (Prod.mk.inj h).2.symm
    · split at h
      · exact (Prod.mk.inj h).2.symm
      · cases h
  | close cursor => cases h

end FieldCall

namespace Placer

inductive Readied (s : Placer Int) (p : MachineProfile Int) (width : Int) : Placer Int → Prop
  | fits {u : StorageUnit Int} (hunit : s.unit = some u)
      (hroom : u.used + width ≤ u.type.bitSize) : s.Readied p width s
  | skips {u : StorageUnit Int} {gap : Int} (hunit : s.unit = some u) (hgap : 0 < gap)
      (hroom : u.used + gap + width ≤ u.type.bitSize) : s.Readied p width
        { s with
          unit := some (u.take gap)
          padding := s.padding ++ [u.padding p.bitfieldDirection s.unitStart gap] }
  | closed : s.Readied p width (s.close p)

theorem ready_readied (p : MachineProfile Int) (d : TypeDescriptor Int) (width : Int)
    (s : Placer Int) : s.Readied p width (s.ready p d width) := by
  cases hunit : s.unit with
  | none =>
    have hready : s.ready p d width = s.close p := by
      unfold ready closeUnless restart close
      simp only [hunit]
    rw [hready]
    exact .closed
  | some u =>
    by_cases hsame : u.type.sameAs d = true
    · have hopen : s.closeUnless p (·.type.sameAs d) = s := by
        unfold closeUnless
        rw [hunit]
        exact if_pos hsame
      have hkept : s.Readied p width (s.closeUnless p (·.fits width)) := by
        unfold closeUnless
        rw [hunit]
        dsimp only
        split
        · next hfits => exact .fits hunit (StorageUnit.fits_iff.mp hfits)
        · exact .closed
      unfold ready restart
      rw [hopen, hunit]
      dsimp only
      cases hskip : u.skip? width with
      | none => exact hkept
      | some gap =>
        obtain ⟨hgap, hroom⟩ := StorageUnit.skip?_eq_some hskip
        dsimp only
        split
        · have hfits : (u.take gap).fits width = true := StorageUnit.fits_iff.mpr hroom
          unfold closeUnless
          dsimp only
          rw [if_pos hfits]
          exact .skips hunit hgap hroom
        · exact hkept
    · have hclosed : s.closeUnless p (·.type.sameAs d) = s.close p := by
        unfold closeUnless
        rw [hunit]
        exact if_neg hsame
      have hready : s.ready p d width = s.close p := by
        unfold ready restart closeUnless at *
        rw [hclosed, close_unit]
        dsimp only
        rw [close_unit]
      rw [hready]
      exact .closed

theorem padding_align (s : Placer Int) (a : PowerOfTwo) :
    ∃ added, (s.align a).padding = s.padding ++ added ∧
      added.filterMap Padding.bitExtent? = [] := by
  unfold align
  dsimp only
  split
  · exact ⟨_, rfl, rfl⟩
  · exact ⟨[], (List.append_nil _).symm, rfl⟩

end Placer

namespace Ledger

structure Kept (p : MachineProfile Int) (l : Ledger) : Prop where
  unit : ∀ u, l.placer.unit = some u →
    Fills p.bitfieldDirection l.placer.unitStart u.type.bitSize l.pieces u.used ∧
      u.used ≤ u.type.bitSize ∧ 0 < u.type.bitSize
  idle : l.placer.unit = none → l.pieces = []
  closed : ∀ r ∈ l.closed, Fills p.bitfieldDirection r.start r.bits r.pieces r.bits
  complete : l.noted.Perm l.given

variable {l : Ledger} {u : StorageUnit Int}

theorem gained_append {added : List (Padding Int)} (h : s.padding = l.placer.padding ++ added) :
    l.gained s = added.filterMap Padding.bitExtent? := by
  unfold gained
  rw [h, List.drop_left]

theorem perm_given {added : List (Padding Int)} (h : l.noted.Perm l.given)
    (hpadding : s.padding = l.placer.padding ++ added) (placed : List (Placement Int)) :
    (l.noted ++ (l.gained s ++ placed.map Placement.extent)).Perm
      ((l.placed ++ placed).map Placement.extent ++ s.padding.filterMap Padding.bitExtent?) := by
  rw [gained_append hpadding, hpadding, List.map_append, List.filterMap_append]
  have hgiven : (l.noted : Multiset Extent) = l.given := Multiset.coe_eq_coe.mpr h
  unfold given at hgiven
  simp only [← Multiset.coe_eq_coe, ← Multiset.coe_add] at hgiven ⊢
  rw [hgiven]
  abel

theorem Kept.closing (h : l.Kept p) {added : List (Padding Int)}
    (hpadding : s.padding = (l.placer.close p).padding ++ added)
    (hadded : added.filterMap Padding.bitExtent? = []) :
    ∀ r ∈ l.closing s, Fills p.bitfieldDirection r.start r.bits r.pieces r.bits := by
  unfold Ledger.closing
  cases hunit : l.placer.unit with
  | none => exact h.closed
  | some u =>
    obtain ⟨hfills, hused, _⟩ := h.unit u hunit
    refine List.forall_mem_append.mpr ⟨h.closed, List.forall_mem_singleton.mpr ?_⟩
    unfold Placer.close at hpadding
    rw [hunit] at hpadding
    dsimp only at hpadding ⊢
    rw [List.append_assoc] at hpadding
    rw [gained_append hpadding, List.filterMap_append, hadded, List.append_nil]
    split
    · next hleft =>
      change 0 < u.type.bitSize - u.used at hleft
      have hfull := hfills.snoc hleft
      rw [add_sub_cancel] at hfull
      exact hfull
    · next hleft =>
      change ¬ 0 < u.type.bitSize - u.used at hleft
      have hfull : u.used = u.type.bitSize := by omega
      rw [List.filterMap_nil, List.append_nil]
      rw [hfull] at hfills
      exact hfills

theorem Kept.flatMap_closing (h : l.Kept p) {added : List (Padding Int)}
    (hpadding : s.padding = (l.placer.close p).padding ++ added)
    (hadded : added.filterMap Padding.bitExtent? = []) :
    (l.closing s).flatMap (·.pieces) = l.noted ++ l.gained s := by
  unfold Ledger.closing noted
  cases hunit : l.placer.unit with
  | none =>
    rw [Placer.close_of_unit hunit] at hpadding
    rw [gained_append hpadding, hadded, h.idle hunit]
    dsimp only
    rw [List.append_nil, List.append_nil]
  | some u =>
    dsimp only
    rw [List.flatMap_append, List.flatMap_singleton, List.append_assoc]

theorem padding_close (p : MachineProfile Int) (s : Placer Int) :
    ∃ rest, (s.close p).padding = s.padding ++ rest := by
  unfold Placer.close
  split
  · exact ⟨[], (List.append_nil _).symm⟩
  · exact ⟨_, rfl⟩

theorem Kept.shut (h : l.Kept p) : (l.shut (l.placer.close p)).Kept p := by
  have hend : (l.placer.close p).padding = (l.placer.close p).padding ++ [] :=
    (List.append_nil _).symm
  obtain ⟨rest, hrest⟩ := padding_close p l.placer
  refine ⟨fun u hu => ?_, fun _ => rfl, h.closing hend rfl, ?_⟩
  · exact absurd ((Placer.close_unit p _).symm.trans hu) nofun
  · have hgiven := perm_given h.complete hrest []
    rw [List.map_nil, List.append_nil, List.append_nil, ← h.flatMap_closing hend rfl] at hgiven
    unfold noted Ledger.shut
    rw [List.append_nil]
    exact hgiven

theorem Kept.complete_reopen (h : l.Kept p) {added : List (Padding Int)}
    (hpadding : s.padding = (l.placer.close p).padding ++ added)
    (hadded : added.filterMap Padding.bitExtent? = []) :
    (l.reopen q s).noted.Perm (l.reopen q s).given := by
  have hclosing := h.flatMap_closing hpadding hadded
  obtain ⟨rest, hrest⟩ := padding_close p l.placer
  rw [hrest, List.append_assoc] at hpadding
  have hgiven := perm_given h.complete hpadding [q]
  rw [← List.append_assoc, ← hclosing] at hgiven
  exact hgiven

theorem Kept.join (h : l.Kept p) {r : Placer Int} (hwidth : 0 < width)
    (hready : l.placer.Readied p width r) (hunit : r.unit = some u)
    (htake : r.takeBits p packed m width d = (q, s)) : (l.join q s).Kept p := by
  have hcomplete {added : List (Padding Int)} (hadded : s.padding = l.placer.padding ++ added) :
      (l.join q s).noted.Perm (l.join q s).given := by
    have hgiven := perm_given h.complete hadded [q]
    unfold noted at hgiven ⊢
    rw [List.append_assoc, ← List.append_assoc l.pieces] at hgiven
    exact hgiven
  unfold Placer.takeBits at htake
  rw [hunit] at htake
  obtain ⟨rfl, rfl⟩ := Prod.mk.inj htake
  cases hready with
  | @fits u₀ hopen hroom =>
    obtain rfl := Option.some.inj (hopen.symm.trans hunit)
    obtain ⟨hfills, _, hbits⟩ := h.unit u₀ hopen
    have hgained : l.gained { l.placer with unit := some (u₀.take width) } = [] :=
      gained_append (List.append_nil _).symm
    refine ⟨?_, fun hnone => (nomatch hnone), h.closed, hcomplete (List.append_nil _).symm⟩
    rintro _ ⟨⟩
    unfold Ledger.join
    rw [hgained, List.append_nil]
    exact ⟨hfills.snoc hwidth, hroom, hbits⟩
  | @skips u₀ gap hopen hgap hroom =>
    obtain rfl := Option.some.inj hunit
    obtain ⟨hfills, _, hbits⟩ := h.unit u₀ hopen
    refine ⟨?_, fun hnone => (nomatch hnone), h.closed, hcomplete rfl⟩
    rintro _ ⟨⟩
    unfold Ledger.join
    rw [gained_append rfl]
    exact ⟨(hfills.snoc hgap).snoc hwidth, hroom, hbits⟩
  | closed =>
    rw [Placer.close_unit] at hunit
    cases hunit

theorem Kept.reopen (h : l.Kept p) {r : Placer Int} (hfits : m.FitsBits width d)
    (hready : l.placer.Readied p width r) (hunit : r.unit = none)
    (htake : r.takeBits p packed m width d = (q, s)) : (l.reopen q s).Kept p := by
  unfold Placer.takeBits at htake
  rw [hunit] at htake
  obtain ⟨rfl, rfl⟩ := Prod.mk.inj htake
  cases hready with
  | fits hopen _ =>
    rw [hopen] at hunit
    cases hunit
  | skips => cases hunit
  | closed =>
    obtain ⟨added, hadded, hbytes⟩ :=
      (l.placer.close p).padding_align (Placer.alignmentOf packed d)
    refine ⟨?_, fun hnone => (nomatch hnone), h.closing hadded hbytes, ?_⟩
    · rintro _ ⟨⟩
      have hpositive := hfits.positive
      have hwithin := hfits.within
      have hbits := d.bitSize_int
      refine ⟨Fills.nil.snoc (by omega), ?_, ?_⟩
      · change 0 + width ≤ d.bitSize
        omega
      · change 0 < d.bitSize
        omega
    · exact h.complete_reopen hadded hbytes

theorem Kept.call (h : l.Kept p) (c : FieldCall) : (l.call p packed c).Kept p := by
  -- Only the unit and the padding matter here, which the cursor has nothing to do with.
  have hmoved (cursor : Int) : ({ l with placer.cursor := cursor } : Ledger).Kept p :=
    ⟨h.unit, h.idle, h.closed, h.complete⟩
  cases c with
  | close cursor => exact (hmoved cursor).shut
  | place m d cursor =>
    unfold Ledger.call
    rcases FieldCall.run_place_cases p packed m d cursor l.placer with
      ⟨fault, hrun⟩ | ⟨width, hbits, hfits, hrun⟩ <;> rw [hrun]
    · exact h
    · have hready := ({ l.placer with cursor } : Placer Int).ready_readied p d width
      simp only [FieldCall.opens, hbits, Option.any_some]
      cases hunit : (({ l.placer with cursor } : Placer Int).ready p d width).unit with
      | none => exact (hmoved cursor).reopen hfits hready hunit rfl
      | some u => exact (hmoved cursor).join hfits.positive hready hunit rfl

theorem Kept.run (calls : List FieldCall) : (run p packed calls).Kept p := by
  refine List.foldlRecOn calls (Ledger.call p packed) ?_ fun l h c _ => Kept.call h c
  exact ⟨fun u hu => (nomatch hu), fun _ => rfl, fun r hr => (nomatch hr), .nil⟩

end Ledger

namespace Placer

def unitBits (s : Placer Int) : Int := (s.unit.map (·.type.bitSize)).getD 0

def bitCursor (s : Placer Int) : Int := (s.unit.map (·.used)).getD 0

end Placer

theorem Ledger.Kept.shares {l : Ledger} (h : l.Kept p) :
    Shares p.bitfieldDirection l.placer.unitStart l.placer.unitBits l.pieces l.placer.bitCursor ∧
      l.placer.bitCursor ≤ l.placer.unitBits ∧
      (l.placer.unit.isSome = true ↔ 0 < l.placer.unitBits) := by
  unfold Placer.unitBits Placer.bitCursor
  cases hunit : l.placer.unit with
  | none =>
    rw [h.idle hunit]
    exact ⟨Fills.nil.shares le_rfl, le_rfl, by decide⟩
  | some u =>
    obtain ⟨hfills, hused, hbits⟩ := h.unit u hunit
    exact ⟨hfills.shares hused, hused, iff_of_true rfl hbits⟩

theorem calls_share_units (p : MachineProfile Int) (packed : Bool) (calls : List FieldCall) :
    let l := Ledger.run p packed calls
    (0 ≤ l.placer.bitCursor ∧ l.placer.bitCursor ≤ l.placer.unitBits) ∧
    (l.placer.unit.isSome = true ↔ 0 < l.placer.unitBits) ∧
    Shares p.bitfieldDirection l.placer.unitStart l.placer.unitBits l.pieces l.placer.bitCursor ∧
    (∀ r ∈ l.closed, Shares p.bitfieldDirection r.start r.bits r.pieces r.bits) ∧
    l.noted.Perm l.given ∧
    ∀ (c : FieldCall) fault s',
      (c.perform p packed).run l.placer = (.error fault, s') → s' = l.placer := by
  intro l
  have kept : l.Kept p := Ledger.Kept.run calls
  obtain ⟨hopen, hwithin, hiff⟩ := kept.shares
  refine ⟨⟨hopen.follow.nonneg, hwithin⟩, hiff, hopen, fun r hr => ?_, kept.complete, ?_⟩
  · exact (kept.closed r hr).shares le_rfl
  · exact fun _ _ _ hfails => FieldCall.run_error hfails

example :
    let word : TypeDescriptor Int := .basic "u32" (.of 4) .four .scalar true
    let field (bits : Int) : FieldCall :=
      .place { name := "field", type := .descriptor word, bits := some bits } word 4
    let l := Ledger.run restartingTarget.profile false [field 5, field 33, field 6, .close 8]
    l.closed = [{ start := 4, bits := 32, pieces := [⟨59, 64⟩, ⟨56, 59⟩, ⟨50, 56⟩, ⟨32, 50⟩] }] :=
  rfl

end AggregateLayout
