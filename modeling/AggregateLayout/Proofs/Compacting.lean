import Mathlib
import AggregateLayout.Proofs.Blocks
import AggregateLayout.Proofs.Earliest
import AggregateLayout.Proofs.Fronts

/-!
What packing takes out of a struct. Its members are placed as they are and packed, side by side.
Whether a field goes into the open unit does not depend on where that is, so that the same units
are opened and closed by the same members, and packed no member is any later. Nothing is left
between the units and the plain members then.
-/

namespace AggregateLayout

/-- The same place, but for the byte where it starts, which is no later. -/
def Placement.MovesUp (q q' : Placement Int) : Prop := ∃ offset ≤ q.offset, q' = { q with offset }

variable {p : MachineProfile Int} {packed : Bool} {m : Member Int} {d : TypeDescriptor Int}

namespace Placer

variable {s s' r r' : Placer Int} {q q' : Placement Int}

structure Compacts (s s' : Placer Int) : Prop where
  cursor : s'.cursor ≤ s.cursor
  unit : s'.unit = s.unit
  unitStart : s'.unitStart ≤ s.unitStart

inductive BothStep (s s' : Placer Int) (q q' : Placement Int) (r r' : Placer Int) : Prop
  | alone (hbits : q.bits = none) (hunit : r.unit = none) (hcursor : s.cursor ≤ r.cursor)
    (hcursor' : s'.cursor ≤ r'.cursor)
  | opens (hbits : q.bits.isSome) (hstart : r.unitStart = q.offset)
    (hstart' : r'.unitStart = q'.offset) (hbehind : s.cursor ≤ q.offset)
    (hbehind' : s'.cursor ≤ q'.offset) (hcursor : q.offset < r.cursor)
    (hcursor' : q'.offset < r'.cursor)
  | joins (hbits : q.bits.isSome) (hunit : s.unit.isSome) (hoffset : q.offset = s.unitStart)
    (hoffset' : q'.offset = s'.unitStart) (hstart : r.unitStart = s.unitStart)
    (hstart' : r'.unitStart = s'.unitStart) (hcursor : r.cursor = s.cursor)
    (hcursor' : r'.cursor = s'.cursor)

theorem align_unitStart (s : Placer Int) (a : PowerOfTwo) :
    (s.align a).unitStart = s.unitStart := by
  unfold align
  dsimp only
  split <;> rfl

theorem le_cursor_align (s : Placer Int) (a : PowerOfTwo) : s.cursor ≤ (s.align a).cursor :=
  (le_roundUp _ _).trans_eq (s.align_cursor a).symm

theorem BothStep.of_ready {width : Int}
    (h : BothStep (s.ready p d width) (s'.ready p d width) q q' r r') :
    BothStep s s' q q' r r' := by
  obtain ⟨hcursor, hstart⟩ := ready_keeps p d width s
  obtain ⟨hcursor', hstart'⟩ := ready_keeps p d width s'
  cases h with
  | alone hbits hunit hbehind hbehind' =>
    exact .alone hbits hunit (hcursor ▸ hbehind) (hcursor' ▸ hbehind')
  | opens hbits hr hr' hbehind hbehind' hahead hahead' =>
    exact .opens hbits hr hr' (hcursor ▸ hbehind) (hcursor' ▸ hbehind') hahead hahead'
  | joins hbits hunit hoffset hoffset' hr hr' hsame hsame' =>
    obtain ⟨u, hu⟩ := Option.isSome_iff_exists.mp hunit
    obtain ⟨_, _, hopen, _⟩ := unit_ready hu
    exact .joins hbits (hopen ▸ rfl) (hoffset.trans hstart) (hoffset'.trans hstart')
      (hr.trans hstart) (hr'.trans hstart') (hsame.trans hcursor) (hsame'.trans hcursor')

namespace Compacts

theorem start : Compacts {} {} := ⟨le_rfl, rfl, le_rfl⟩

theorem close (h : s.Compacts s') : (s.close p).Compacts (s'.close p) where
  cursor := by
    rw [(close_keeps p s).1, (close_keeps p s').1]
    exact h.cursor
  unit := (close_unit p s').trans (close_unit p s).symm
  unitStart := by
    rw [(close_keeps p s).2, (close_keeps p s').2]
    exact h.unitStart

theorem ready (h : s.Compacts s') (d : TypeDescriptor Int) (width : Int) :
    (s.ready p d width).Compacts (s'.ready p d width) where
  cursor := by
    rw [(ready_keeps p d width s).1, (ready_keeps p d width s').1]
    exact h.cursor
  unit := by rw [ready_unit, ready_unit, h.unit]
  unitStart := by
    rw [(ready_keeps p d width s).2, (ready_keeps p d width s').2]
    exact h.unitStart

theorem align (h : s.Compacts s') (packed : Bool) (d : TypeDescriptor Int) :
    (s'.align (alignmentOf true d)).cursor ≤ (s.align (alignmentOf packed d)).cursor := by
  rw [align_cursor, align_cursor, alignmentOf, if_pos rfl, roundUp_one]
  exact h.cursor.trans (le_roundUp _ _)

theorem placePlain (h : s.Compacts s') (hs : s.placePlain p packed m d = (q, r)) :
    ∃ q' r', s'.placePlain p true m d = (q', r') ∧ q.MovesUp q' ∧ r.Compacts r' ∧
      BothStep s s' q q' r r' := by
  have hsize := d.size.val_nonneg
  have hclosed := h.close (p := p)
  have hsooner := hclosed.align packed d
  have hbehind := le_cursor_align (s.close p) (alignmentOf packed d)
  have hbehind' := le_cursor_align (s'.close p) (alignmentOf true d)
  rw [(close_keeps p _).1] at hbehind hbehind'
  obtain ⟨rfl, rfl⟩ := Prod.mk.inj hs
  refine ⟨_, _, rfl, ⟨_, hsooner, rfl⟩, ⟨?_, ?_, ?_⟩, ?_⟩
  · exact Int.add_le_add_right hsooner _
  · exact (align_unit _ _).trans (hclosed.unit.trans (align_unit _ _).symm)
  · change (Placer.align _ _).unitStart ≤ (Placer.align _ _).unitStart
    rw [align_unitStart, align_unitStart]
    exact hclosed.unitStart
  · refine .alone rfl ((align_unit _ _).trans (close_unit p s)) ?_ ?_
    · exact hbehind.trans (le_add_of_nonneg_right hsize)
    · exact hbehind'.trans (le_add_of_nonneg_right hsize)

theorem takeBits {width : Int} (h : s.Compacts s') (hsize : 0 < d.size.val)
    (hs : s.takeBits p packed m width d = (q, r)) :
    ∃ q' r', s'.takeBits p true m width d = (q', r') ∧ q.MovesUp q' ∧ r.Compacts r' ∧
      BothStep s s' q q' r r' := by
  unfold Placer.takeBits at hs ⊢
  rw [h.unit]
  cases hu : s.unit with
  | some u =>
    rw [hu] at hs
    obtain ⟨rfl, rfl⟩ := Prod.mk.inj hs
    exact ⟨_, _, rfl, ⟨_, h.unitStart, rfl⟩, ⟨h.cursor, rfl, h.unitStart⟩,
      .joins rfl (hu ▸ rfl) rfl rfl rfl rfl rfl rfl⟩
  | none =>
    have hsooner := h.align packed d
    rw [hu] at hs
    obtain ⟨rfl, rfl⟩ := Prod.mk.inj hs
    exact ⟨_, _, rfl, ⟨_, hsooner, rfl⟩, ⟨Int.add_le_add_right hsooner _, rfl, hsooner⟩,
      .opens rfl rfl rfl (le_cursor_align _ _) (le_cursor_align _ _)
        (lt_add_of_pos_right _ hsize) (lt_add_of_pos_right _ hsize)⟩

theorem place (h : s.Compacts s') (hs : s.place p packed m d = .ok (q, r)) :
    ∃ q' r', s'.place p true m d = .ok (q', r') ∧ q.MovesUp q' ∧ r.Compacts r' ∧
      BothStep s s' q q' r r' := by
  rcases place_eq_ok.mp hs with ⟨hbits, hs⟩ | ⟨width, hbits, fits, hs⟩
  · obtain ⟨q', r', hs', hmoves⟩ := h.placePlain hs
    exact ⟨q', r', place_eq_ok.mpr (.inl ⟨hbits, hs'⟩), hmoves⟩
  · obtain ⟨q', r', hs', hmoves, hcompacts, hstep⟩ := (h.ready d width).takeBits fits.size_pos hs
    exact ⟨q', r', place_eq_ok.mpr (.inr ⟨width, hbits, fits, hs'⟩), hmoves, hcompacts,
      hstep.of_ready⟩

end Compacts

def StartAlike (x y : Placement Int × Placement Int) : Prop :=
  x.1.bits.isSome → y.1.bits.isSome → (x.1.offset = y.1.offset ↔ x.2.offset = y.2.offset)

instance : Std.Symm StartAlike := ⟨fun _ _ h hy hx => by rw [eq_comm, h hx hy, eq_comm]⟩

structure Abreast (xs : List (Placement Int × Placement Int)) (s s' : Placer Int) : Prop where
  compacts : s.Compacts s'
  movesUp : ∀ x ∈ xs, x.1.MovesUp x.2
  behind : ∀ x ∈ xs, x.1.bits.isSome → x.1.offset < s.cursor ∧ x.2.offset < s'.cursor
  opened : s.unit.isSome → s.unitStart < s.cursor ∧ s'.unitStart < s'.cursor
  unit : s.unit.isSome → ∀ x ∈ xs, x.1.bits.isSome →
    (x.1.offset = s.unitStart ↔ x.2.offset = s'.unitStart)
  alike : xs.Pairwise StartAlike

theorem Abreast.start : Abreast [] {} {} :=
  ⟨.start, fun _ hx => (nomatch hx), fun _ hx => (nomatch hx), fun hu => (nomatch hu),
    fun hu => (nomatch hu), .nil⟩

theorem Abreast.place {xs : List (Placement Int × Placement Int)} (h : Abreast xs s s')
    (hs : s.place p packed m d = .ok (q, r)) :
    ∃ q' r', s'.place p true m d = .ok (q', r') ∧ Abreast ((q, q') :: xs) r r' := by
  obtain ⟨q', r', hs', hmoves, hcompacts, hstep⟩ := h.compacts.place hs
  refine ⟨q', r', hs', ?_⟩
  have hall : ∀ x ∈ (q, q') :: xs, x.1.MovesUp x.2 :=
    List.forall_mem_cons.mpr ⟨hmoves, h.movesUp⟩
  cases hstep with
  | alone hbits hunit hcursor hcursor' =>
    have hfield : ¬ q.bits.isSome := by simp [hbits]
    refine ⟨hcompacts, hall, ?_, fun hu => ?_, fun hu => ?_, ?_⟩
    · refine List.forall_mem_cons.mpr ⟨fun hq => absurd hq hfield, fun x hx hxbits => ?_⟩
      obtain ⟨hbehind, hbehind'⟩ := h.behind x hx hxbits
      exact ⟨hbehind.trans_le hcursor, hbehind'.trans_le hcursor'⟩
    · rw [hunit] at hu
      cases hu
    · rw [hunit] at hu
      cases hu
    · exact .cons (fun x _ hq => absurd hq hfield) h.alike
  | opens hbits hstart hstart' hbehind hbehind' hcursor hcursor' =>
    -- Nothing so far starts where the new unit does.
    have hnew (x) (hx : x ∈ xs) (hxbits : x.1.bits.isSome) :
        x.1.offset ≠ q.offset ∧ x.2.offset ≠ q'.offset := by
      obtain ⟨hlt, hlt'⟩ := h.behind x hx hxbits
      omega
    refine ⟨hcompacts, hall, ?_, fun _ => by omega, fun _ => ?_, ?_⟩
    · refine List.forall_mem_cons.mpr ⟨fun _ => ⟨hcursor, hcursor'⟩, fun x hx hxbits => ?_⟩
      obtain ⟨hlt, hlt'⟩ := h.behind x hx hxbits
      omega
    · rw [hstart, hstart']
      refine List.forall_mem_cons.mpr ⟨fun _ => iff_of_true rfl rfl, fun x hx hxbits => ?_⟩
      exact iff_of_false (hnew x hx hxbits).1 (hnew x hx hxbits).2
    · refine .cons (fun x hx _ hxbits => ?_) h.alike
      exact iff_of_false (hnew x hx hxbits).1.symm (hnew x hx hxbits).2.symm
  | joins hbits hunit hoffset hoffset' hstart hstart' hcursor hcursor' =>
    obtain ⟨hlt, hlt'⟩ := h.opened hunit
    refine ⟨hcompacts, hall, ?_, fun _ => by omega, fun _ => ?_, ?_⟩
    · rw [hcursor, hcursor', List.forall_mem_cons, hoffset, hoffset']
      exact ⟨fun _ => ⟨hlt, hlt'⟩, h.behind⟩
    · rw [hstart, hstart', List.forall_mem_cons]
      exact ⟨fun _ => iff_of_true hoffset hoffset', h.unit hunit⟩
    · refine .cons (fun x hx _ hxbits => ?_) h.alike
      dsimp only
      rw [hoffset, hoffset', eq_comm, h.unit hunit x hx hxbits, eq_comm]

end Placer

def PartialStruct.Abreast (s s' : PartialStruct Int) : Prop :=
  ∃ xs, Placer.Abreast xs s.placer s'.placer ∧ s.placements = xs.map Prod.fst ∧
    s'.placements = xs.map Prod.snd

theorem PartialStruct.Abreast.start : Abreast {} {} := ⟨[], .start, rfl, rfl⟩

theorem PartialStruct.Abreast.foldlM {typed : List (Member Int × TypeDescriptor Int)}
    {s s' r : PartialStruct Int} (h : s.Abreast s')
    (hs : typed.foldlM (fun (s : PartialStruct Int) x => s.add p packed x.1 x.2) s = .ok r) :
    ∃ r', typed.foldlM (fun (s : PartialStruct Int) x => s.add p true x.1 x.2) s' = .ok r' ∧
      r.Abreast r' := by
  induction typed generalizing s s' with
  | nil =>
    obtain rfl := Except.ok.inj hs
    exact ⟨s', rfl, h⟩
  | cons x rest ih =>
    rw [List.foldlM_cons, except_bind_eq_ok] at hs
    obtain ⟨s₁, hx, hs⟩ := hs
    obtain ⟨q, placer, hplace, rfl⟩ := add_eq_ok.mp hx
    obtain ⟨xs, hplacers, hleft, hright⟩ := h
    obtain ⟨q', placer', hplace', habreast⟩ := hplacers.place hplace
    have hadd := add_eq_ok.mpr ⟨q', placer', hplace', rfl⟩
    have hboth : Abreast
        { placer, alignment := s.alignment.max x.2.alignment, placements := q :: s.placements }
        { placer := placer', alignment := s'.alignment.max x.2.alignment,
          placements := q' :: s'.placements } :=
      ⟨_, habreast, congrArg (q :: ·) hleft, congrArg (q' :: ·) hright⟩
    obtain ⟨r', hr', h'⟩ := ih hboth hs
    exact ⟨r', except_bind_eq_ok.mpr ⟨_, hadd, hr'⟩, h'⟩

section Sizes

def plainBytes (qs : List (Placement Int)) : Int :=
  ((qs.filter (·.bits.isNone)).map (·.size.val)).sum

def storageUnits (qs : List (Placement Int)) : List (Int × Int) :=
  ((qs.filter (·.bits.isSome)).map fun q => (q.offset, q.size.val)).dedup

theorem dedup_append_of_forall_eq {α : Type} [DecidableEq α] {x : α} {xs ys : List α}
    (hxs : xs ≠ []) (hall : ∀ y ∈ xs, y = x) (hx : x ∉ ys) : (xs ++ ys).dedup = x :: ys.dedup := by
  induction xs with
  | nil => exact absurd rfl hxs
  | cons y rest ih =>
    rw [List.forall_mem_cons] at hall
    obtain ⟨rfl, hrest⟩ := hall
    cases rest with
    | nil => exact List.dedup_cons_of_notMem hx
    | cons z rest =>
      rw [List.cons_append, List.dedup_cons_of_mem ?_, ih (List.cons_ne_nil _ _) hrest]
      exact List.mem_append_left _ (hrest z (.head _) ▸ .head _)

theorem Abut.storageUnits_cons {stop start size : Int} {fields : List (Placement Int)}
    {rest : List (Padding Int)} {bs : List Block} (h : Abut (start + size) bs stop)
    (hsound : ∀ b ∈ bs, b.Sound) (hb : (Block.unit start size fields rest).Sound) :
    storageUnits (fields ++ bs.flatMap Block.placements) =
      (start, size) :: storageUnits (bs.flatMap Block.placements) := by
  cases hb with
  | unit hsize hnonempty hfields =>
    unfold storageUnits
    rw [List.filter_append, List.filter_eq_self.mpr fun q hq => (hfields q hq).bits,
      List.map_append]
    refine dedup_append_of_forall_eq (mt List.map_eq_nil_iff.mp hnonempty) (fun y hy => ?_)
      fun hmem => ?_
    · obtain ⟨q, hq, rfl⟩ := List.mem_map.mp hy
      rw [(hfields q hq).offset, (hfields q hq).size]
    · obtain ⟨q, hq, heq⟩ := List.mem_map.mp hmem
      obtain ⟨c, hc, hqc⟩ := List.mem_flatMap.mp (List.mem_filter.mp hq).1
      have hoffset := (hsound c hc).offset_placement hqc
      have hlater := h.le_start hsound c hc
      have hstart := (Prod.mk.inj heq).1
      omega

theorem Abut.stop_eq_bytes {cursor stop : Int} {bs : List Block} (h : Abut cursor bs stop)
    (hsound : ∀ b ∈ bs, b.Sound) (hsnug : ∀ b ∈ bs, b.isFiller = false) :
    stop = cursor + (plainBytes (bs.flatMap Block.placements) +
      ((storageUnits (bs.flatMap Block.placements)).map Prod.snd).sum) := by
  induction h with
  | nil => exact (add_zero _).symm
  | @cons cursor stop b bs hstart hrest ih =>
    rw [List.forall_mem_cons] at hsound hsnug
    rw [ih hsound.2 hsnug.2, List.flatMap_cons]
    have hb := hsound.1
    cases b with
    | filler => exact absurd hsnug.1 nofun
    | plain q =>
      cases hb with
      | plain hbits =>
        change cursor + q.size.val + _ = _
        simp [plainBytes, storageUnits, Block.placements, hbits]
        ring
    | unit start size fields rest =>
      obtain rfl : start = cursor := hstart
      change Abut (start + size) bs stop at hrest
      have hplain : plainBytes (fields ++ bs.flatMap Block.placements) =
          plainBytes (bs.flatMap Block.placements) := by
        cases hb with
        | unit _ _ hfields =>
          have hnone : fields.filter (·.bits.isNone) = [] := by
            refine List.filter_eq_nil_iff.mpr fun q hq => ?_
            rw [Option.isNone_iff_eq_none, ← Option.not_isSome_iff_eq_none, not_not]
            exact (hfields q hq).bits
          rw [plainBytes, List.filter_append, hnone]
          rfl
      change start + size + _ = start + (plainBytes (fields ++ _) +
        ((storageUnits (fields ++ _)).map Prod.snd).sum)
      rw [hrest.storageUnits_cons hsound.2 hb, hplain, List.map_cons, List.sum_cons]
      ring

end Sizes

theorem Layout.Reads.totalSize_packed {l : Layout Int} {bs : List Block} (h : l.Reads bs)
    (hpacked : l.packed = true) :
    l.totalSize = plainBytes l.placements + ((storageUnits l.placements).map Prod.snd).sum := by
  rw [h.abut.stop_eq_bytes h.sound (h.snug hpacked), h.placements, zero_add]

theorem Layout.Reads.padding_packed {l : Layout Int} {bs : List Block} (h : l.Reads bs)
    (hpacked : l.packed = true) (offset length : Int) : .bytes offset length ∉ l.padding := by
  rw [← h.padding]
  intro hmem
  obtain ⟨b, hb, hr⟩ := List.mem_flatMap.mp hmem
  cases h.sound b hb with
  | plain => cases hr
  | filler => exact absurd (h.snug hpacked _ hb) nofun
  | unit _ _ _ hrest =>
    obtain ⟨_, _, heq⟩ := hrest _ hr
    cases heq

theorem Placement.sharesUnit_of_alike {x y : Placement Int × Placement Int}
    (hx : x.1.MovesUp x.2) (hy : y.1.MovesUp y.2) (h : Placer.StartAlike x y) :
    x.1.sharesUnit y.1 = x.2.sharesUnit y.2 := by
  have hbits {q q' : Placement Int} (hq : q.MovesUp q') : q'.bits = q.bits := by
    obtain ⟨_, _, rfl⟩ := hq
    rfl
  rw [Bool.eq_iff_iff, sharesUnit_iff, sharesUnit_iff, hbits hx, hbits hy]
  exact and_congr_right fun hboth => h hboth.1 hboth.2

variable {a : Aggregate Int} {l : Layout Int}

theorem Layout.exists_ofTypes_packed {typed : List (Member Int × TypeDescriptor Int)}
    (ha : a.kind = .struct) (h : ofTypes p a typed = .ok l) :
    ∃ l', ofTypes p { a with packed := true } typed = .ok l' ∧ l'.totalAlignment = .one ∧
      l'.packed = true ∧ l'.totalSize ≤ l.totalSize ∧
      ∃ xs : List (Placement Int × Placement Int), l.placements = xs.map Prod.fst ∧
        l'.placements = xs.map Prod.snd ∧ (∀ x ∈ xs, x.1.MovesUp x.2) ∧
        ∀ x ∈ xs, ∀ y ∈ xs, x.1.sharesUnit y.1 = x.2.sharesUnit y.2 := by
  obtain ⟨s, hs, rfl⟩ := ofTypes_struct ha h
  obtain ⟨s', hs', xs, habreast, hleft, hright⟩ :=
    PartialStruct.Abreast.start.foldlM hs
  refine ⟨s'.finish p { a with packed := true }, ?_, rfl, rfl, ?_, xs.reverse, ?_, ?_, ?_, ?_⟩
  · unfold ofTypes
    dsimp only
    rw [ha]
    exact except_bind_eq_ok.mpr ⟨s', hs', rfl⟩
  · rw [totalSize_finish, totalSize_finish]
    change roundUp s'.placer.cursor .one ≤ _
    rw [roundUp_one]
    exact habreast.compacts.cursor.trans (le_roundUp _ _)
  · rw [List.map_reverse, ← hleft]
    rfl
  · rw [List.map_reverse, ← hright]
    rfl
  · exact fun x hx => habreast.movesUp x (List.mem_reverse.mp hx)
  · intro x hx y hy
    rw [List.mem_reverse] at hx hy
    have halike : Placer.StartAlike x y :=
      habreast.alike.forall_of_forall (fun _ _ _ _ => iff_of_true rfl rfl) hx hy
    exact Placement.sharesUnit_of_alike (habreast.movesUp x hx) (habreast.movesUp y hy) halike

theorem Target.exists_typed_packed {t : Target Int} (h : t.layout a = .ok l) :
    ∃ typed, Layout.ofTypes t.profile a typed = .ok l ∧
      ∀ l', Layout.ofTypes t.profile { a with packed := true } typed = .ok l' →
        t.layout { a with packed := true } = .ok l' := by
  obtain ⟨⟨memo, hl⟩, _⟩ := layout_eq_ok.mp h
  cases hn : t.levels with
  | zero => exact absurd (hn ▸ hl) layoutAt_zero_ne_ok
  | succ levels =>
    obtain ⟨hcycle, hnames, hw⟩ := layoutAt_succ_eq_ok.mp (hn ▸ hl)
    obtain ⟨typed, hm, htyping, hof⟩ := layoutWith_eq_ok.mp hw
    refine ⟨typed, hof, fun l' hl' => layout_eq_ok.mpr ⟨⟨memo, ?_⟩, rfl⟩⟩
    have hsound := checkNames_nil_eq_ok.mp hnames
    rw [hn]
    exact layoutAt_succ_eq_ok.mpr ⟨hcycle, checkNames_nil_eq_ok.mpr hsound,
      layoutWith_eq_ok.mpr ⟨typed, hm, htyping, hl'⟩⟩

theorem layout_packed (t : Target Int) (a : Aggregate Int) (l : Layout Int)
    (ha : a.kind = .struct) (h : t.layout a = .ok l) :
    ∃ l', t.layout { a with packed := true } = .ok l' ∧ l'.totalAlignment = .one ∧
      (∀ offset length, .bytes offset length ∉ l'.padding) ∧
      l'.totalSize =
        plainBytes l'.placements + ((storageUnits l'.placements).map Prod.snd).sum ∧
      l'.totalSize ≤ l.totalSize ∧
      List.Forall₂ Placement.MovesUp l.placements l'.placements ∧
      ∀ x ∈ l.placements.zip l'.placements, ∀ y ∈ l.placements.zip l'.placements,
        x.1.sharesUnit y.1 = x.2.sharesUnit y.2 := by
  obtain ⟨typed, hof, hpacked⟩ := Target.exists_typed_packed h
  obtain ⟨l', hl', halignment, hp, hsize, xs, hleft, hright, hmoves, hshares⟩ :=
    Layout.exists_ofTypes_packed ha hof
  obtain ⟨bs, hreads⟩ := Layout.exists_reads (a := { a with packed := true }) ha hl'
  have hzip : xs = l.placements.zip l'.placements := List.zip_of_prod hleft.symm hright.symm
  refine ⟨l', hpacked l' hl', halignment, hreads.padding_packed hp, hreads.totalSize_packed hp,
    hsize, ?_, hzip ▸ hshares⟩
  rw [hleft, hright, List.forall₂_map_left_iff, List.forall₂_map_right_iff, List.forall₂_same]
  exact hmoves

theorem layout_packed_fieldsAndArray : ∃ l l' : Layout Int,
    restartingTarget.layout fieldsAndArray = .ok l ∧
    restartingTarget.layout { fieldsAndArray with packed := true } = .ok l' ∧
    l.placements.map (·.offset) = [0, 4, 4, 8] ∧ l'.placements.map (·.offset) = [0, 1, 1, 5] ∧
    List.Forall₂ Placement.MovesUp l.placements l'.placements ∧
    l'.totalSize = plainBytes l'.placements + ((storageUnits l'.placements).map Prod.snd).sum ∧
    storageUnits l'.placements = [(1, 4)] := by
  obtain ⟨l', hl', _, _, hsize, _, hmoves, _⟩ :=
    layout_packed restartingTarget fieldsAndArray _ rfl rfl
  have hpacked : restartingTarget.layout { fieldsAndArray with packed := true } = .ok _ := rfl
  obtain rfl := Except.ok.inj (hl'.symm.trans hpacked)
  exact ⟨_, _, rfl, hl', rfl, rfl, hmoves, hsize, rfl⟩

end AggregateLayout
