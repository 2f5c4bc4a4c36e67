import Mathlib
import AggregateLayout.Proofs.Minimality
import AggregateLayout.Proofs.Placements

namespace AggregateLayout

structure Front where
  cursor : Int
  unit : Option (TypeDescriptor Int × Int) := none

def Placer.front (s : Placer Int) : Front where
  cursor := s.cursor
  unit := s.unit.map fun u => (u.type.plain, u.used)

def fieldStart (p : MachineProfile Int) (width used : Int) : Int :=
  if p.bitfieldByteRestart then
    if width ≤ 8 ∧ used % 8 ≠ 0 ∧ 8 < used % 8 + width then used + (8 - used % 8) else used
  else used

section Fields

variable {p : MachineProfile Int} {width used used' : Int} {u : StorageUnit Int}

theorem le_fieldStart : used ≤ fieldStart p width used := by
  unfold fieldStart
  split
  · split <;> omega
  · exact le_rfl

theorem fieldStart_mono (h : used ≤ used') :
    fieldStart p width used ≤ fieldStart p width used' := by
  unfold fieldStart
  split
  · split <;> split <;> omega
  · exact h

namespace StorageUnit

def skipping (p : MachineProfile Int) (width : Int) (u : StorageUnit Int) : StorageUnit Int :=
  match u.skip? width with
  | some gap => if p.bitfieldByteRestart then u.take gap else u
  | none => u

theorem skip?_cases (u : StorageUnit Int) (width : Int) :
    (u.skip? width = some (8 - u.used % 8) ∧ width ≤ 8 ∧ u.used % 8 ≠ 0 ∧
        8 < u.used % 8 + width ∧ u.used + (8 - u.used % 8) + width ≤ u.type.size.val * 8) ∨
      u.skip? width = none ∧ (8 < width ∨ u.used % 8 = 0 ∨ u.used % 8 + width ≤ 8 ∨
        u.type.size.val * 8 < u.used + (8 - u.used % 8) + width) := by
  have room : (!(u.take (8 - u.used % 8)).fits width) = true ↔
      u.type.size.val * 8 < u.used + (8 - u.used % 8) + width := by
    rw [Bool.not_eq_true', ← Bool.not_eq_true, fits_iff, not_le]
    rfl
  unfold skip?
  dsimp only
  split
  · next declined =>
    simp only [Bool.or_eq_true, decide_eq_true_eq, beq_iff_eq] at declined
    change ((8 < width ∨ u.used % 8 = 0) ∨ u.used % 8 + width ≤ 8) ∨
      (!(u.take (8 - u.used % 8)).fits width) = true at declined
    rw [room] at declined
    exact .inr ⟨rfl, by tauto⟩
  · next skips =>
    simp only [Bool.or_eq_true, decide_eq_true_eq, beq_iff_eq, not_or] at skips
    change ((¬ 8 < width ∧ ¬ u.used % 8 = 0) ∧ ¬ u.used % 8 + width ≤ 8) ∧
      ¬ (!(u.take (8 - u.used % 8)).fits width) = true at skips
    rw [room] at skips
    refine .inl ⟨rfl, ?_⟩
    omega

theorem type_skipping : (u.skipping p width).type = u.type := by
  unfold skipping
  split
  · split <;> rfl
  · rfl

theorem fits_skipping : (u.skipping p width).fits width = true ↔
    fieldStart p width u.used + width ≤ u.type.size.val * 8 := by
  rw [fits_iff, type_skipping]
  unfold skipping fieldStart
  rcases skip?_cases u width with ⟨hskip, hgap⟩ | ⟨hskip, hgap⟩ <;> rw [hskip] <;> dsimp only
  · split
    · rw [if_pos (by omega)]
      rfl
    · rfl
  · split
    · split <;> omega
    · rfl

theorem used_skipping (h : (u.skipping p width).fits width = true) :
    (u.skipping p width).used = fieldStart p width u.used := by
  rw [fits_skipping] at h
  unfold fieldStart at h
  unfold skipping fieldStart
  rcases skip?_cases u width with ⟨hskip, hgap⟩ | ⟨hskip, hgap⟩ <;> rw [hskip] <;> dsimp only
  · split
    · rw [if_pos (by omega)]
      rfl
    · rfl
  · split
    · next restarts =>
      rw [if_pos restarts] at h
      split
      · next skips =>
        rw [if_pos skips] at h
        omega
      · rfl
    · rfl

end StorageUnit

end Fields

namespace Placer

variable {p : MachineProfile Int} {s s' : Placer Int} {m : Member Int} {d : TypeDescriptor Int}
  {q : Placement Int} {width : Int}

theorem closeUnless_unit (test : StorageUnit Int → Bool) :
    (s.closeUnless p test).unit = s.unit.filter test := by
  unfold closeUnless
  cases hu : s.unit with
  | none => exact hu
  | some u =>
    dsimp only [Option.filter]
    split
    · exact hu
    · exact close_unit p s

theorem restart_unit : (s.restart p width).unit = s.unit.map (·.skipping p width) := by
  unfold restart
  cases hu : s.unit with
  | none => exact hu
  | some u =>
    dsimp only [Option.map, StorageUnit.skipping]
    cases u.skip? width with
    | none => exact hu
    | some gap =>
      dsimp only
      split
      · rfl
      · exact hu

theorem ready_unit : (s.ready p d width).unit =
    ((s.unit.filter (·.type.sameAs d)).map (·.skipping p width)).filter (·.fits width) := by
  unfold ready
  rw [closeUnless_unit, restart_unit, closeUnless_unit]

end Placer

namespace Front

def room? (p : MachineProfile Int) (width : Int) (d : TypeDescriptor Int) (s : Front) :
    Option Int :=
  match s.unit with
  | none => none
  | some (e, used) =>
    if e.sameAs d ∧ fieldStart p width used + width ≤ d.size.val * 8 then
      some (fieldStart p width used)
    else none

def next (p : MachineProfile Int) (bits : Option Int) (d : TypeDescriptor Int) (s : Front) :
    Front :=
  match bits with
  | none => { cursor := d.after s.cursor }
  | some width =>
    match s.room? p width d with
    | some start => { s with unit := some (d, start + width) }
    | none => { cursor := d.after s.cursor, unit := some (d, width) }

/-- How far a member takes placing with the alignments that count, packed or not. -/
def advance (p : MachineProfile Int) (packed : Bool) (bits : Option Int) (d : TypeDescriptor Int)
    (s : Front) : Front :=
  let stop := roundUp s.cursor (Placer.alignmentOf packed d) + d.size.val
  match bits with
  | none => { cursor := stop }
  | some width =>
    match s.room? p width d with
    | some start => { s with unit := some (d, start + width) }
    | none => { cursor := stop, unit := some (d, width) }

theorem advance_aligned (p : MachineProfile Int) (bits : Option Int) (d : TypeDescriptor Int)
    (s : Front) : s.advance p false bits d = s.next p bits d := by
  unfold advance next TypeDescriptor.after
  rfl

end Front

namespace Placer

variable {p : MachineProfile Int} {s s' : Placer Int} {m : Member Int} {d : TypeDescriptor Int}
  {q : Placement Int} {width : Int}

theorem room?_front :
    s.front.room? p width d.plain = (s.ready p d width).unit.map (·.used) := by
  rw [ready_unit]
  unfold front Front.room?
  cases s.unit with
  | none => rfl
  | some u =>
    dsimp only [Option.map]
    rw [TypeDescriptor.sameAs_plain, TypeDescriptor.size_plain]
    by_cases hsame : u.type.sameAs d = true
    · have hsize := TypeDescriptor.size_of_plain_eq (TypeDescriptor.plain_eq_of_sameAs hsame)
      by_cases hfits : (u.skipping p width).fits width = true
      · have hroom := StorageUnit.fits_skipping.mp hfits
        rw [if_pos ⟨hsame, hsize ▸ hroom⟩, ← StorageUnit.used_skipping hfits]
        simp [Option.filter, hsame, hfits]
      · have hroom := mt StorageUnit.fits_skipping.mpr hfits
        rw [if_neg fun h => hroom (hsize ▸ h.2)]
        simp [Option.filter, hsame, hfits]
    · rw [if_neg fun h => hsame h.1]
      simp [Option.filter, hsame]

theorem front_advance {packed : Bool} (h : s.place p packed m d = .ok (q, s')) :
    s'.front = s.front.advance p packed m.bits d.plain := by
  have hafter (cursor : Int) : roundUp cursor (alignmentOf packed d.plain) + d.plain.size.val =
      roundUp cursor (alignmentOf packed d) + d.size.val := by
    rw [plain_alignmentOf, TypeDescriptor.size_plain]
    rfl
  unfold Front.advance
  dsimp only
  rw [hafter]
  rcases place_eq_ok.mp h with ⟨hbits, h⟩ | ⟨width, hbits, _, h⟩ <;> rw [hbits] <;> dsimp only
  · obtain rfl := congrArg Prod.snd h
    have hcursor := (s.close p).align_cursor (alignmentOf packed d)
    have hunit := ((s.close p).align_unit (alignmentOf packed d)).trans (close_unit p s)
    rw [(close_keeps p s).1] at hcursor
    change Front.mk (((s.close p).align (alignmentOf packed d)).cursor + d.size.val)
      (((s.close p).align (alignmentOf packed d)).unit.map _) =
        Front.mk (roundUp s.cursor (alignmentOf packed d) + d.size.val) none
    rw [hcursor, hunit]
    rfl
  · change (s.ready p d width).takeBits p packed m width d = _ at h
    obtain rfl := congrArg Prod.snd h
    have kept := (ready_keeps p d width s).1
    rw [room?_front]
    unfold takeBits
    cases hr : (s.ready p d width).unit with
    | some u =>
      obtain ⟨_, u₀, _, htype, hsame⟩ := unit_ready hr
      have hplain : u.type.plain = d.plain := htype ▸ hsame
      change Front.mk (s.ready p d width).cursor (some (u.type.plain, u.used + width)) =
        Front.mk s.cursor (some (d.plain, u.used + width))
      rw [kept, hplain]
    | none =>
      have hcursor := (s.ready p d width).align_cursor (alignmentOf packed d)
      rw [kept] at hcursor
      change Front.mk (((s.ready p d width).align (alignmentOf packed d)).cursor + d.size.val)
        (some (d.plain, 0 + width)) =
          Front.mk (roundUp s.cursor (alignmentOf packed d) + d.size.val) (some (d.plain, width))
      rw [hcursor, zero_add]

end Placer

namespace Front

variable {p : MachineProfile Int} {s r q : Front} {bits : Option Int} {d e : TypeDescriptor Int}
  {width start : Int}

theorem room?_eq_some : s.room? p width d = some start ↔ ∃ e used, s.unit = some (e, used) ∧
    e.sameAs d = true ∧ start = fieldStart p width used ∧ start + width ≤ d.size.val * 8 := by
  unfold room?
  cases s.unit with
  | none => simp
  | some u =>
    obtain ⟨e, used⟩ := u
    dsimp only
    split
    · next h =>
      constructor
      · intro hstart
        obtain rfl := Option.some.inj hstart
        exact ⟨e, used, rfl, h.1, rfl, h.2⟩
      · rintro ⟨_, _, hu, _, rfl, _⟩
        cases hu
        rfl
    · next h =>
      refine iff_of_false nofun ?_
      rintro ⟨_, _, hu, hsame, rfl, hfits⟩
      cases hu
      exact h ⟨hsame, hfits⟩

theorem after_mono {a b : Int} (h : a ≤ b) : d.after a ≤ d.after b :=
  Int.add_le_add_right (roundUp_mono h) _

theorem le_after (a : Int) : a + d.size.val ≤ d.after a :=
  Int.add_le_add_right (le_roundUp a d.alignment) _

def Fair (s : Front) : Prop :=
  ∀ e used, s.unit = some (e, used) → (e.alignment.val : Int) ∣ s.cursor - e.size.val ∧ 0 ≤ used

structure Behind (s r : Front) : Prop where
  cursor : s.cursor ≤ r.cursor
  unit : ∀ e used, r.unit = some (e, used) → s.cursor + e.size.val ≤ r.cursor ∨
    ∃ used', s.unit = some (e, used') ∧ used' ≤ used

theorem Behind.refl (s : Front) : s.Behind s :=
  ⟨le_rfl, fun _ used h => .inr ⟨used, h, le_rfl⟩⟩

theorem Behind.trans (h : s.Behind r) (h' : r.Behind q) : s.Behind q := by
  have hcursor := h.cursor
  refine ⟨hcursor.trans h'.cursor, fun e used hu => ?_⟩
  rcases h'.unit e used hu with hbefore | ⟨used', hu', hused'⟩
  · exact .inl (by omega)
  · rcases h.unit e used' hu' with hbefore | ⟨used'', hu'', hused''⟩
    · exact .inl (hbefore.trans h'.cursor)
    · exact .inr ⟨used'', hu'', hused''.trans hused'⟩

theorem next_of_room (h : s.room? p width d = some start) :
    s.next p (some width) d = { s with unit := some (d, start + width) } := by
  unfold Front.next
  dsimp only
  rw [h]

theorem next_of_no_room (h : s.room? p width d = none) :
    s.next p (some width) d = { cursor := d.after s.cursor, unit := some (d, width) } := by
  unfold Front.next
  dsimp only
  rw [h]

theorem Fair.unit_of_room (h : s.Fair) (hroom : s.room? p width d = some start) :
    ∃ e used, s.unit = some (e, used) ∧ e.sameAs d = true ∧ e.size.val = d.size.val ∧
      (d.alignment.val : Int) ∣ s.cursor - d.size.val ∧ 0 ≤ used ∧
      start = fieldStart p width used ∧ used ≤ start ∧ start + width ≤ d.size.val * 8 := by
  obtain ⟨e, used, hu, hsame, rfl, hfits⟩ := room?_eq_some.mp hroom
  obtain ⟨haligned, hused⟩ := h e used hu
  have hplain := TypeDescriptor.plain_eq_of_sameAs hsame
  have hsize := TypeDescriptor.size_of_plain_eq hplain
  rw [TypeDescriptor.alignment_of_plain_eq hplain, hsize] at haligned
  exact ⟨e, used, hu, hsame, congrArg Size.val hsize, haligned, hused, rfl, le_fieldStart, hfits⟩

theorem Fair.next (h : s.Fair) (hbits : ∀ width, bits = some width → 0 ≤ width) :
    (s.next p bits d).Fair := by
  cases bits with
  | none => exact fun _ _ hu => (nomatch hu)
  | some width =>
    have hwidth := hbits width rfl
    intro e taken hu
    cases hroom : s.room? p width d with
    | none =>
      rw [next_of_no_room hroom] at hu ⊢
      obtain ⟨rfl, rfl⟩ := Prod.mk.inj (Option.some.inj hu)
      refine ⟨?_, hwidth⟩
      change _ ∣ roundUp s.cursor d.alignment + d.size.val - d.size.val
      rw [add_sub_cancel_right]
      exact dvd_roundUp _ _
    | some start =>
      rw [next_of_room hroom] at hu ⊢
      obtain ⟨rfl, rfl⟩ := Prod.mk.inj (Option.some.inj hu)
      obtain ⟨_, used, _, _, _, haligned, hused, _, hstart, _⟩ := h.unit_of_room hroom
      exact ⟨haligned, by omega⟩

theorem Behind.next_of_no_room (h : s.Behind r) (hroom : r.room? p width d = none) :
    (s.next p (some width) d).Behind (r.next p (some width) d) := by
  have hcursor := h.cursor
  have hafter := @after_mono d _ _ hcursor
  rw [Front.next_of_no_room hroom]
  cases hroom' : s.room? p width d with
  | none =>
    rw [Front.next_of_no_room hroom']
    refine ⟨hafter, fun e used hu => .inr ?_⟩
    obtain ⟨rfl, rfl⟩ := Prod.mk.inj (Option.some.inj hu)
    exact ⟨width, rfl, le_rfl⟩
  | some start =>
    rw [next_of_room hroom']
    have hle := @le_after d r.cursor
    have hsize := d.size.val_nonneg
    refine ⟨?_, fun e used hu => .inl ?_⟩
    · dsimp only
      omega
    · obtain ⟨rfl, rfl⟩ := Prod.mk.inj (Option.some.inj hu)
      dsimp only
      omega

theorem Behind.next_of_room (h : s.Behind r) (hr : r.Fair)
    (hroom : r.room? p width d = some start) :
    (s.next p (some width) d).Behind (r.next p (some width) d) := by
  have hcursor := h.cursor
  obtain ⟨e, used, hu, hsame, hsize, haligned, hused, rfl, hstart, hfits⟩ := hr.unit_of_room hroom
  rw [Front.next_of_room hroom]
  cases hroom' : s.room? p width d with
  | none =>
    rw [Front.next_of_no_room hroom']
    rcases h.unit e used hu with hbefore | ⟨used', hu', hless⟩
    · -- The unit that is open further on starts aligned, and the new one fits before its end.
      have hafter := roundUp_le haligned (n := s.cursor) (by omega)
      refine ⟨?_, fun e used hu => .inr ?_⟩
      · change roundUp s.cursor d.alignment + d.size.val ≤ r.cursor
        omega
      · obtain ⟨rfl, rfl⟩ := Prod.mk.inj (Option.some.inj hu)
        exact ⟨width, rfl, by omega⟩
    · -- With fewer bits taken there is room as well.
      have hfewer := @fieldStart_mono p width _ _ hless
      have room := room?_eq_some.mpr ⟨e, used', hu', hsame, rfl,
        (add_le_add_left hfewer width).trans hfits⟩
      exact (nomatch hroom'.symm.trans room)
  | some start' =>
    rw [Front.next_of_room hroom']
    refine ⟨hcursor, fun f taken hf => ?_⟩
    obtain ⟨rfl, rfl⟩ := Prod.mk.inj (Option.some.inj hf)
    rcases h.unit e used hu with hbefore | ⟨used', hu', hless⟩
    · exact .inl (hsize ▸ hbefore)
    · obtain ⟨_, _, hs, _, rfl, _⟩ := room?_eq_some.mp hroom'
      cases hu'.symm.trans hs
      exact .inr ⟨_, rfl, add_le_add_left (fieldStart_mono hless) width⟩

theorem Behind.next (h : s.Behind r) (hr : r.Fair) :
    (s.next p bits d).Behind (r.next p bits d) := by
  cases bits with
  | none => exact ⟨after_mono h.cursor, fun _ _ hu => (nomatch hu)⟩
  | some width =>
    cases hroom : r.room? p width d with
    | none => exact h.next_of_no_room hroom
    | some start => exact h.next_of_room hr hroom

def run (p : MachineProfile Int) (fields : List (Option Int × TypeDescriptor Int)) (s : Front) :
    Front :=
  fields.foldl (fun s x => s.next p x.1 x.2) s

variable {fields mid : List (Option Int × TypeDescriptor Int)}

theorem run_append (others : List (Option Int × TypeDescriptor Int)) :
    s.run p (fields ++ others) = (s.run p fields).run p others := List.foldl_append

theorem Fair.run (h : s.Fair) (hbits : ∀ x ∈ fields, ∀ width, x.1 = some width → 0 ≤ width) :
    (s.run p fields).Fair := by
  induction fields generalizing s with
  | nil => exact h
  | cons x rest ih =>
    rw [List.forall_mem_cons] at hbits
    exact ih (h.next hbits.1) hbits.2

theorem Behind.run (h : s.Behind r) (hr : r.Fair)
    (hbits : ∀ x ∈ fields, ∀ width, x.1 = some width → 0 ≤ width) :
    (s.run p fields).Behind (r.run p fields) := by
  induction fields generalizing s r with
  | nil => exact h
  | cons x rest ih =>
    rw [List.forall_mem_cons] at hbits
    exact ih (h.next hr) (hr.next hbits.1) hbits.2

def shift (k : Int) (s : Front) : Front := { s with cursor := s.cursor + k }

theorem advance_shift {packed : Bool} {k : Int}
    (hk : ((Placer.alignmentOf packed d).val : Int) ∣ k) :
    (s.shift k).advance p packed bits d = (s.advance p packed bits d).shift k := by
  have hstop : roundUp (s.cursor + k) (Placer.alignmentOf packed d) + d.size.val =
      roundUp s.cursor (Placer.alignmentOf packed d) + d.size.val + k := by
    rw [roundUp_add hk]
    omega
  unfold advance
  cases bits with
  | none => exact congrArg (Front.mk · none) hstop
  | some width =>
    have hroom : (s.shift k).room? p width d = s.room? p width d := rfl
    dsimp only
    rw [hroom]
    cases s.room? p width d with
    | none => exact congrArg (Front.mk · _) hstop
    | some start => rfl

theorem next_shift {k : Int} (hk : (d.alignment.val : Int) ∣ k) :
    (s.shift k).next p bits d = (s.next p bits d).shift k := by
  rw [← advance_aligned, ← advance_aligned]
  exact advance_shift hk

theorem run_shift {k : Int} (hk : ∀ x ∈ fields, (x.2.alignment.val : Int) ∣ k) :
    (s.shift k).run p fields = (s.run p fields).shift k := by
  induction fields generalizing s with
  | nil => rfl
  | cons x rest ih =>
    rw [List.forall_mem_cons] at hk
    change ((s.shift k).next p x.1 x.2).run p rest = _
    rw [next_shift hk.1, ih hk.2]
    rfl

def Settled (s : Front) (alignment : Nat) : Prop := s.unit = none ∧ (alignment : Int) ∣ s.cursor

theorem next_none (hd : d.Filled) : (s.next p none d).Settled d.alignment.val :=
  ⟨rfl, (dvd_roundUp _ _).add hd⟩

theorem draw_behind (hs : s.Settled d.alignment.val) (hd : d.Filled)
    (hmid : ∀ x ∈ mid, x.2.alignment.val = d.alignment.val) :
    (s.run p ((none, d) :: mid)).Behind (s.run p (mid ++ [(none, d)])) := by
  have first : s.next p none d = s.shift d.size.val := by
    unfold next shift TypeDescriptor.after
    rw [roundUp_eq hs.2, hs.1]
  have sooner : s.run p ((none, d) :: mid) = (s.run p mid).shift d.size.val := by
    change (s.next p none d).run p mid = _
    rw [first, run_shift fun x hx => hmid x hx ▸ hd]
  rw [sooner, run_append]
  exact ⟨le_after _, fun _ _ hu => (nomatch hu)⟩

end Front

variable {p : MachineProfile Int} {typed : List (Member Int × TypeDescriptor Int)}

theorem PartialStruct.advance_foldlM {packed : Bool} {q q' : PartialStruct Int}
    (hq : typed.foldlM (fun (q : PartialStruct Int) x => q.add p packed x.1 x.2) q = .ok q') :
    q'.placer.front = (typed.map fun x => (x.1.bits, x.2.plain)).foldl
      (fun s x => s.advance p packed x.1 x.2) q.placer.front := by
  induction typed generalizing q with
  | nil =>
    obtain rfl := Except.ok.inj hq
    rfl
  | cons x rest ih =>
    rw [List.foldlM_cons, except_bind_eq_ok] at hq
    obtain ⟨q₁, hx, hq⟩ := hq
    obtain ⟨placement, placer, hplace, rfl⟩ := add_eq_ok.mp hx
    rw [ih hq, List.map_cons, List.foldl_cons, ← Placer.front_advance hplace]

theorem Layout.totalSize_advance {a : Aggregate Int} {l : Layout Int} (ha : a.kind = .struct)
    (h : ofTypes p a typed = .ok l) :
    l.totalSize = roundUp
      ((typed.map fun x => (x.1.bits, x.2.plain)).foldl
        (fun s x => s.advance p a.packed x.1 x.2) ({ cursor := 0 } : Front)).cursor
      l.totalAlignment := by
  obtain ⟨q, hq, rfl⟩ := ofTypes_struct ha h
  have hfront := congrArg Front.cursor (PartialStruct.advance_foldlM hq)
  rw [totalSize_finish]
  exact congrArg (roundUp · _) hfront

theorem Layout.totalSize_front {a : Aggregate Int} {l : Layout Int} (ha : a.kind = .struct)
    (hpacked : a.packed = false) (h : ofTypes p a typed = .ok l) :
    l.totalSize = roundUp
      (Front.run p (typed.map fun x => (x.1.bits, x.2.plain)) { cursor := 0 }).cursor
      l.totalAlignment := by
  rw [totalSize_advance ha h, hpacked]
  simp only [Front.advance_aligned]
  rfl

end AggregateLayout
