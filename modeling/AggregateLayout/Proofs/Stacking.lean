import Mathlib
import AggregateLayout.Proofs.Filled
import AggregateLayout.Proofs.Reordering

namespace AggregateLayout

def TypeDescriptor.after (cursor : Int) (d : TypeDescriptor Int) : Int :=
  roundUp cursor d.alignment + d.size.val

variable {p : MachineProfile Int} {a : Aggregate Int} {l : Layout Int}
  {typed : List (Member Int × TypeDescriptor Int)}

theorem le_foldl_after (cursor : Int) (ds : List (TypeDescriptor Int)) :
    cursor + (ds.map (·.size.val)).sum ≤ ds.foldl TypeDescriptor.after cursor := by
  induction ds generalizing cursor with
  | nil => exact (add_zero cursor).le
  | cons d rest ih =>
    have padded := le_roundUp cursor d.alignment
    have here : TypeDescriptor.after cursor d = roundUp cursor d.alignment + d.size.val := rfl
    have later := ih (TypeDescriptor.after cursor d)
    rw [List.map_cons, List.sum_cons, List.foldl_cons]
    omega

theorem foldl_after_eq {ds : List (TypeDescriptor Int)} {cursor : Int}
    (hfilled : ∀ d ∈ ds, d.Filled)
    (hsorted : ds.Pairwise fun d e => e.alignment.val ≤ d.alignment.val)
    (hcursor : ∀ d ∈ ds, (d.alignment.val : Int) ∣ cursor) :
    ds.foldl TypeDescriptor.after cursor = cursor + (ds.map (·.size.val)).sum := by
  induction ds generalizing cursor with
  | nil => exact (add_zero cursor).symm
  | cons d rest ih =>
    rw [List.pairwise_cons] at hsorted
    rw [List.forall_mem_cons] at hfilled hcursor
    -- The size is a multiple of the alignment here, so of every looser one that follows.
    have next : ∀ e ∈ rest, (e.alignment.val : Int) ∣ cursor + d.size.val := by
      intro e he
      have looser := Int.natCast_dvd_natCast.mpr (PowerOfTwo.dvd_of_le (hsorted.1 e he))
      exact looser.trans (dvd_add hcursor.1 hfilled.1)
    rw [List.foldl_cons, TypeDescriptor.after, roundUp_eq hcursor.1,
      ih hfilled.2 hsorted.2 next, List.map_cons, List.sum_cons, add_assoc]

theorem PartialStruct.cursor_add {q q' : PartialStruct Int} {m : Member Int}
    {d : TypeDescriptor Int} (hm : m.bits = none) (hunit : q.placer.unit = none)
    (hq : q.add p false m d = .ok q') :
    q'.placer.unit = none ∧ q'.placer.cursor = TypeDescriptor.after q.placer.cursor d := by
  obtain ⟨placement, placer, hplace, rfl⟩ := add_eq_ok.mp hq
  rcases Placer.place_eq_ok.mp hplace with ⟨_, h⟩ | ⟨width, hw, _⟩
  · obtain rfl := congrArg Prod.snd h
    unfold Placer.placePlain
    rw [Placer.close_of_unit hunit]
    refine ⟨(Placer.align_unit q.placer _).trans hunit, ?_⟩
    change (q.placer.align d.alignment).cursor + d.size.val = _
    rw [Placer.align_cursor]
    rfl
  · exact (nomatch hm.symm.trans hw)

theorem PartialStruct.cursor_foldlM {q q' : PartialStruct Int}
    (hbits : ∀ x ∈ typed, x.1.bits = none) (hunit : q.placer.unit = none)
    (hq : typed.foldlM (fun (q : PartialStruct Int) x => q.add p false x.1 x.2) q = .ok q') :
    q'.placer.unit = none ∧
      q'.placer.cursor = (typed.map Prod.snd).foldl TypeDescriptor.after q.placer.cursor := by
  induction typed generalizing q with
  | nil =>
    obtain rfl := Except.ok.inj hq
    exact ⟨hunit, rfl⟩
  | cons x rest ih =>
    rw [List.forall_mem_cons] at hbits
    rw [List.foldlM_cons, except_bind_eq_ok] at hq
    obtain ⟨q₁, hx, hq⟩ := hq
    obtain ⟨hunit₁, hcursor⟩ := cursor_add hbits.1 hunit hx
    rw [List.map_cons, List.foldl_cons, ← hcursor]
    exact ih hbits.2 hunit₁ hq

theorem Layout.totalSize_ofTypes (ha : a.kind = .struct) (hpacked : a.packed = false)
    (hbits : ∀ x ∈ typed, x.1.bits = none) (h : ofTypes p a typed = .ok l) :
    l.totalSize = roundUp ((typed.map Prod.snd).foldl TypeDescriptor.after 0)
      ((typed.map (·.2.alignment)).foldl PowerOfTwo.max .one) := by
  obtain ⟨q, hq, rfl⟩ := ofTypes_struct ha h
  have halign := (PartialStruct.foldlM_totals hq).2
  rw [hpacked] at hq
  obtain ⟨hunit, hcursor⟩ := PartialStruct.cursor_foldlM hbits rfl hq
  unfold PartialStruct.finish
  dsimp only
  rw [Placer.close_of_unit hunit, hpacked, Placer.align_cursor, hcursor, ← halign]
  rfl

end AggregateLayout
