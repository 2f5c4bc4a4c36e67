import Mathlib
import AggregateLayout.Proofs.Placements
import AggregateLayout.Proofs.Repacking

/-!
Members at every depth. An aggregate that stands inside others is as far from the start of the
outermost one as the places on the way add up to. What is aligned in its own aggregate is aligned
there as well: the alignment of a nested aggregate is a multiple of those of its members, its place
is aligned to it, and so is each element of an array of it, since its size is a multiple of it.
-/

namespace AggregateLayout

namespace PowerOfTwo

theorem dvd_max (a b : PowerOfTwo) : a.val ∣ (a.max b).val ∧ b.val ∣ (a.max b).val := by
  have hmax := val_max a b
  constructor
  · apply dvd_of_le
    omega
  · apply dvd_of_le
    omega

theorem dvd_foldl_max (as : List PowerOfTwo) (b : PowerOfTwo) :
    b.val ∣ (as.foldl max b).val ∧ ∀ a ∈ as, a.val ∣ (as.foldl max b).val := by
  induction as generalizing b with
  | nil => exact ⟨dvd_refl _, fun a ha => (nomatch ha)⟩
  | cons a rest ih =>
    obtain ⟨hfirst, hrest⟩ := ih (b.max a)
    obtain ⟨hb, ha⟩ := dvd_max b a
    refine ⟨hb.trans hfirst, List.forall_mem_cons.mpr ⟨ha.trans hfirst, hrest⟩⟩

end PowerOfTwo

variable {p : MachineProfile Int} {a b : Aggregate Int} {l inner : Layout Int}
  {typed : List (Member Int × TypeDescriptor Int)} {m : Member Int} {d : TypeDescriptor Int}
  {name : String} {q r : Placement Int}

def Placement.Aligned (q : Placement Int) : Prop := (q.alignment.val : Int) ∣ q.offset

namespace PartialStruct

variable {s s' : PartialStruct Int}

structure Aligned (s : PartialStruct Int) : Prop where
  placed : ∀ q ∈ s.placements, q.Aligned
  unit : ∀ u, s.placer.unit = some u → (u.type.alignment.val : Int) ∣ s.placer.unitStart

theorem Aligned.start : Aligned {} := ⟨fun _ hq => (nomatch hq), fun _ hu => (nomatch hu)⟩

theorem Aligned.add (h : s.Aligned) (hs : s.add p false m d = .ok s') : s'.Aligned := by
  obtain ⟨q, placer, hplace, rfl⟩ := add_eq_ok.mp hs
  have halignment := (Placer.place_placement hplace).1
  have new : q.Aligned ∧
      ∀ u, placer.unit = some u → (u.type.alignment.val : Int) ∣ placer.unitStart := by
    unfold Placement.Aligned
    rw [halignment]
    cases Placer.place_step hplace with
    | alone _ hoffset hunit _ =>
      refine ⟨hoffset ▸ dvd_roundUp _ _, fun u hu => ?_⟩
      exact (nomatch hunit.symm.trans hu)
    | opens _ hoffset hunit htype hstart _ =>
      have start : (d.alignment.val : Int) ∣ q.offset := hoffset ▸ dvd_roundUp _ _
      refine ⟨start, fun u hu => ?_⟩
      obtain rfl := Option.some.inj (hunit.symm.trans hu)
      rw [htype, hstart]
      exact start
    | joins _ hunit htype hoffset hunit' htype' hstart _ =>
      have aligned := h.unit _ hunit
      refine ⟨?_, fun u hu => ?_⟩
      · rw [hoffset, ← TypeDescriptor.alignment_of_plain_eq htype]
        exact aligned
      · obtain rfl := Option.some.inj (hunit'.symm.trans hu)
        rw [htype', hstart]
        exact aligned
  exact ⟨List.forall_mem_cons.mpr ⟨new.1, h.placed⟩, new.2⟩

theorem Aligned.foldlM (h : s.Aligned)
    (hs : typed.foldlM (fun (s : PartialStruct Int) x => s.add p false x.1 x.2) s = .ok s') :
    s'.Aligned :=
  foldlM_invariant (P := Aligned) (fun _ _ _ h hx => h.add hx) h hs

end PartialStruct

namespace Layout

theorem aligned_ofTypes (hpacked : a.packed = false) (h : ofTypes p a typed = .ok l) :
    ∀ q ∈ l.placements, q.Aligned := by
  cases ha : a.kind with
  | struct =>
    obtain ⟨s, hs, rfl⟩ := ofTypes_struct ha h
    rw [hpacked] at hs
    have aligned : s.Aligned := PartialStruct.Aligned.start.foldlM hs
    intro q hq
    exact aligned.placed q (List.mem_reverse.mp hq)
  | union =>
    intro q hq
    unfold Placement.Aligned
    rw [offset_union ha h q hq]
    exact dvd_zero _

theorem alignment_dvd (hpacked : a.packed = false) (h : ofTypes p a typed = .ok l)
    (hq : q ∈ l.placements) : q.alignment.val ∣ l.totalAlignment.val := by
  have widest : l.totalAlignment = (l.placements.map (·.alignment)).foldl PowerOfTwo.max .one := by
    cases ha : a.kind with
    | struct =>
      have same : l.placements.map (·.alignment) = typed.map (·.2.alignment) := by
        rw [← List.forall₂_eq_eq_eq, List.forall₂_map_left_iff, List.forall₂_map_right_iff]
        exact (holds_ofTypes h).flip.imp fun _ _ hold => hold.alignment
      rw [totalAlignment_ofTypes ha h, hpacked, same]
      rfl
    | union =>
      obtain ⟨placements, _, rfl⟩ := ofTypes_union ha h
      unfold finishUnion
      rw [hpacked]
      rfl
  rw [widest]
  exact (PowerOfTwo.dvd_foldl_max _ _).2 _ (List.mem_map_of_mem hq)

end Layout

namespace Target

/-- A place below an aggregate. Its offset is what the places on the way add up to, and the way
leads through one element of each array of aggregates. -/
inductive Reaches (t : Target Int) : Aggregate Int → Layout Int → Placement Int → Prop
  | member {a : Aggregate Int} {l : Layout Int} {name : String} {q : Placement Int}
    (hq : l.placement? name = some q) : Reaches t a l q
  | element {a b : Aggregate Int} {l inner : Layout Int} {name : String} {m : Member Int}
    {q r : Placement Int} {index : Int} (hm : a.member? name = some m)
    (hq : l.placement? name = some q) (hb : t.nested? m.type = some b)
    (hpacked : b.packed = false) (hinner : t.layout b = .ok inner) (hnonneg : 0 ≤ index)
    (hindex : index < m.dims.prod) (hr : Reaches t b inner r) :
    Reaches t a l { r with offset := q.offset + index * inner.totalSize + r.offset }

variable {t : Target Int}

theorem Lays.aligned (h : t.Lays a l) (hpacked : a.packed = false) :
    ∀ q ∈ l.placements, q.Aligned ∧ q.alignment.val ∣ l.totalAlignment.val := by
  obtain ⟨_, typed, _, _, hl⟩ := h
  intro q hq
  exact ⟨Layout.aligned_ofTypes hpacked hl q hq, Layout.alignment_dvd hpacked hl hq⟩

theorem Lays.totalAlignment_dvd (h : t.Lays a l) :
    (l.totalAlignment.val : Int) ∣ l.totalSize := by
  obtain ⟨_, typed, _, _, hl⟩ := h
  rw [← Layout.size_descriptor hl]
  exact Layout.filled_descriptor hl

theorem Reaches.aligned (hr : t.Reaches a l r) (h : t.Lays a l) (hpacked : a.packed = false) :
    r.Aligned ∧ r.alignment.val ∣ l.totalAlignment.val := by
  induction hr with
  | member hq => exact h.aligned hpacked _ (List.mem_of_find?_eq_some hq)
  | @element a b l inner name m q r index hm hq hb hpackedb hinner _ _ _ ih =>
    have hinner := lays_of_layout hinner
    obtain ⟨hr, hwithin⟩ := ih hinner hpackedb
    obtain ⟨hplace, houter⟩ := h.aligned hpacked q (List.mem_of_find?_eq_some hq)
    obtain ⟨_, hsame, _⟩ := h.holds_nested hm hq hb hinner
    unfold Placement.Aligned at hr hplace ⊢
    rw [hsame] at hplace houter
    -- The alignment further in divides that of its own aggregate, and so each part of the sum.
    have wider := Int.natCast_dvd_natCast.mpr hwithin
    have step : (inner.totalAlignment.val : Int) ∣ q.offset + index * inner.totalSize :=
      hplace.add (hinner.totalAlignment_dvd.mul_left index)
    exact ⟨(wider.trans step).add hr, hwithin.trans houter⟩

end Target

theorem layout_aligned_below (t : Target Int) (a : Aggregate Int) (l : Layout Int)
    (h : t.layout a = .ok l) (hpacked : a.packed = false) :
    (∀ r, t.Reaches a l r →
      (r.alignment.val : Int) ∣ r.offset ∧ r.alignment.val ∣ l.totalAlignment.val) ∧
    (∃ k, l.totalAlignment.val = 2 ^ k) ∧ (l.totalAlignment.val : Int) ∣ l.totalSize := by
  have laid := Target.lays_of_layout h
  refine ⟨fun r hr => ?_, ⟨_, l.totalAlignment.isPower⟩, laid.totalAlignment_dvd⟩
  exact hr.aligned laid hpacked

def wordOrByte : Aggregate Int where
  name := ""
  kind := .union
  members :=
    [{ name := "word", type := .descriptor (integer .four) },
      { name := "byte", type := .descriptor (integer .one) }]

def cell : Aggregate Int where
  name := "cell"
  members :=
    [{ name := "used", type := .descriptor (integer .one), bits := some 1 },
      { name := "value", type := .inline wordOrByte }]

def cells : Aggregate Int where
  name := "cells"
  members :=
    [{ name := "count", type := .descriptor (integer .one) },
      { name := "all", type := .inline cell, dims := [3] }]

theorem layout_aligned_below_cells :
    ∃ l r, (Target.ofProfile .lp64).layout cells = .ok l ∧
      (Target.ofProfile .lp64).Reaches cells l r ∧ r.name = "word" ∧ r.offset = 24 ∧
      (r.alignment.val : Int) ∣ r.offset ∧ r.alignment.val ∣ l.totalAlignment.val ∧
      l.totalSize = 28 ∧ (l.totalAlignment.val : Int) ∣ l.totalSize := by
  obtain ⟨choice, word, hchoice, hword, hname, hwordOffset⟩ : ∃ choice word,
      (Target.ofProfile .lp64).layout wordOrByte = .ok choice ∧
      choice.placement? "word" = some word ∧ word.name = "word" ∧ word.offset = 0 :=
    ⟨_, _, rfl, rfl, rfl, rfl⟩
  obtain ⟨one, value, hone, hvalue, hsize, hvalueOffset⟩ : ∃ one value,
      (Target.ofProfile .lp64).layout cell = .ok one ∧ one.placement? "value" = some value ∧
      one.totalSize = 8 ∧ value.offset = 4 :=
    ⟨_, _, rfl, rfl, rfl, rfl⟩
  obtain ⟨whole, all, hwhole, hall, htotal, hallOffset⟩ : ∃ whole all,
      (Target.ofProfile .lp64).layout cells = .ok whole ∧ whole.placement? "all" = some all ∧
      whole.totalSize = 28 ∧ all.offset = 4 :=
    ⟨_, _, rfl, rfl, rfl, rfl⟩
  have inside : (Target.ofProfile .lp64).Reaches cell one
      { word with offset := value.offset + 0 * choice.totalSize + word.offset } :=
    .element rfl hvalue rfl rfl hchoice (by decide) (by decide) (.member hword)
  have last : (Target.ofProfile .lp64).Reaches cells whole
      { word with
        offset := all.offset + 2 * one.totalSize +
          (value.offset + 0 * choice.totalSize + word.offset) } :=
    .element rfl hall rfl rfl hone (by decide) (by decide) inside
  have aligned := layout_aligned_below (.ofProfile .lp64) cells whole hwhole rfl
  obtain ⟨hoffset, hwidest⟩ := aligned.1 _ last
  refine ⟨whole, _, hwhole, last, hname, ?_, hoffset, hwidest, htotal, aligned.2.2⟩
  dsimp only
  omega

end AggregateLayout
