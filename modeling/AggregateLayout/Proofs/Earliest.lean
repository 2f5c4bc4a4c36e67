import Mathlib
import AggregateLayout.Proofs.Placements
import AggregateLayout.Proofs.Reordering

/-!
A struct is as tight as its order allows. Its parts are the plain members and the storage units. Put
anywhere else in this order, aligned and apart, none of them starts sooner and the whole gets no
smaller.
-/

namespace AggregateLayout

def Placement.sharesUnit (x y : Placement Int) : Bool :=
  x.bits.isSome && y.bits.isSome && x.offset == y.offset

def Placement.alignmentIn (packed : Bool) (q : Placement Int) : PowerOfTwo :=
  if packed then .one else q.alignment

def partsAfter : Option (Placement Int) → List (Placement Int) → List (Placement Int)
  | _, [] => []
  | before, q :: rest =>
    if before.any (·.sharesUnit q) then partsAfter (some q) rest else q :: partsAfter (some q) rest

/-- The plain members and the storage units, in their order. -/
def Layout.parts (l : Layout Int) : List (Placement Int) := partsAfter none l.placements

/-- Places for parts from a byte on: each is aligned and after the one before. The last byte after
all of them is given as well. -/
inductive Assigns (packed : Bool) : Int → List (Placement Int) → List Int → Int → Prop
  | nil (cursor : Int) : Assigns packed cursor [] [] cursor
  | cons {cursor offset stop : Int} {q : Placement Int} {qs : List (Placement Int)}
    {offsets : List Int} (hbehind : cursor ≤ offset)
    (haligned : ((q.alignmentIn packed).val : Int) ∣ offset)
    (hrest : Assigns packed (offset + q.size.val) qs offsets stop) :
    Assigns packed cursor (q :: qs) (offset :: offsets) stop

inductive Tight (packed : Bool) : Int → List (Placement Int) → Int → Prop
  | nil (cursor : Int) : Tight packed cursor [] cursor
  | cons {cursor stop : Int} {q : Placement Int} {qs : List (Placement Int)}
    (hoffset : q.offset = roundUp cursor (q.alignmentIn packed))
    (hrest : Tight packed (q.offset + q.size.val) qs stop) : Tight packed cursor (q :: qs) stop

theorem Placement.sharesUnit_iff {x y : Placement Int} :
    x.sharesUnit y = true ↔ (x.bits.isSome ∧ y.bits.isSome) ∧ x.offset = y.offset := by
  simp [sharesUnit]

theorem exists_part {before : Option (Placement Int)} {qs : List (Placement Int)}
    {q : Placement Int} (hq : q ∈ qs) :
    q ∈ partsAfter before qs ∨
      ∃ r, (r ∈ partsAfter before qs ∨ before = some r) ∧ r.sharesUnit q = true := by
  induction qs generalizing before with
  | nil => cases hq
  | cons x rest ih =>
    unfold partsAfter
    split
    · next shares =>
      obtain ⟨b, hb, hbx⟩ := (Option.any_eq_true _ _).mp shares
      rcases List.mem_cons.mp hq with rfl | hq
      · exact .inr ⟨b, .inr hb, hbx⟩
      · rcases @ih (some x) hq with hpart | ⟨r, hpart | ⟨⟨⟩⟩, hrq⟩
        · exact .inl hpart
        · exact .inr ⟨r, .inl hpart, hrq⟩
        · rw [Placement.sharesUnit_iff] at hbx hrq
          refine .inr ⟨b, .inr hb, Placement.sharesUnit_iff.mpr ⟨⟨hbx.1.1, hrq.1.2⟩, ?_⟩⟩
          exact hbx.2.trans hrq.2
    · rcases List.mem_cons.mp hq with rfl | hq
      · exact .inl (.head _)
      · rcases @ih (some x) hq with hpart | ⟨r, hpart | ⟨⟨⟩⟩, hrq⟩
        · exact .inl (.tail _ hpart)
        · exact .inr ⟨r, .inl (.tail _ hpart), hrq⟩
        · exact .inr ⟨x, .inl (.head _), hrq⟩

section Parts

variable {packed : Bool} {cursor start stop stop' : Int} {qs : List (Placement Int)}
  {offsets : List Int}

theorem Tight.assigns (h : Tight packed cursor qs stop) :
    Assigns packed cursor qs (qs.map (·.offset)) stop := by
  induction h with
  | nil cursor => exact .nil cursor
  | cons hoffset _ ih =>
    refine .cons ?_ ?_ ih
    · exact (le_roundUp _ _).trans_eq hoffset.symm
    · exact (dvd_roundUp _ _).trans hoffset.symm.dvd

theorem Tight.le (h : Tight packed cursor qs stop) (h' : Assigns packed start qs offsets stop')
    (hstart : cursor ≤ start) :
    List.Forall₂ (fun q offset => q.offset ≤ offset) qs offsets ∧ stop ≤ stop' := by
  induction h generalizing start offsets with
  | nil cursor =>
    cases h'
    exact ⟨.nil, hstart⟩
  | cons hoffset _ ih =>
    cases h' with
    | cons hbehind haligned hrest =>
      have sooner := roundUp_le haligned (hstart.trans hbehind)
      rw [← hoffset] at sooner
      obtain ⟨later, hstop⟩ := ih hrest (by omega)
      exact ⟨.cons sooner later, hstop⟩

end Parts

namespace Placer

variable {p : MachineProfile Int} {packed : Bool} {m : Member Int} {d : TypeDescriptor Int}
  {s s' : Placer Int} {q : Placement Int} {before : Option (Placement Int)}

theorem size_pos_of_place (h : s.place p packed m d = .ok (q, s')) (hbits : q.bits.isSome) :
    0 < d.size.val := by
  rcases place_eq_ok.mp h with ⟨_, h⟩ | ⟨width, _, fits, _⟩
  · obtain rfl := congrArg Prod.fst h
    cases hbits
  · exact fits.size_pos

structure Last (before : Option (Placement Int)) (s : Placer Int) : Prop where
  field : ∀ u, s.unit = some u →
    ∃ q, before = some q ∧ q.bits.isSome ∧ q.offset = s.unitStart
  bytes : ∀ q, before = some q → q.bits.isSome → q.offset < s.cursor

theorem Last.start : Last none {} := ⟨fun _ hu => (nomatch hu), fun _ hq => (nomatch hq)⟩

theorem Last.place (h : Last before s) (hs : s.place p packed m d = .ok (q, s')) :
    Last (some q) s' ∧
      (if before.any (·.sharesUnit q) then s'.cursor = s.cursor
      else q.offset = roundUp s.cursor (q.alignmentIn packed) ∧
        s'.cursor = q.offset + q.size.val) := by
  have halign : q.alignmentIn packed = alignmentOf packed d := by
    unfold Placement.alignmentIn alignmentOf
    rw [(place_placement hs).1]
  have hsize := place_size hs
  rw [halign, hsize]
  cases place_step hs with
  | alone hbits hoffset hunit hcursor =>
    have part : before.any (·.sharesUnit q) = false := by
      cases before <;> simp [Placement.sharesUnit, hbits]
    rw [part, if_neg Bool.false_ne_true]
    refine ⟨⟨fun u hu => (nomatch hunit.symm.trans hu), ?_⟩, hoffset, hcursor⟩
    rintro _ ⟨⟩ hfield
    rw [hbits] at hfield
    cases hfield
  | opens hbits hoffset hunit _ hstart hcursor =>
    have hbytes := size_pos_of_place hs hbits
    have part : before.any (·.sharesUnit q) = false := by
      cases hbefore : before with
      | none => rfl
      | some r =>
        by_contra hshares
        simp only [Option.any_some, Placement.sharesUnit, Bool.and_eq_true, beq_iff_eq,
          Bool.not_eq_false] at hshares
        have hbehind := h.bytes r hbefore hshares.1.1
        have hround := le_roundUp s.cursor (alignmentOf packed d)
        omega
    rw [part, if_neg Bool.false_ne_true]
    refine ⟨⟨fun _ _ => ⟨q, rfl, hbits, hstart.symm⟩, ?_⟩, hoffset, hcursor⟩
    rintro _ ⟨⟩ _
    omega
  | joins hbits hunit _ hoffset _ _ hstart hcursor =>
    obtain ⟨r, rfl, hfield, hr⟩ := h.field _ hunit
    have shares : r.sharesUnit q = true := by
      simp [Placement.sharesUnit, hbits, hfield, hr, hoffset]
    rw [Option.any_some, if_pos shares]
    refine ⟨⟨fun _ _ => ⟨q, rfl, hbits, hoffset.trans hstart.symm⟩, ?_⟩, hcursor⟩
    rintro _ ⟨⟩ _
    rw [hcursor, hoffset, ← hr]
    exact h.bytes r rfl hfield

end Placer

variable {p : MachineProfile Int} {a : Aggregate Int} {l : Layout Int}
  {typed : List (Member Int × TypeDescriptor Int)}

theorem PartialStruct.tight_foldlM {packed : Bool} {s s' : PartialStruct Int}
    {before : Option (Placement Int)} (h : s.placer.Last before)
    (hs : typed.foldlM (fun (s : PartialStruct Int) x => s.add p packed x.1 x.2) s = .ok s') :
    ∃ qs, s'.placements = qs.reverse ++ s.placements ∧
      Tight packed s.placer.cursor (partsAfter before qs) s'.placer.cursor := by
  induction typed generalizing s before with
  | nil =>
    obtain rfl := Except.ok.inj hs
    exact ⟨[], rfl, .nil _⟩
  | cons x rest ih =>
    rw [List.foldlM_cons, except_bind_eq_ok] at hs
    obtain ⟨s₁, hx, hs⟩ := hs
    obtain ⟨q, placer, hplace, rfl⟩ := add_eq_ok.mp hx
    obtain ⟨hlast, hpart⟩ := h.place hplace
    obtain ⟨qs, hqs, htight⟩ := @ih _ (some q) hlast hs
    refine ⟨q :: qs, by rw [hqs, List.reverse_cons, List.append_assoc]; rfl, ?_⟩
    unfold partsAfter
    split at hpart
    · next shares =>
      rw [if_pos shares, ← hpart]
      exact htight
    · next part =>
      rw [if_neg part]
      exact .cons hpart.1 (hpart.2 ▸ htight)

theorem Layout.tight_ofTypes (ha : a.kind = .struct) (h : ofTypes p a typed = .ok l) :
    ∃ stop, Tight a.packed 0 l.parts stop ∧ l.totalSize = roundUp stop l.totalAlignment := by
  obtain ⟨s, hs, rfl⟩ := ofTypes_struct ha h
  obtain ⟨qs, hqs, htight⟩ := PartialStruct.tight_foldlM Placer.Last.start hs
  refine ⟨s.placer.cursor, ?_, totalSize_finish s⟩
  have hplacements : (s.finish p a).placements = qs := by
    change s.placements.reverse = qs
    rw [hqs, List.append_nil, List.reverse_reverse]
  unfold parts
  rw [hplacements]
  exact htight

theorem layout_least (t : Target Int) (a : Aggregate Int) (l : Layout Int) (ha : a.kind = .struct)
    (h : t.layout a = .ok l) :
    (∀ q ∈ l.placements, q ∈ l.parts ∨ ∃ r ∈ l.parts, r.sharesUnit q = true) ∧
    (∃ stop, Assigns a.packed 0 l.parts (l.parts.map (·.offset)) stop ∧ stop ≤ l.totalSize ∧
      (l.totalAlignment.val : Int) ∣ l.totalSize) ∧
    ∀ offsets stop total, Assigns a.packed 0 l.parts offsets stop → stop ≤ total →
      (l.totalAlignment.val : Int) ∣ total →
      List.Forall₂ (fun q offset => q.offset ≤ offset) l.parts offsets ∧ l.totalSize ≤ total := by
  obtain ⟨typed, _, hl⟩ := Target.layout_typed h
  obtain ⟨last, htight, hsize⟩ := Layout.tight_ofTypes ha hl
  rw [hsize]
  refine ⟨fun q hq => ?_, ⟨last, htight.assigns, le_roundUp _ _, dvd_roundUp _ _⟩, ?_⟩
  · rcases @exists_part none _ _ hq with hpart | ⟨r, hpart | ⟨⟨⟩⟩, hrq⟩
    · exact .inl hpart
    · exact .inr ⟨r, hpart, hrq⟩
  · intro offsets stop total hassigns hstop htotal
    obtain ⟨sooner, hlast⟩ := htight.le hassigns le_rfl
    exact ⟨sooner, roundUp_le htotal (hlast.trans hstop)⟩

theorem layout_least_fieldsAndArray : ∃ l : Layout Int,
    restartingTarget.layout fieldsAndArray = .ok l ∧
    l.parts.map (·.offset) = [0, 4, 8] ∧ Assigns false 0 l.parts [3, 8, 12] 20 ∧
    List.Forall₂ (fun q offset => q.offset ≤ offset) l.parts [3, 8, 12] ∧ l.totalSize ≤ 20 := by
  obtain ⟨l, hl, hoffsets, hassigns, halign⟩ : ∃ l : Layout Int,
      restartingTarget.layout fieldsAndArray = .ok l ∧ l.parts.map (·.offset) = [0, 4, 8] ∧
      Assigns false 0 l.parts [3, 8, 12] 20 ∧ l.totalAlignment.val = 4 := by
    refine ⟨_, rfl, rfl, ?_, rfl⟩
    refine .cons (by decide) (by decide) (.cons (by decide) (by decide) ?_)
    exact .cons (by decide) (by decide) (.nil 20)
  have least := (layout_least restartingTarget fieldsAndArray l rfl hl).2.2
  obtain ⟨sooner, smaller⟩ := least _ 20 20 hassigns le_rfl (by rw [halign]; decide)
  exact ⟨l, hl, hoffsets, hassigns, sooner, smaller⟩

end AggregateLayout
