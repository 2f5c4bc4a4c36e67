import Mathlib
import AggregateLayout.Profile.Builtin
import AggregateLayout.Proofs.Remembering
import AggregateLayout.Proofs.Tiling

namespace AggregateLayout

namespace TypeDescriptor

/-- The size is a multiple of the alignment. -/
def Filled (d : TypeDescriptor Int) : Prop := (d.alignment.val : Int) ∣ d.size.val

variable {d e : TypeDescriptor Int}

theorem filled_plain : d.plain.Filled ↔ d.Filled := by
  unfold Filled
  rw [alignment_plain, size_plain]
  rfl

theorem val_sizeOf (n : Int) : (Size.of n).val = max n 0 := by
  unfold Size.of
  split
  · next h =>
    change (0 : Int) = max n 0
    change n < 0 at h
    omega
  · next h =>
    change n = max n 0
    change ¬ n < 0 at h
    omega

theorem Filled.array (h : d.Filled) (count : Size Int) : (TypeDescriptor.array d count).Filled := by
  have product := h.mul_right count.val
  change (d.alignment.val : Int) ∣ (Size.of (d.size.val * count.val)).val
  rw [val_sizeOf]
  rcases max_choice (d.size.val * count.val) 0 with hmax | hmax <;> rw [hmax]
  · exact product
  · exact dvd_zero _

theorem filled_pointer (target : String) (size : PowerOfTwo) :
    (pointer target size : TypeDescriptor Int).Filled := by
  change (size.val : Int) ∣ (Size.of size.measure).val
  rw [val_sizeOf, size.measure_int, max_eq_left (Int.natCast_nonneg _)]

theorem Filled.withDims {m : Member Int} (h : d.Filled) (hd : withDims m d = .ok e) : e.Filled :=
  withDims_induction (fun _ count hf => hf.array count) h hd

end TypeDescriptor

theorem Layout.filled_descriptor {p : MachineProfile Int} {a : Aggregate Int} {l : Layout Int}
    {typed : List (Member Int × TypeDescriptor Int)} (h : ofTypes p a typed = .ok l) :
    l.descriptor.Filled := by
  have aligned : (l.totalAlignment.val : Int) ∣ l.totalSize := by
    have cursor (s : Placer Int) (alignment : PowerOfTwo) :
        (alignment.val : Int) ∣ (s.align alignment).cursor := by
      rw [s.align_cursor]
      exact dvd_roundUp s.cursor alignment
    cases ha : a.kind with
    | struct =>
      obtain ⟨q, _, rfl⟩ := ofTypes_struct ha h
      exact cursor _ _
    | union =>
      obtain ⟨placements, _, rfl⟩ := ofTypes_union ha h
      exact cursor _ _
  change (l.totalAlignment.val : Int) ∣ (Size.of l.totalSize).val
  rw [TypeDescriptor.val_sizeOf]
  rcases max_choice l.totalSize 0 with hmax | hmax <;> rw [hmax]
  · exact aligned
  · exact dvd_zero _

theorem primitives_filled :
    ∀ p ∈ MachineProfile.builtin, ∀ d ∈ Catalog.primitives p, d.Filled := by
  unfold TypeDescriptor.Filled
  decide

namespace Catalog

variable {p : MachineProfile Int} {name : String} {d : TypeDescriptor Int}

theorem find?_foldl_register {ds : List (TypeDescriptor Int)} {c : Catalog Int}
    (h : (ds.foldl register c).types.find? name = some d) :
    d ∈ ds ∨ c.types.find? name = some d := by
  induction ds generalizing c with
  | nil => exact .inr h
  | cons e rest ih =>
    rcases ih h with hrest | hc
    · exact .inl (.tail _ hrest)
    · rw [register, Table.find?_insert] at hc
      split at hc
      · obtain rfl := Option.some.inj hc
        exact .inl (.head _)
      · exact .inr hc

theorem types_foldl_registerAlias (aliases : List (String × String)) (c : Catalog Int) :
    (aliases.foldl (fun c (name, target) => c.registerAlias name target) c).types = c.types := by
  induction aliases generalizing c with
  | nil => rfl
  | cons entry rest ih => exact ih _

theorem mem_primitives (h : (ofProfile p).types.find? name = some d) : d ∈ primitives p := by
  unfold ofProfile at h
  dsimp only at h
  rw [types_foldl_registerAlias] at h
  rcases find?_foldl_register h with hd | hd
  · exact hd
  · cases hd

end Catalog

namespace Target

variable {t : Target Int} {m : Member Int} {d : TypeDescriptor Int}

theorem Types.filled (h : t.Types m d) (hf : ∀ f, t.flat? m.type = some f → f.Filled) :
    d.Filled := by
  cases h with
  | flat hflat h₀ hd =>
    have := h₀ ▸ TypeDescriptor.filled_plain.mpr (hf _ hflat)
    exact (TypeDescriptor.filled_plain.mp this).withDims hd
  | nested _ _ _ _ hl h₀ hd =>
    have := h₀ ▸ TypeDescriptor.filled_plain.mpr (Layout.filled_descriptor hl)
    exact (TypeDescriptor.filled_plain.mp this).withDims hd

theorem filled_flat? {p : MachineProfile Int} (hp : p ∈ MachineProfile.builtin)
    (ht : t.catalog.types = (Catalog.ofProfile p).types) {name : String}
    (hd : t.flat? (.named name) = some d) : d.Filled := by
  unfold flat? at hd
  dsimp only at hd
  split at hd
  · cases hd
  · unfold Catalog.describe at hd
    dsimp only at hd
    split at hd
    · obtain rfl := Option.some.inj hd
      exact TypeDescriptor.filled_pointer _ _
    · rw [ht] at hd
      split at hd
      · next f hf =>
        obtain rfl := Option.some.inj hd
        exact primitives_filled p hp f (Catalog.mem_primitives hf)
      · cases hd

theorem memberType_filled {p : MachineProfile Int} (hp : p ∈ MachineProfile.builtin)
    (ht : t.catalog.types = (Catalog.ofProfile p).types)
    (hm : ∀ f, m.type = .descriptor f → f.Filled) (h : t.memberType m = .ok d) : d.Filled := by
  apply (types_of_memberType h).filled
  intro f hf
  cases htype : m.type with
  | named name => exact filled_flat? hp ht (htype ▸ hf)
  | descriptor e =>
    rw [htype] at hf
    exact Option.some.inj hf ▸ hm e htype
  | inline b =>
    rw [htype] at hf
    cases hf

end Target

end AggregateLayout
