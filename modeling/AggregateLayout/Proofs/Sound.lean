import Mathlib
import AggregateLayout.Proofs.Lays
import AggregateLayout.Proofs.Placing

namespace AggregateLayout

open Relation (ReflTransGen)

theorem Catalog.contains_iff {μ : Type} [Measure μ] {c : Catalog μ} {name : String} :
    c.contains name = true ↔ (∃ b, c.nested? name = some b) ∨ ∃ d, c.describe name = .ok d := by
  unfold contains nested? describe isPointer aggregate? Table.contains
  dsimp only
  cases TypeName.isPointer (c.resolve name) with
  | true => simp
  | false => cases c.types.find? (c.resolve name) <;> simp [Option.isSome_iff_exists]

namespace Target

structure Sound (t : Target Int) (a : Aggregate Int) : Prop where
  named : "" ∉ a.memberNames
  distinct : a.memberNames.Nodup
  resolves : ∀ m ∈ a.members, ∀ name, m.type = .named name → t.catalog.contains name = true
  lengths : ∀ m ∈ a.members, ∀ n ∈ m.dims, 0 ≤ n
  bitfields : ∀ m ∈ a.members, ∀ width, m.bits = some width →
    ∃ d, t.flat? m.type = some d ∧ m.FitsBits width d

variable {t : Target Int} {a b : Aggregate Int} {m : Member Int} {d : TypeDescriptor Int}
  {typed : List (Member Int × TypeDescriptor Int)} {l : Layout Int}

theorem stands_iff {r : TypeRef Int} :
    (∀ name, r = .named name → t.catalog.contains name = true) ↔
      (∃ f, t.flat? r = some f) ∨ ∃ b, t.nested? r = some b := by
  cases r with
  | descriptor d => simp [flat?]
  | inline a => simp [flat?, nested?]
  | named name =>
    simp only [TypeRef.named.injEq, forall_eq', Catalog.contains_iff, flat?, nested?]
    cases t.catalog.nested? name with
    | some b => simp
    | none => cases t.catalog.describe name <;> simp [Except.toOption]

theorem Types.stands (h : t.Types m d) :
    ∀ name, m.type = .named name → t.catalog.contains name = true := by
  rw [stands_iff]
  cases h with
  | flat hf => exact .inl ⟨_, hf⟩
  | nested hb => exact .inr ⟨_, hb⟩

theorem Types.lengths (h : t.Types m d) : ∀ n ∈ m.dims, 0 ≤ n := by
  obtain ⟨d₀, hd⟩ : ∃ d₀, withDims m d₀ = .ok d := by
    cases h with
    | flat _ _ hd => exact ⟨_, hd⟩
    | nested _ _ _ _ _ _ hd => exact ⟨_, hd⟩
  rcases withDims_cases m d₀ with ⟨h, _⟩ | ⟨_, e, h, _⟩
  · exact h
  · exact (nomatch hd.symm.trans h)

theorem Types.bitfield {width : Int} (h : t.Types m d) (fits : m.FitsBits width d) :
    ∃ f, t.flat? m.type = some f ∧ m.FitsBits width f := by
  cases h with
  | @flat _ f d₀ _ hf h₀ hd =>
    obtain rfl := Except.ok.inj ((withDims_nil fits.single).symm.trans hd)
    refine ⟨f, hf, fits.single, ?_, ?_, fits.positive, ?_⟩
    · rw [← f.kind_plain, h₀, d₀.kind_plain, fits.scalar]
    · rw [← f.isInteger_plain, h₀, d₀.isInteger_plain, fits.integer]
    · rw [← f.size_plain, h₀, d₀.size_plain]
      exact fits.within
  | @nested _ _ _ l d₀ _ _ _ _ _ _ h₀ hd =>
    obtain rfl := Except.ok.inj ((withDims_nil fits.single).symm.trans hd)
    have hkind : d₀.kind = .aggregate := by
      rw [← d₀.kind_plain, ← h₀]
      rfl
    exact (nomatch hkind.symm.trans fits.scalar)

theorem Lays.sound (h : t.Lays a l) : t.Sound a := by
  obtain ⟨hnames, typed, hm, htyped, hl⟩ := h
  obtain ⟨named, distinct⟩ := checkNames_nil_eq_ok.mp hnames
  have fits := Layout.exists_ofTypes_iff.mp ⟨l, hl⟩
  have behind (m : Member Int) (hmem : m ∈ a.members) : ∃ d, t.Types m d ∧ m.Fits d := by
    rw [← hm] at hmem
    obtain ⟨x, hx, rfl⟩ := List.mem_map.mp hmem
    exact ⟨x.2, htyped x hx, fits x hx⟩
  refine ⟨named, distinct, fun m hmem => ?_, fun m hmem => ?_, fun m hmem width hw => ?_⟩ <;>
    obtain ⟨d, hd, fits⟩ := behind m hmem
  · exact hd.stands
  · exact hd.lengths
  · exact hd.bitfield (fits width hw)

theorem Lays.nests (h : t.Lays a l) (hb : t.Nests a b) : ∃ l', t.Lays b l' := by
  obtain ⟨_, typed, hm, htyped, _⟩ := h
  obtain ⟨m, hmem, hb⟩ := hb
  rw [← hm] at hmem
  obtain ⟨x, hx, rfl⟩ := List.mem_map.mp hmem
  cases htyped x hx with
  | flat hf => exact absurd hb (nested?_ne_some_of_flat? hf)
  | nested hb' hnames hm' htyped' hl =>
    obtain rfl := Option.some.inj (hb'.symm.trans hb)
    exact ⟨_, hnames, _, hm', htyped', hl⟩

theorem Lays.sound_below (h : t.Lays a l) (hb : ReflTransGen t.Nests a b) : t.Sound b := by
  have below : ∃ l', t.Lays b l' := by
    induction hb with
    | refl => exact ⟨l, h⟩
    | tail _ hc ih =>
      obtain ⟨_, hl⟩ := ih
      exact hl.nests hc
  obtain ⟨_, hl⟩ := below
  exact hl.sound

end Target

end AggregateLayout
