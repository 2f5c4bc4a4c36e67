import Mathlib
import AggregateLayout.Proofs.References

namespace AggregateLayout.DebugInfo

open Filter (atTop)

/-- The aggregate is that of the entry in the description, be it inside another one. -/
inductive Described (units : Units) (d : Description) : Entry → Aggregate Quantity → Prop
  | named {e : Entry} {a : Aggregate Quantity} (ha : a ∈ d.definitions ++ d.aggregates)
    (he : e ∈ units.entries) (h : e.Defines a.name) (hcomes : Comes units e a) :
    Described units d e a
  | inside {e c x : Entry} {a b : Aggregate Quantity} (h : Described units d e a)
    (hc : c ∈ e.children) (hleads : PartLeads units c x) (hx : x.properName? = none)
    (hcomes : Comes units x b) : Described units d x b

variable {units : Units} {names : Option (List String)} {s : Findings} {d : Description}
  {e c t x : Entry} {a b : Aggregate Quantity} {steps : Nat}

section Parts

variable {inner : Entry → Aggregate Quantity} {m : Member Quantity} {children : List Entry}

theorem mem_readParts_of_mem {members : List (Member Quantity)} (hm : m ∈ members) :
    m ∈ readParts units inner members children := by
  induction children generalizing members with
  | nil => exact hm
  | cons e rest ih => exact ih (List.mem_append_left _ hm)

theorem mem_readParts (hc : c ∈ children) (members : List (Member Quantity)) :
    ∃ index, ∀ m, readPart units inner index c = some m →
      m ∈ readParts units inner members children := by
  induction children generalizing members with
  | nil => cases hc
  | cons e rest ih =>
    rcases List.mem_cons.mp hc with rfl | hc
    · refine ⟨members.length, fun m hm => ?_⟩
      change m ∈ readParts units inner (members ++ (readPart units inner members.length c).toList) _
      refine mem_readParts_of_mem (List.mem_append_right _ ?_)
      rw [hm]
      exact List.mem_singleton_self m
    · exact ih hc _

end Parts

theorem Comes.member {type : TypeRef Quantity} {dims : List Quantity} (h : Comes units e a)
    (hc : c ∈ e.children) (hrole : c.role = .member) (hstatic : c.isStatic = false)
    (ht : units.type? c = some t)
    (hread : ∀ᶠ levels in atTop,
      readType units (readAggregate units levels) (maxChain + 1) t = some (type, dims)) :
    ∃ m ∈ a.members, (∀ name, c.properName? = some name → m.name = name) ∧ m.type = type ∧
      m.dims = dims := by
  have hnext := (Filter.tendsto_add_atTop_nat 1).eventually h
  obtain ⟨levels, hlevels, hread⟩ := (hnext.and hread).exists
  obtain ⟨index, hindex⟩ : ∃ index, ∀ m,
      readPart units (readAggregate units levels) index c = some m →
        m ∈ readParts units (readAggregate units levels) [] e.children := mem_readParts hc []
  have hpart : readPart units (readAggregate units levels) index c = some
      { name := c.properName?.getD s!"__anon{index}", type, dims,
        bits := c.integer? "bit_size" } := by
    simp only [readPart, hrole, hstatic, readMember, ht, hread]
    rfl
  have hmem := hindex _ hpart
  change _ ∈ (readAggregate units (levels + 1) e).members at hmem
  rw [hlevels] at hmem
  refine ⟨_, hmem, fun name hname => ?_, rfl, rfl⟩
  dsimp only
  rw [hname]
  rfl

theorem Leads.readType_eq (h : Leads units steps t x) (hx : x.properName? = none) :
    ∃ dims, ∀ inner, readType units inner steps t = some (.inline (inner x), dims) := by
  induction h with
  | here hkind =>
    obtain ⟨kind, hrole⟩ := Entry.role_of_aggregate hkind
    exact ⟨[], fun inner => by simp only [readType, hrole, hx]⟩
  | @on steps e t x hpasses ht _ ih =>
    obtain ⟨dims, hread⟩ := ih hx
    unfold Entry.passes at hpasses
    split at hpasses
    · next hrole => exact ⟨dims, fun inner => by simp only [readType, hrole, ht, hread]⟩
    · next hrole =>
      refine ⟨e.dimensions ++ dims, fun inner => ?_⟩
      simp only [readType, hrole, ht, hread, Option.map_some]
    · next hrole =>
      obtain ⟨name, hname⟩ := Option.isSome_iff_exists.mp hpasses
      exact ⟨dims, fun inner => by simp only [readType, hrole, ht, hname, hread, renamed]⟩
    · cases hpasses

namespace Described

theorem mem (h : Described units d e a) : e ∈ units.entries := by
  cases h with
  | named _ he _ _ => exact he
  | inside _ _ hleads _ _ => exact hleads.mem

theorem comes (h : Described units d e a) : Comes units e a := by
  cases h with
  | named _ _ _ hcomes => exact hcomes
  | inside _ _ _ _ hcomes => exact hcomes

theorem within (h : Described units d e a) (hload : Loaded units names d s) :
    Loaded.Within units s a := by
  induction h with
  | named ha _ _ _ => exact hload.within ha
  | @inside e c x a b h hc hleads hx hcomes ih =>
    cases hleads with
    | base _ _ _ hname =>
      rw [hx] at hname
      cases hname
    | @member t hrole hstatic ht hleads =>
      obtain ⟨dims, hreads⟩ := hleads.readType_eq hx
      have hread : ∀ᶠ levels in atTop,
          readType units (readAggregate units levels) (maxChain + 1) t =
            some (.inline b, dims) := by
        filter_upwards [hcomes] with levels hlevels
        rw [hreads, hlevels]
      obtain ⟨m, hm, _, htype, _⟩ := h.comes.member hc hrole hstatic ht hread
      intro m' hm' name hname
      refine ih m hm name ?_
      rw [htype]
      exact .inline hm' hname

end Described

end AggregateLayout.DebugInfo
