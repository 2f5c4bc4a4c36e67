import Mathlib
import AggregateLayout.Proofs.Denoting
import AggregateLayout.Proofs.Resolving

namespace AggregateLayout

namespace Catalog

variable {μ : Type} [Measure μ]

theorem resolve_of_normalize {c : Catalog μ} {name other : String}
    (h : TypeName.normalize other = c.resolve name) : c.resolve other = c.resolve name := by
  have hends := follow_cases (k := TypeName.normalize name) (fun _ => List.not_mem_nil)
    (.start c.aliases)
  have hself : c.StandsForItself (c.resolve name) := hends.imp And.left fun ⟨_, _, hon, _⟩ => hon
  exact (resolve_eq_self_iff.mpr (h ▸ hself)).trans h

end Catalog

namespace Description

variable {c c' : Catalog Quantity} {f : TypeDescriptor Quantity} {k : String}

theorem types_registerFallback_of_ne (h : TypeName.normalize f.name ≠ k) :
    (registerFallback c f).types.find? k = c.types.find? k := by
  unfold registerFallback
  split
  · rfl
  · exact (Table.find?_insert _ _ _ _).trans (if_neg h)

theorem types_registerFallback_self (haggregates : c.aggregates = [])
    (hpointer : TypeName.isPointer k = false) (hname : TypeName.normalize f.name = k)
    (hself : c.resolve f.name = k) :
    (registerFallback c f).types.find? k = (c.types.find? k <|> some f) := by
  have hcontains : c.contains f.name = (c.types.find? k).isSome := by
    unfold Catalog.contains Table.contains
    dsimp only
    rw [hself, haggregates, hpointer]
    simp [Table.find?]
  unfold registerFallback
  rw [hcontains]
  cases hfind : c.types.find? k with
  | some d => exact hfind
  | none => exact (Table.find?_insert _ _ _ _).trans (if_pos hname)

theorem types_foldl_registerFallback (ds : List (TypeDescriptor Quantity))
    (haggregates : c.aggregates = []) (hpointer : TypeName.isPointer k = false)
    (hself : ∀ f ∈ ds, TypeName.normalize f.name = k → c.resolve f.name = k) :
    (ds.foldl registerFallback c).types.find? k =
      (c.types.find? k <|> ds.find? (TypeName.normalize ·.name == k)) := by
  induction ds generalizing c with
  | nil => simp
  | cons f rest ih =>
    obtain ⟨hf, hrest⟩ := List.forall_mem_cons.mp hself
    have hnext := ih ((registerFallback_keeps c f).2.2.trans haggregates) fun g hg hname =>
      (resolve_registerFallback g.name).trans (hrest g hg hname)
    rw [List.foldl_cons, hnext, List.find?_cons]
    by_cases hname : TypeName.normalize f.name = k
    · rw [types_registerFallback_self haggregates hpointer hname (hf hname), beq_iff_eq.mpr hname]
      cases c.types.find? k <;> rfl
    · rw [types_registerFallback_of_ne hname, beq_false_of_ne hname]

theorem aggregates_defineAll_congr (as : List (Aggregate Quantity))
    (h : c.aggregates = c'.aggregates) :
    (defineAll as c).aggregates = (defineAll as c').aggregates := by
  induction as generalizing c c' with
  | nil => exact h
  | cons a rest ih =>
    refine ih ?_
    dsimp only
    unfold Catalog.define?
    split
    · exact h
    · exact congrArg (Table.insert _ a) h

variable (d : Description) (p : MachineProfile Quantity)

def withoutFallbacks : Description := { d with fallbackTypes := [] }

theorem resolve_withoutFallbacks (name : String) :
    (d.withoutFallbacks.catalog p).resolve name = (d.catalog p).resolve name := by
  rw [resolve_catalog, resolve_catalog]
  rfl

theorem aggregates_withoutFallbacks :
    (d.withoutFallbacks.catalog p).aggregates = (d.catalog p).aggregates := by
  rw [catalog_eq d, catalog_eq d.withoutFallbacks]
  exact aggregates_defineAll_congr _ (foldl_registerFallback_keeps _ _).2.2.symm

theorem denotes?_catalog (name : String) :
    (d.catalog p).denotes? name =
      ((d.withoutFallbacks.catalog p).denotes? name <|>
        (d.fallbackTypes.find? (TypeName.normalize ·.name == (d.catalog p).resolve name)).map
          .type) := by
  have hbare : (d.withoutFallbacks.catalog p).types = (d.named p).types := types_catalog _ _
  rw [Catalog.denotes?_eq, Catalog.denotes?_eq, resolve_withoutFallbacks,
    aggregates_withoutFallbacks, profile_catalog, profile_catalog, hbare]
  split
  · rfl
  · next hpointer =>
    have htypes := types_foldl_registerFallback d.fallbackTypes (aggregates_named (d := d) (p := p))
      (Bool.eq_false_iff.mpr hpointer) fun f _ hname => by
        rw [resolve_catalog] at hname ⊢
        exact Catalog.resolve_of_normalize hname
    rw [types_catalog, htypes]
    cases (d.catalog p).aggregates.find? ((d.catalog p).resolve name) with
    | some a => rfl
    | none => cases (d.named p).types.find? ((d.catalog p).resolve name) <;> rfl

end Description

open Catalog (Denoted)

theorem fallbacks_yield (d : Description) (p : MachineProfile Quantity) (name : String) :
    (∀ x, (d.withoutFallbacks.catalog p).denotes? name = some x →
      (d.catalog p).denotes? name = some x) ∧
    ∀ x, (d.catalog p).denotes? name = some x →
      (d.withoutFallbacks.catalog p).denotes? name = some x ∨
        (d.withoutFallbacks.catalog p).denotes? name = none ∧
        ∃ f, x = .type f ∧ TypeName.normalize f.name = (d.catalog p).resolve name ∧
          d.fallbackTypes.find? (TypeName.normalize ·.name == TypeName.normalize f.name) =
            some f := by
  rw [Description.denotes?_catalog d]
  cases (d.withoutFallbacks.catalog p).denotes? name with
  | some y => exact ⟨fun x h => h, fun x h => .inl h⟩
  | none =>
    refine ⟨fun x h => (nomatch h), fun x h => .inr ⟨rfl, ?_⟩⟩
    rw [Option.orElse_eq_orElse, Option.orElse_none] at h
    obtain ⟨f, hf, rfl⟩ := Option.map_eq_some_iff.mp h
    have hname : TypeName.normalize f.name = (d.catalog p).resolve name := by
      simpa using List.find?_some hf
    exact ⟨f, rfl, hname, hname ▸ hf⟩

def fourBytes : TypeDescriptor Quantity := .basic "pace" (.of (.whole 4)) .four .scalar true

def eightBytes : TypeDescriptor Quantity := .basic "const pace" (.of (.whole 8)) .eight .scalar true

def twoBytes : TypeDescriptor Quantity := .basic "int" (.of (.whole 2)) .two .scalar true

def paces : Description where
  aliases := [("speed", "pace"), ("pace", "tempo"), ("tempo", "pace")]
  fallbackTypes := [fourBytes, eightBytes, twoBytes]

theorem fallbacks_yield_paces :
    (∃ x, (paces.withoutFallbacks.catalog .lp64).denotes? "int" = some x ∧
      (paces.catalog .lp64).denotes? "int" = some x) ∧
    (paces.catalog .lp64).denotes? "speed" = some (.type fourBytes) ∧
    paces.fallbackTypes.find? (TypeName.normalize ·.name == "pace") = some fourBytes := by
  obtain ⟨hint, hmissing, hresolve⟩ :
      ((paces.withoutFallbacks.catalog .lp64).denotes? "int").isSome ∧
        ((paces.withoutFallbacks.catalog .lp64).denotes? "speed").isNone ∧
        (paces.withoutFallbacks.catalog .lp64).resolve "speed" = "pace" := by decide +kernel
  rw [Description.resolve_withoutFallbacks] at hresolve
  obtain ⟨x, hx⟩ := Option.isSome_iff_exists.mp hint
  have hfour : paces.fallbackTypes.find? (TypeName.normalize ·.name == "pace") =
      some fourBytes := rfl
  have hspeed : (paces.catalog .lp64).denotes? "speed" = some (.type fourBytes) := by
    rw [Description.denotes?_catalog, Option.isNone_iff_eq_none.mp hmissing, hresolve, hfour]
    rfl
  refine ⟨⟨x, hx, (fallbacks_yield paces .lp64 "int").1 x hx⟩, hspeed, ?_⟩
  rcases (fallbacks_yield paces .lp64 "speed").2 _ hspeed with hbare | ⟨_, f, hf, hname, hfind⟩
  · rw [hbare] at hmissing
    cases hmissing
  · obtain rfl := Denoted.type.inj hf
    rwa [hname, hresolve] at hfind

end AggregateLayout
