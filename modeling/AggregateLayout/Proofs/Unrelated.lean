import Mathlib
import AggregateLayout.Proofs.Agreeing
import AggregateLayout.Proofs.Lookup

namespace AggregateLayout

open Relation (ReflTransGen)

variable {μ : Type} [Measure μ]

namespace Catalog

inductive Registration (μ : Type) [Measure μ] where
  | type (d : TypeDescriptor μ)
  | synonym (name target : String)
  | aggregate (a : Aggregate μ)

def Registration.key : Registration μ → String
  | .type d => TypeName.normalize d.name
  | .synonym name _ => TypeName.normalize name
  | .aggregate a => TypeName.normalize a.name

def enter (c : Catalog μ) : Registration μ → Catalog μ
  | .type d => c.register d
  | .synonym name target => c.registerAlias name target
  | .aggregate a => (c.define? a).getD c

structure SameAt (c c' : Catalog μ) (k : String) : Prop where
  types : c.types.find? k = c'.types.find? k
  aliases : c.aliases.find? k = c'.aliases.find? k
  aggregates : c.aggregates.find? k = c'.aggregates.find? k

variable {c c' : Catalog μ} {x : Registration μ} {k name : String}

theorem profile_enter (c : Catalog μ) (x : Registration μ) : (c.enter x).profile = c.profile := by
  cases x with
  | type d => rfl
  | synonym name target => rfl
  | aggregate a =>
    change ((c.define? a).getD c).profile = c.profile
    unfold define?
    split <;> rfl

theorem sameAt_enter (c : Catalog μ) (hk : x.key ≠ k) : c.SameAt (c.enter x) k := by
  have other {α : Type} (t : Table α) (value : α) : t.find? k = (t.insert x.key value).find? k :=
    ((Table.find?_insert t x.key k value).trans (if_neg hk)).symm
  cases x with
  | type d => exact ⟨other _ _, rfl, rfl⟩
  | synonym name target => exact ⟨rfl, other _ _, rfl⟩
  | aggregate a =>
    change c.SameAt ((c.define? a).getD c) k
    unfold define?
    split
    · exact ⟨rfl, rfl, rfl⟩
    · exact ⟨rfl, rfl, other _ _⟩

theorem profile_foldl_enter (xs : List (Registration μ)) (c : Catalog μ) :
    (xs.foldl enter c).profile = c.profile := by
  induction xs generalizing c with
  | nil => rfl
  | cons x rest ih => exact (ih (c.enter x)).trans (profile_enter c x)

theorem sameAt_foldl_enter {xs : List (Registration μ)} (hk : ∀ x ∈ xs, x.key ≠ k) (c : Catalog μ) :
    c.SameAt (xs.foldl enter c) k := by
  induction xs generalizing c with
  | nil => exact ⟨rfl, rfl, rfl⟩
  | cons x rest ih =>
    obtain ⟨hx, hrest⟩ := List.forall_mem_cons.mp hk
    have hstep := sameAt_enter c hx
    have hrun := ih hrest (c.enter x)
    exact ⟨hstep.types.trans hrun.types, hstep.aliases.trans hrun.aliases,
      hstep.aggregates.trans hrun.aggregates⟩

def LeadsTo (c : Catalog μ) (k target : String) : Prop :=
  ReflTransGen (fun k target => c.aliases.find? k = some target) k target

theorem leadsTo_resolve (c : Catalog μ) (name : String) :
    c.LeadsTo (TypeName.normalize name) (c.resolve name) :=
  follow_induction (fun _ _ hk hfind => hk.tail hfind) _ _ .refl

theorem found_eq (hprofile : c.profile = c'.profile)
    (hsame : ∀ k, c.LeadsTo (TypeName.normalize name) k → c.SameAt c' k) :
    c.nested? name = c'.nested? name ∧ c.describe name = c'.describe name := by
  have hresolve : c.resolve name = c'.resolve name := by
    refine resolve_eq (C := c.LeadsTo (TypeName.normalize name)) (fun k hk => ?_)
      (fun k target hk hnext => hk.tail (next?_eq_some.mp hnext).1) .refl
    unfold next?
    rw [(hsame k hk).aliases]
  have hfound := hsame _ (c.leadsTo_resolve name)
  unfold nested? isPointer aggregate? describe
  dsimp only
  rw [← hresolve, hfound.types, hfound.aggregates, hprofile]
  exact ⟨rfl, rfl⟩

end Catalog

open Catalog (Registration enter)

namespace Target

/-- The name is met when aliases are followed from the types of members, of the aggregate itself or
of what it nests. -/
def Meets (t : Target μ) (a : Aggregate μ) (k : String) : Prop :=
  ∃ b, ReflTransGen t.Nests a b ∧ ∃ m ∈ b.members, ∃ name, m.type = .named name ∧
    t.catalog.LeadsTo (TypeName.normalize name) k

theorem agreeOn_enter {t : Target μ} {a : Aggregate μ} {xs : List (Registration μ)}
    (h : ∀ x ∈ xs, ¬ t.Meets a x.key) :
    AgreeOn (ReflTransGen t.Nests a) t { t with catalog := xs.foldl enter t.catalog } := by
  have hprofile := (Catalog.profile_foldl_enter xs t.catalog).symm
  have hfound (b : Aggregate μ) (hb : ReflTransGen t.Nests a b) (m : Member μ)
      (hm : m ∈ b.members) (name : String) (htype : m.type = .named name) := by
    refine Catalog.found_eq hprofile
      fun k (hk : t.catalog.LeadsTo (TypeName.normalize name) k) => ?_
    refine Catalog.sameAt_foldl_enter (fun x hx hkey => ?_) t.catalog
    exact h x hx (hkey ▸ ⟨b, hb, m, hm, name, htype, hk⟩)
  exact {
    profile := hprofile
    maxDepth := rfl
    nested := fun b hb m hm name htype => (hfound b hb m hm name htype).1
    described := fun b hb m hm name htype => (hfound b hb m hm name htype).2
    closed := fun b hb m hm b' hb' => hb.tail ⟨m, hm, hb'⟩ }

end Target

theorem layout_ignores_unrelated (t : Target μ) (a : Aggregate μ) (xs : List (Registration μ))
    (h : ∀ x ∈ xs, ¬ t.Meets a x.key) :
    ({ t with catalog := xs.foldl enter t.catalog } : Target μ).layout a = t.layout a :=
  ((Target.agreeOn_enter h).layout_eq .refl).symm

def cargo : Aggregate Int where
  name := "cargo"
  members := [{ name := "weight", type := .named "int" }]

def carrier : Aggregate Int where
  name := "carrier"
  members := [{ name := "load", type := .named "freight", dims := [2] }]

def shipping : Target Int where
  catalog :=
    { profile := .lp64, types := [("int", .basic "int" (.of 4) .four .scalar true)],
      aliases := [("freight", "cargo")], aggregates := [("cargo", cargo)] }

theorem nests_carrier {b : Aggregate Int} (h : shipping.Nests carrier b) : b = cargo := by
  obtain ⟨m, hm, hb⟩ := h
  obtain rfl := List.mem_singleton.mp hm
  exact (Option.some.inj hb).symm

theorem not_nests_cargo (b : Aggregate Int) : ¬ shipping.Nests cargo b := by
  rintro ⟨m, hm, hb⟩
  obtain rfl := List.mem_singleton.mp hm
  cases hb

theorem below_carrier {b : Aggregate Int} (h : ReflTransGen shipping.Nests carrier b) :
    b = carrier ∨ b = cargo := by
  induction h with
  | refl => exact .inl rfl
  | tail _ hc ih =>
    rcases ih with rfl | rfl
    · exact .inr (nests_carrier hc)
    · exact absurd hc (not_nests_cargo _)

theorem leadsTo_shipping {k target : String} (h : shipping.catalog.LeadsTo k target) :
    k = target ∨ k = "freight" ∧ target = "cargo" := by
  induction h with
  | refl => exact .inl rfl
  | @tail target next _ hfind ih =>
    have hstep : target = "freight" ∧ next = "cargo" := by
      have hmem := Table.mem_of_find? hfind
      simpa [shipping] using hmem
    obtain ⟨rfl, rfl⟩ := hstep
    rcases ih with rfl | ⟨_, hother⟩
    · exact .inr ⟨rfl, rfl⟩
    · exact absurd hother (by decide)

theorem meets_carrier {k : String} (h : shipping.Meets carrier k) :
    k ∈ ["freight", "cargo", "int"] := by
  obtain ⟨b, hb, m, hm, name, htype, hk⟩ := h
  rcases below_carrier hb with rfl | rfl <;> obtain rfl := List.mem_singleton.mp hm <;>
    obtain rfl := TypeRef.named.inj htype <;> rcases leadsTo_shipping hk with rfl | ⟨_, rfl⟩ <;>
    decide

def unmet : List (Registration Int) :=
  [.synonym "carrier" "int", .type (.basic "char" (.of 1) .one .scalar true),
    .aggregate { name := "struct crate" }, .aggregate { name := "" }]

theorem layout_ignores_unrelated_carrier :
    (∀ x ∈ unmet, ¬ shipping.Meets carrier x.key) ∧
      ({ shipping with catalog := unmet.foldl enter shipping.catalog } : Target Int).layout
        carrier = shipping.layout carrier := by
  have hkeys : ∀ x ∈ unmet, ¬ shipping.Meets carrier x.key := by
    intro x hx hmeets
    have hkey := meets_carrier hmeets
    simp only [unmet, List.mem_cons, List.not_mem_nil, or_false] at hx
    rcases hx with rfl | rfl | rfl | rfl <;> exact absurd hkey (by decide)
  exact ⟨hkeys, layout_ignores_unrelated shipping carrier _ hkeys⟩

end AggregateLayout
