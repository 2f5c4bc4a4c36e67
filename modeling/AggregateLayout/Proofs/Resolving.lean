import Mathlib
import AggregateLayout.Proofs.NormalNames
import AggregateLayout.Proofs.Registration

namespace AggregateLayout

open Relation (ReflTransGen TransGen)

namespace Catalog

section Chains

/-- Aliases are followed from a name, with so many steps, to one that is no alias or was met
before. -/
inductive Follows (aliases : Table String) : List String → String → Nat → String → Prop
  | stops {seen : List String} {k : String} (h : aliases.find? k = none ∨ k ∈ seen) :
    Follows aliases seen k 0 k
  | leads {seen : List String} {k target last : String} {steps : Nat} (hk : k ∉ seen)
    (h : aliases.find? k = some target) (hrest : Follows aliases (k :: seen) target steps last) :
    Follows aliases seen k (steps + 1) last

def OnLoop (aliases : Table String) (k : String) : Prop :=
  TransGen (fun k target => aliases.find? k = some target) k k

variable {aliases : Table String} {k target : String} {seen : List String} {steps : Nat}

theorem follow_follows (h : StepsLeft aliases steps seen) :
    ∃ n ≤ steps, Follows aliases seen k n (follow aliases steps seen k) := by
  induction steps generalizing seen k with
  | zero =>
    refine ⟨0, le_rfl, .stops ?_⟩
    by_cases hk : k ∈ seen
    · exact .inr hk
    · cases hfind : aliases.find? k with
      | none => exact .inl rfl
      | some target => exact absurd (h.pos hk hfind) (lt_irrefl 0)
  | succ steps ih =>
    unfold follow
    split
    · next hmet => exact ⟨0, Nat.zero_le _, .stops (.inr (List.contains_iff_mem.mp hmet))⟩
    · next hnew =>
      have hk : k ∉ seen := fun hmem => hnew (List.contains_iff_mem.mpr hmem)
      split
      · next hnone => exact ⟨0, Nat.zero_le _, .stops (.inl hnone)⟩
      · next target hfind =>
        obtain ⟨n, hn, hrest⟩ := ih (h.next hk hfind) (k := target)
        exact ⟨n + 1, Nat.succ_le_succ hn, .leads hk hfind hrest⟩

theorem reflTransGen_iterate (aliases : Table String) (k : String) (n : Nat) :
    ReflTransGen (fun k target => aliases.find? k = some target) k
      ((advance aliases)^[n] k) := by
  induction n with
  | zero => exact .refl
  | succ n ih =>
    rw [Function.iterate_succ_apply']
    cases hfind : aliases.find? ((advance aliases)^[n] k) with
    | none =>
      have hstay : advance aliases ((advance aliases)^[n] k) = (advance aliases)^[n] k := by
        rw [advance, hfind]
        rfl
      rwa [hstay]
    | some target =>
      rw [advance_of_find? hfind]
      exact ih.tail hfind

theorem onLoop_of_iterate {n : Nat} (h : aliases.find? k = some target)
    (hback : (advance aliases)^[n + 1] k = k) : OnLoop aliases k := by
  rw [Function.iterate_succ_apply, advance_of_find? h] at hback
  have hrest := reflTransGen_iterate aliases target n
  rw [hback] at hrest
  exact .head' h hrest

theorem ends_of_none (h : aliases.find? k = none) (steps : Nat) :
    aliases.find? (follow aliases steps seen k) = none ∧
      ∀ i, ¬ OnLoop aliases ((advance aliases)^[i] k) := by
  have hnext : next? aliases k = none := by
    rw [next?, h]
    rfl
  have houtside : ¬ OnLoop aliases k := by
    intro hloop
    obtain ⟨target, hfind, _⟩ := TransGen.head'_iff.mp hloop
    cases h.symm.trans hfind
  refine ⟨by rwa [follow_of_none hnext], fun i => ?_⟩
  rwa [Function.iterate_fixed (advance_of_none hnext)]

theorem OnLoop.follow (h : OnLoop aliases k) (hfresh : ∀ i, (advance aliases)^[i] k ∉ seen)
    (hsteps : StepsLeft aliases steps seen) : follow aliases steps seen k = k := by
  obtain ⟨n, hn, hback⟩ := exists_iterate_of_transGen h
  exact follow_of_loop ⟨n, hn, hback⟩ hfresh hsteps

theorem follow_cases (hfresh : ∀ i, (advance aliases)^[i] k ∉ seen)
    (hsteps : StepsLeft aliases steps seen) :
    (aliases.find? (follow aliases steps seen k) = none ∧
        ∀ i, ¬ OnLoop aliases ((advance aliases)^[i] k)) ∨
      ∃ n, (advance aliases)^[n] k = follow aliases steps seen k ∧
        OnLoop aliases (follow aliases steps seen k) ∧
        ∀ i < n, ¬ OnLoop aliases ((advance aliases)^[i] k) := by
  induction steps generalizing seen k with
  | zero =>
    have hnone : aliases.find? k = none := by
      by_contra hfind
      obtain ⟨target, hfind⟩ := Option.ne_none_iff_exists'.mp hfind
      exact absurd (hsteps.pos (hfresh 0) hfind) (lt_irrefl 0)
    exact .inl (ends_of_none hnone 0)
  | succ steps ih =>
    have hk : k ∉ seen := hfresh 0
    cases hfind : aliases.find? k with
    | none => exact .inl (ends_of_none hfind (steps + 1))
    | some target =>
      by_cases hloop : OnLoop aliases k
      · have hself := hloop.follow hfresh hsteps
        exact .inr ⟨0, hself.symm, hself.symm ▸ hloop, fun i hi => absurd hi i.not_lt_zero⟩
      · have hother : target ≠ k := fun hself => hloop (.single (hself ▸ hfind))
        have hshift (i : Nat) : (advance aliases)^[i + 1] k = (advance aliases)^[i] target := by
          rw [Function.iterate_succ_apply, advance_of_find? hfind]
        have hfresh' (i : Nat) : (advance aliases)^[i] target ∉ k :: seen := by
          rw [← hshift]
          refine fun hmem => (List.mem_cons.mp hmem).elim (fun hback => ?_) (hfresh (i + 1))
          exact hloop (onLoop_of_iterate hfind hback)
        rw [follow_succ hk (next?_eq_some.mpr ⟨hfind, hother⟩)]
        rcases ih hfresh' (hsteps.next hk hfind) with ⟨hend, houtside⟩ | ⟨n, hn, hon, hfirst⟩
        · refine .inl ⟨hend, fun i => ?_⟩
          cases i with
          | zero => exact hloop
          | succ i => exact hshift i ▸ houtside i
        · refine .inr ⟨n + 1, (hshift n).trans hn, hon, fun i hi => ?_⟩
          cases i with
          | zero => exact hloop
          | succ i => exact hshift i ▸ hfirst i (Nat.lt_of_succ_lt_succ hi)

end Chains

theorem Built.target_normal {c : Catalog Int} (h : c.Built) :
    ∀ k target, c.aliases.find? k = some target → TypeName.normalize target = target := by
  induction h with
  | empty p => exact nofun
  | register _ d ih => exact ih
  | @registerAlias c _ name target ih =>
    intro k last hlast
    change (c.aliases.insert (TypeName.normalize name) (TypeName.normalize target)).find? k =
      some last at hlast
    rw [Table.find?_insert] at hlast
    split at hlast
    · obtain rfl := Option.some.inj hlast
      exact TypeName.normalize_normalize target
    · exact ih k last hlast
  | define _ ha ih =>
    obtain ⟨_, rfl⟩ := define?_eq_some.mp ha
    exact ih

theorem Built.normalize_resolve {c : Catalog Int} (h : c.Built) (name : String) :
    TypeName.normalize (c.resolve name) = c.resolve name :=
  follow_induction (P := fun k => TypeName.normalize k = k)
    (fun k target _ hfind => h.target_normal k target hfind) _ []
    (TypeName.normalize_normalize name)

end Catalog

open Catalog

theorem resolve_settles (c : Catalog Int) (hc : c.Built) (name : String) :
    (∃ steps ≤ c.aliases.length,
      Follows c.aliases [] (TypeName.normalize name) steps (c.resolve name)) ∧
    c.resolve (c.resolve name) = c.resolve name ∧
    ∀ target, c.aliases.find? (c.resolve name) = some target →
      ∃ n, (advance c.aliases)^[n] (TypeName.normalize name) = c.resolve name ∧
        OnLoop c.aliases (c.resolve name) ∧
        ∀ i < n, ¬ OnLoop c.aliases ((advance c.aliases)^[i] (TypeName.normalize name)) := by
  have hends := follow_cases (k := TypeName.normalize name) (fun _ => List.not_mem_nil)
    (.start c.aliases)
  have hnormal := hc.normalize_resolve name
  refine ⟨follow_follows (.start c.aliases), ?_, fun target htarget => ?_⟩
  · refine (resolve_eq_self_iff.mpr ?_).trans hnormal
    rw [hnormal]
    exact hends.imp And.left fun ⟨_, _, hon, _⟩ => hon
  · rcases hends with ⟨hnone, _⟩ | hloop
    · cases hnone.symm.trans htarget
    · exact hloop

def entrance : Catalog Int := seesaw.registerAlias "entry" "left"

theorem resolve_settles_entrance :
    entrance.resolve (entrance.resolve "entry") = entrance.resolve "entry" ∧
      ∃ n, (advance entrance.aliases)^[n] "entry" = "left" ∧ OnLoop entrance.aliases "left" ∧
        ∀ i < n, ¬ OnLoop entrance.aliases ((advance entrance.aliases)^[i] "entry") := by
  obtain ⟨_, hself, hloop⟩ :=
    resolve_settles entrance (seesaw_built.registerAlias "entry" "left") "entry"
  have hentry : TypeName.normalize "entry" = "entry" := rfl
  have hleft : entrance.resolve "entry" = "left" := rfl
  rw [hentry, hleft] at hloop
  exact ⟨hself, hloop "right" rfl⟩

end AggregateLayout
