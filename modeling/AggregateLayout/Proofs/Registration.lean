import Mathlib
import AggregateLayout.Proofs.Cycles
import AggregateLayout.Proofs.Lookup

namespace AggregateLayout

open Relation (ReflTransGen TransGen)

namespace Catalog

section Loops

def advance (aliases : Table String) (k : String) : String := (aliases.find? k).getD k

variable {aliases : Table String} {k target : String} {seen : List String} {steps : Nat}

theorem advance_of_find? (h : aliases.find? k = some target) : advance aliases k = target := by
  rw [advance, h]
  rfl

theorem advance_of_none (h : next? aliases k = none) : advance aliases k = k := by
  unfold advance
  cases hfind : aliases.find? k with
  | none => rfl
  | some other =>
    by_contra hother
    cases h.symm.trans (next?_eq_some.mpr ⟨hfind, hother⟩)

theorem exists_iterate_of_transGen
    (h : TransGen (fun k target => aliases.find? k = some target) k target) :
    ∃ n, 0 < n ∧ (advance aliases)^[n] k = target := by
  induction h with
  | single h => exact ⟨1, Nat.one_pos, advance_of_find? h⟩
  | tail _ h ih =>
    obtain ⟨n, _, hn⟩ := ih
    refine ⟨n + 1, n.succ_pos, ?_⟩
    rw [Function.iterate_succ_apply', hn, advance_of_find? h]

theorem follow_of_loop (hloop : k ∈ Function.periodicPts (advance aliases))
    (hfresh : ∀ i, (advance aliases)^[i] k ∉ seen) (hsteps : StepsLeft aliases steps seen) :
    follow aliases steps seen k = k := by
  let period := Function.minimalPeriod (advance aliases) k
  have hperiod : 0 < period := Function.minimalPeriod_pos_of_mem_periodicPts hloop
  have hback : (advance aliases)^[period] k = k := Function.iterate_minimalPeriod
  -- After `i` steps the start has been met, and nothing of what is left of the loop.
  have around (left i : Nat) (hleft : i + left = period) (steps : Nat) (seen : List String)
      (hsteps : StepsLeft aliases steps seen) (hstart : 0 < i → k ∈ seen)
      (hrest : ∀ j, i ≤ j → j < period → (advance aliases)^[j] k ∉ seen) :
      follow aliases steps seen ((advance aliases)^[i] k) = k := by
    induction left generalizing i steps seen with
    | zero =>
      obtain rfl : i = period := hleft
      rw [hback]
      exact follow_of_mem (hstart hperiod) steps
    | succ left ih =>
      have hi : i < period := by omega
      have hhere := hrest i le_rfl hi
      cases hnext : next? aliases ((advance aliases)^[i] k) with
      | none =>
        -- What leads nowhere else is the whole loop.
        have hstay : (advance aliases)^[period - i] ((advance aliases)^[i] k) =
            (advance aliases)^[i] k := Function.iterate_fixed (advance_of_none hnext) _
        rw [← Function.iterate_add_apply, Nat.sub_add_cancel hi.le, hback] at hstay
        rw [follow_of_none hnext, ← hstay]
      | some target =>
        have hleads := (next?_eq_some.mp hnext).1
        obtain ⟨steps, rfl⟩ := Nat.exists_eq_add_of_le' (hsteps.pos hhere hleads)
        have htarget : target = (advance aliases)^[i + 1] k := by
          rw [Function.iterate_succ_apply', advance_of_find? hleads]
        rw [follow_succ hhere hnext, htarget]
        refine ih (i + 1) (by omega) steps _ (hsteps.next hhere hleads) (fun _ => ?_)
          fun j hij hj hmem => ?_
        · rcases Nat.eq_zero_or_pos i with rfl | hpos
          · exact .head _
          · exact .tail _ (hstart hpos)
        · rcases List.mem_cons.mp hmem with heq | hmem
          · have := Function.iterate_injOn_Iio_minimalPeriod hj hi heq
            omega
          · exact hrest j (by omega) hj hmem
  exact around period 0 (Nat.zero_add _) steps seen hsteps (fun h => absurd h (lt_irrefl 0))
    fun j _ _ => hfresh j

end Loops

variable {μ : Type} [Measure μ]

/-- The name is no alias, or the aliases from it on lead back to it. -/
def StandsForItself (c : Catalog μ) (k : String) : Prop :=
  c.aliases.find? k = none ∨ TransGen (fun k target => c.aliases.find? k = some target) k k

theorem resolve_eq_self_iff {c : Catalog μ} {name : String} :
    c.resolve name = TypeName.normalize name ↔ c.StandsForItself (TypeName.normalize name) := by
  constructor
  · intro h
    cases hfind : c.aliases.find? (TypeName.normalize name) with
    | none => exact .inl hfind
    | some target =>
      refine .inr (.head' hfind ?_)
      by_cases hself : target = TypeName.normalize name
      · rw [hself]
      · have hnext := next?_eq_some.mpr ⟨hfind, hself⟩
        have hpos := (StepsLeft.start c.aliases).pos List.not_mem_nil hfind
        obtain ⟨steps, hsteps⟩ := Nat.exists_eq_add_of_le' hpos
        unfold resolve at h
        rw [hsteps, follow_succ List.not_mem_nil hnext] at h
        have hreached := follow_induction (P := ReflTransGen (fun k target =>
          c.aliases.find? k = some target) target) (fun _ _ => .tail) steps
          [TypeName.normalize name] .refl
        rwa [h] at hreached
  · rintro (hnone | hloop)
    · apply resolve_of_none
      rw [next?, hnone]
      rfl
    · obtain ⟨n, hn, hback⟩ := exists_iterate_of_transGen hloop
      exact follow_of_loop ⟨n, hn, hback⟩ (fun _ => List.not_mem_nil) (.start _)

structure Filed (c : Catalog μ) : Prop where
  types : ∀ k d, c.types.find? k = some d → TypeName.normalize d.name = k
  aggregates : ∀ k a, c.aggregates.find? k = some a → TypeName.normalize a.name = k

theorem define?_eq_some {c c' : Catalog μ} {a : Aggregate μ} :
    c.define? a = some c' ↔ a.name ≠ "" ∧
      c' = { c with aggregates := c.aggregates.insert (TypeName.normalize a.name) a } := by
  unfold define?
  by_cases hname : a.name = ""
  · simp [hname]
  · rw [if_neg (by simpa using hname)]
    exact ⟨fun h => ⟨hname, (Option.some.inj h).symm⟩, fun h => congrArg some h.2.symm⟩

theorem Built.filed {c : Catalog Int} (h : c.Built) : c.Filed := by
  induction h with
  | empty p => exact ⟨nofun, nofun⟩
  | @register c _ d ih =>
    refine ⟨fun k e he => ?_, ih.aggregates⟩
    change (c.types.insert (TypeName.normalize d.name) d).find? k = some e at he
    rw [Table.find?_insert] at he
    split at he
    · next hkey =>
      obtain rfl := Option.some.inj he
      exact hkey
    · exact ih.types k e he
  | registerAlias _ name target ih => exact ⟨ih.types, ih.aggregates⟩
  | @define c c' a _ ha ih =>
    obtain ⟨_, rfl⟩ := define?_eq_some.mp ha
    refine ⟨ih.types, fun k b hb => ?_⟩
    change (c.aggregates.insert (TypeName.normalize a.name) a).find? k = some b at hb
    rw [Table.find?_insert] at hb
    split at hb
    · next hkey =>
      obtain rfl := Option.some.inj hb
      exact hkey
    · exact ih.aggregates k b hb

theorem built_ofProfile (p : MachineProfile Int) : (ofProfile p).Built := by
  have htypes (ds : List (TypeDescriptor Int)) (c : Catalog Int) (hc : c.Built) :
      (ds.foldl register c).Built := by
    induction ds generalizing c with
    | nil => exact hc
    | cons d rest ih => exact ih _ (hc.register d)
  have haliases (names : List (String × String)) (c : Catalog Int) (hc : c.Built) :
      (c.registerAliases names).Built := by
    induction names generalizing c with
    | nil => exact hc
    | cons x rest ih => exact ih _ (hc.registerAlias x.1 x.2)
  rw [ofProfile_eq]
  exact haliases spellings _ (htypes (primitives p) _ (.empty p))

variable {c : Catalog μ} {d : TypeDescriptor μ} {a : Aggregate μ}

theorem describe_register (hname : TypeName.isPointer (TypeName.normalize d.name) = false)
    (hself : c.resolve d.name = TypeName.normalize d.name) :
    (c.register d).describe d.name = .ok d := by
  have hresolve : (c.register d).resolve d.name = TypeName.normalize d.name := hself
  have hfind : (c.register d).types.find? (TypeName.normalize d.name) = some d :=
    (Table.find?_insert _ _ _ _).trans (if_pos rfl)
  unfold describe
  dsimp only
  rw [hresolve, hname, hfind]
  rfl

theorem describe_register_of_ne (hother : c.resolve d.name ≠ TypeName.normalize d.name) :
    (c.register d).describe d.name = c.describe d.name := by
  have hfind : (c.register d).types.find? (c.resolve d.name) = c.types.find? (c.resolve d.name) :=
    (Table.find?_insert _ _ _ _).trans (if_neg hother.symm)
  have hresolve : (c.register d).resolve d.name = c.resolve d.name := rfl
  unfold describe
  dsimp only
  rw [hresolve, hfind]
  rfl

theorem Filed.name_of_describe {name : String} (hc : c.Filed) (h : c.describe name = .ok d) :
    TypeName.isPointer (TypeName.normalize d.name) = true ∨
      TypeName.normalize d.name = c.resolve name := by
  unfold describe at h
  dsimp only at h
  split at h
  · obtain rfl := Except.ok.inj h
    exact .inl (TypeName.isPointer_normalize _)
  · split at h
    · next hfind =>
      obtain rfl := Except.ok.inj h
      exact .inr (hc.types _ _ hfind)
    · cases h

theorem aggregate?_insert (c : Catalog μ) (a : Aggregate μ) (name : String) :
    ({ c with aggregates := c.aggregates.insert (TypeName.normalize a.name) a } :
        Catalog μ).aggregate? name =
      if TypeName.normalize a.name = c.resolve name then some a else c.aggregate? name :=
  Table.find?_insert _ _ _ _

end Catalog

open Catalog

theorem catalog_finds_last (c : Catalog Int) (hc : c.Built) :
    (∀ d : TypeDescriptor Int, TypeName.isPointer (TypeName.normalize d.name) = false →
      ((c.register d).describe d.name = .ok d ↔
        c.StandsForItself (TypeName.normalize d.name)) ∧
      (¬ c.StandsForItself (TypeName.normalize d.name) →
        (c.register d).describe d.name = c.describe d.name)) ∧
    ∀ a : Aggregate Int, a.name ≠ "" → ∃ c', c.define? a = some c' ∧
      (c'.aggregate? a.name = some a ↔ c.StandsForItself (TypeName.normalize a.name)) ∧
      (¬ c.StandsForItself (TypeName.normalize a.name) →
        c'.aggregate? a.name = c.aggregate? a.name) := by
  refine ⟨fun d hname => ?_, fun a hname => ⟨_, define?_eq_some.mpr ⟨hname, rfl⟩, ?_⟩⟩
  · rw [← resolve_eq_self_iff]
    refine ⟨⟨fun h => ?_, describe_register hname⟩, describe_register_of_ne⟩
    by_contra hother
    rw [describe_register_of_ne hother] at h
    rcases hc.filed.name_of_describe h with hpointer | hfound
    · exact Bool.false_ne_true (hname.symm.trans hpointer)
    · exact hother hfound.symm
  · rw [← resolve_eq_self_iff, aggregate?_insert]
    refine ⟨⟨fun h => ?_, fun hself => if_pos hself.symm⟩, fun hother => ?_⟩
    · by_contra hother
      rw [if_neg fun h => hother h.symm] at h
      exact hother (hc.filed.aggregates _ _ h).symm
    · exact if_neg fun h => hother h.symm

def seesaw : Catalog Int :=
  (Catalog.registerAlias { profile := .lp64 } "left" "right").registerAlias "right" "left"

theorem seesaw_built : seesaw.Built := ((Built.empty _).registerAlias _ _).registerAlias _ _

def left : TypeDescriptor Int := .basic "left" (.of 2) .two .scalar true

def right : Aggregate Int where
  name := "struct right"
  members := [{ name := "child", type := .named "left" }]

theorem left_stands : seesaw.StandsForItself (TypeName.normalize left.name) :=
  .inr (.tail (b := "right") (.single (by decide)) (by decide))

theorem right_stands : seesaw.StandsForItself (TypeName.normalize right.name) :=
  .inr (.tail (b := "left") (.single (by decide)) (by decide))

theorem catalog_finds_last_seesaw :
    (seesaw.register left).describe left.name = .ok left ∧
      ∃ c, seesaw.define? right = some c ∧ c.aggregate? right.name = some right := by
  obtain ⟨htypes, haggregates⟩ := catalog_finds_last seesaw seesaw_built
  obtain ⟨hleft, _⟩ := htypes left (by decide)
  obtain ⟨c, hc, hright, _⟩ := haggregates right (by decide)
  exact ⟨hleft.mpr left_stands, c, hc, hright.mpr right_stands⟩

def signed : TypeDescriptor Int := .basic "signed" (.of 16) .sixteen .scalar true

def crate : Aggregate Int where
  name := "crate"

theorem catalog_loses_signed :
    (ofProfile .lp64 : Catalog Int).Built ∧
      (((ofProfile .lp64).register signed).describe signed.name).toOption.map (·.name) =
        some "int" ∧
      (Catalog.registerAlias { profile := .lp64 } "crate" "int" : Catalog Int).Built ∧
      ∃ c, (Catalog.registerAlias { profile := .lp64 } "crate" "int").define? crate = some c ∧
        (c.aggregate? crate.name).isNone := by
  refine ⟨built_ofProfile _, by decide, (Built.empty _).registerAlias _ _, _, rfl, ?_⟩
  decide

end AggregateLayout
