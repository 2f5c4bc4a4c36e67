import Mathlib
import AggregateLayout.Proofs.Hinting

/-!
Where moving groups off the ends of cache lines comes to rest. No exchange of two neighbours helps
any further there, so that the limit on the number of passes never cuts the search short.
-/

namespace AggregateLayout

open PackingUnit

namespace Target

/-- No exchange of two neighbours that are aligned alike, one of them of a group, leaves fewer
groups straddling in as few bytes. -/
def LocallyBest (t : Target Int) (s : Arrangement Int) : Prop :=
  ∀ n u v trial, s.units[n]? = some u → s.units[n + 1]? = some v →
    u.alignment.val = v.alignment.val → (u.tag?.isSome ∨ v.tag?.isSome) →
    t.arrange s.aggregate (swapAt n s.units) = .ok trial →
    ¬ (trial.layout.totalSize ≤ s.layout.totalSize ∧ t.straddling trial < t.straddling s)

variable {t : Target Int} {s s' : Arrangement Int} {passes : Nat}

theorem Settled.locallyBest (h : t.Settled s) : t.LocallyBest s := by
  intro n u v trial hu hv halign htag htrial
  rcases h with hzero | hall
  · rw [hzero]
    exact fun hbetter => Nat.not_lt_zero _ hbetter.2
  · obtain ⟨trial', htrial', hworse⟩ := exchange_eq_self.mp (hall n) u v hu hv halign htag
    obtain rfl : trial = trial' := Except.ok.inj (htrial.symm.trans htrial')
    exact hworse

theorem settle_straddling_le (h : t.settle passes s = .ok s') :
    t.straddling s' ≤ t.straddling s := by
  refine settle_invariant (P := fun x => t.straddling x ≤ t.straddling s) ?_ le_rfl h
  intro n x x' hx hexchange
  rcases exchange_eq_ok hexchange with rfl | ⟨_, _, _, _, _, _, _, hless⟩
  · exact hx
  · exact hless.le.trans hx

theorem settle_units_perm (h : t.settle passes s = .ok s') : s'.units.Perm s.units := by
  refine settle_invariant (P := fun x => x.units.Perm s.units) ?_ (.refl _) h
  intro n x x' hx hexchange
  rcases exchange_eq_ok hexchange with rfl | ⟨_, _, _, _, _, hswap, _⟩
  · exact hx
  · rw [(arrange_eq_ok.mp hswap).1]
    exact (swapAt_perm n x.units).trans hx

theorem settle_add (hpasses : t.straddling s ≤ passes) (h : t.settle passes s = .ok s')
    (more : Nat) : t.settle (passes + more) s = .ok s' := by
  induction passes generalizing s with
  | zero =>
    obtain rfl := Except.ok.inj h
    have hrest : t.Settled s := .inl (Nat.le_zero.mp hpasses)
    exact hrest.settle _
  | succ passes ih =>
    rw [Nat.succ_add]
    unfold settle at h ⊢
    split at h
    · next hzero =>
      rw [if_pos hzero]
      exact h
    · next hsome =>
      rw [if_neg hsome]
      obtain ⟨next, hnext, h⟩ := except_bind_eq_ok.mp h
      refine except_bind_eq_ok.mpr ⟨next, hnext, ?_⟩
      split at h
      · next hless =>
        rw [if_pos hless]
        exact ih (by omega) h
      · next hmore =>
        rw [if_neg hmore]
        exact h

end Target

theorem settle_rests (t : Target Int) (rules : PackingRules) (a : Aggregate Int)
    (units : List (PackingUnit Int)) (sorted s : Arrangement Int)
    (hunits : t.units rules a = .ok units)
    (hsorted : t.arrange a (PackingUnit.sort rules units) = .ok sorted)
    (h : t.settle units.length sorted = .ok s) :
    s.Of t a ∧ s.units.Perm units ∧
      s.layout.totalSize ≤ sorted.layout.totalSize ∧ t.straddling s ≤ t.straddling sorted ∧
      t.LocallyBest s ∧ ∀ more, t.settle (units.length + more) sorted = .ok s := by
  have hperm := sort_perm rules units
  have hof : sorted.Of t a := Target.arrange_of
    ((hperm.flatMap_right _).trans (Target.units_perm hunits)) hsorted
  have henough := Target.straddling_sort_le (Target.units_gathered hunits).made hsorted
  refine ⟨Target.settle_of hof h, ?_, Target.settle_totalSize_le h,
    Target.settle_straddling_le h, (Target.settle_settled henough h).locallyBest,
    Target.settle_add henough h⟩
  rw [← (Target.arrange_eq_ok.mp hsorted).1] at hperm
  exact (Target.settle_units_perm h).trans hperm

def crowded : Aggregate Int where
  name := "crowded"
  members := counters.members ++
    [{ name := "names", type := .descriptor (integer .four), dims := [10], group := some "cold" },
      { name := "ages", type := .descriptor (integer .four), dims := [10], group := some "cold" }]

def crowdedUnits : List (PackingUnit Int) :=
  countersUnits ++ [{ members := crowded.members.drop 3, alignment := .four, position := 3 }]

theorem sort_crowded : PackingUnit.sort groupsInLines crowdedUnits = crowdedUnits := by
  apply sort_eq_self
  decide

theorem settle_rests_crowded : ∃ sorted s : Arrangement Int,
    (Target.ofProfile .lp64).units groupsInLines crowded = .ok crowdedUnits ∧
    (Target.ofProfile .lp64).arrange crowded (PackingUnit.sort groupsInLines crowdedUnits) =
      .ok sorted ∧
    (Target.ofProfile .lp64).straddling sorted = 2 ∧
    (Target.ofProfile .lp64).settle 3 sorted = .ok s ∧
    (Target.ofProfile .lp64).straddling s = 1 ∧
    s.aggregate.memberNames = ["hits", "misses", "table", "names", "ages"] ∧
    (Target.ofProfile .lp64).LocallyBest s := by
  obtain ⟨sorted, s, hsorted, hbefore, hs, hafter, hnames⟩ : ∃ sorted s : Arrangement Int,
      (Target.ofProfile .lp64).arrange crowded crowdedUnits = .ok sorted ∧
      (Target.ofProfile .lp64).straddling sorted = 2 ∧
      (Target.ofProfile .lp64).settle 3 sorted = .ok s ∧
      (Target.ofProfile .lp64).straddling s = 1 ∧
      s.aggregate.memberNames = ["hits", "misses", "table", "names", "ages"] :=
    ⟨_, _, rfl, rfl, rfl, rfl, rfl⟩
  rw [← sort_crowded] at hsorted
  obtain ⟨_, _, _, _, hbest, _⟩ := settle_rests (.ofProfile .lp64) groupsInLines crowded
    crowdedUnits sorted s rfl hsorted hs
  exact ⟨sorted, s, rfl, hsorted, hbefore, hs, hafter, hnames, hbest⟩

end AggregateLayout
