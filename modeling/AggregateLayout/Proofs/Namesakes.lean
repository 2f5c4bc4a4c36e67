import Mathlib
import AggregateLayout.Proofs.Cycles
import AggregateLayout.Proofs.Transparency

/-!
Names that are met again although nothing contains itself. A chain of nested aggregates is told to
be closed by the names on it. So two different aggregates of one name, one somewhere inside the
other, are taken for a cycle, and nothing else is that is none. What has no name goes by what stands
for one, which an aggregate can be called as well.
-/

namespace AggregateLayout

open Relation (ReflTransGen TransGen)

namespace Target

variable {t : Target Int} {a b c : Aggregate Int} {outer : List (Aggregate Int)}

/-- The second one is a different aggregate inside the first one, and is called like it. -/
structure Namesakes (t : Target Int) (b c : Aggregate Int) : Prop where
  inside : TransGen t.Nests b c
  different : b ≠ c
  named : c.name ≠ ""
  called : c.name = orAnonymous b.name

theorem nests_of_chain (hhead : (outer ++ [c]).head? = some a)
    (hchain : (outer ++ [c]).IsChain t.Nests) (hb : b ∈ outer) :
    ReflTransGen t.Nests a b ∧ TransGen t.Nests b c := by
  have far : (outer ++ [c]).Pairwise (TransGen t.Nests) := by
    apply List.isChain_iff_pairwise.mp
    exact hchain.imp fun _ _ h => .single h
  have last : TransGen t.Nests b c := by
    rw [List.pairwise_append] at far
    exact far.2.2 b hb c (List.mem_singleton_self c)
  refine ⟨?_, last⟩
  cases outer with
  | nil => cases hb
  | cons first rest =>
    obtain rfl : first = a := Option.some.inj hhead
    rcases List.mem_cons.mp hb with rfl | hb
    · exact .refl
    · rw [List.cons_append, List.pairwise_cons] at far
      exact (far.1 b (List.mem_append_left _ hb)).to_reflTransGen

theorem namesakes_of_cycle (hfinite : Acc t.Nested a) {e : LayoutError Int} {path : List String}
    (h : t.layout a = .error (.invalid e)) (hcause : e.cause = .cycle path) :
    ∃ b c, ReflTransGen t.Nests a b ∧ t.Namesakes b c := by
  obtain ⟨path', defs, c, hvisit, ⟨hname, hmem, _⟩ | ⟨_, _, hdeep⟩⟩ :=
    layout_chain h (by rw [hcause]; trivial)
  · obtain ⟨outer, hpath, hhead, hchain⟩ := hvisit.chain
    rw [hpath] at hmem
    obtain ⟨b, hb, hcalled⟩ := List.mem_map.mp hmem
    obtain ⟨hab, hbc⟩ := nests_of_chain hhead hchain hb
    have different : b ≠ c := by
      rintro rfl
      exact not_transGen_of_acc hfinite hab hbc
    exact ⟨b, c, hab, hbc, different, hname, hcalled.symm⟩
  · exact (nomatch hcause.symm.trans hdeep)

end Target

theorem layout_finds_no_cycle (t : Target Int) (a : Aggregate Int) (hfinite : Acc t.Nested a)
    (hnames : ∀ b c, ReflTransGen t.Nests a b → ¬ t.Namesakes b c) :
    ∀ e path, t.layout a = .error (.invalid e) → e.cause ≠ .cycle path := by
  intro e path h hcause
  obtain ⟨b, c, hab, hbc⟩ := Target.namesakes_of_cycle hfinite h hcause
  exact hnames b c hab hbc

def core : Aggregate Int where
  name := ""
  members := [{ name := "c", type := .descriptor byte }]

def leftHalf : Aggregate Int where
  name := "half"
  members := [{ name := "c", type := .descriptor byte }]

def rightHalf : Aggregate Int where
  name := "half"
  members := [{ name := "core", type := .inline core }]

def halves : Aggregate Int where
  name := "whole"
  members :=
    [{ name := "left", type := .inline leftHalf }, { name := "right", type := .inline rightHalf }]

theorem not_nests_core (b : Aggregate Int) : ¬ twoLevels.Nests core b := by
  rintro ⟨m, hm, hb⟩
  obtain rfl := List.mem_singleton.mp hm
  cases hb

theorem not_nests_leftHalf (b : Aggregate Int) : ¬ twoLevels.Nests leftHalf b := by
  rintro ⟨m, hm, hb⟩
  obtain rfl := List.mem_singleton.mp hm
  cases hb

theorem nests_rightHalf {b : Aggregate Int} (h : twoLevels.Nests rightHalf b) : b = core := by
  obtain ⟨m, hm, hb⟩ := h
  obtain rfl := List.mem_singleton.mp hm
  exact (Option.some.inj hb).symm

theorem nests_halves {b : Aggregate Int} (h : twoLevels.Nests halves b) :
    b = leftHalf ∨ b = rightHalf := by
  obtain ⟨m, hm, hb⟩ := h
  simp only [halves, List.mem_cons, List.not_mem_nil, or_false] at hm
  rcases hm with rfl | rfl
  · exact .inl (Option.some.inj hb).symm
  · exact .inr (Option.some.inj hb).symm

theorem acc_halves : Acc twoLevels.Nested halves := by
  have hcore : Acc twoLevels.Nested core := .intro _ fun b hb => absurd hb (not_nests_core b)
  refine .intro _ fun b hb => ?_
  rcases nests_halves hb with rfl | rfl
  · exact .intro _ fun c hc => absurd hc (not_nests_leftHalf c)
  · refine .intro _ fun c hc => ?_
    rw [nests_rightHalf hc]
    exact hcore

theorem below_halves {b : Aggregate Int} (h : ReflTransGen twoLevels.Nests halves b) :
    b = halves ∨ b = leftHalf ∨ b = rightHalf ∨ b = core := by
  induction h with
  | refl => exact .inl rfl
  | tail _ hc ih =>
    rcases ih with rfl | rfl | rfl | rfl
    · exact .inr ((nests_halves hc).imp_right .inl)
    · exact absurd hc (not_nests_leftHalf _)
    · exact .inr (.inr (.inr (nests_rightHalf hc)))
    · exact absurd hc (not_nests_core _)

theorem halves_apart (b c : Aggregate Int) (hb : ReflTransGen twoLevels.Nests halves b) :
    ¬ twoLevels.Namesakes b c := by
  intro h
  have hc := below_halves (hb.trans h.inside.to_reflTransGen)
  obtain ⟨d, hd, hdc⟩ := TransGen.head'_iff.mp h.inside
  rcases below_halves hb with rfl | rfl | rfl | rfl
  · rcases hc with rfl | rfl | rfl | rfl
    · exact h.different rfl
    · exact absurd h.called (by decide)
    · exact absurd h.called (by decide)
    · exact h.named rfl
  · exact not_nests_leftHalf d hd
  · obtain rfl := nests_rightHalf hd
    rcases ReflTransGen.cases_head hdc with rfl | ⟨e, he, _⟩
    · exact h.named rfl
    · exact not_nests_core e he
  · exact not_nests_core d hd

theorem layout_finds_no_cycle_halves :
    ∃ e, twoLevels.layout halves = .error (.invalid e) ∧ ∀ path, e.cause ≠ .cycle path := by
  refine ⟨_, rfl, fun path => ?_⟩
  exact layout_finds_no_cycle twoLevels halves acc_halves halves_apart _ path rfl

def innermost : Aggregate Int where
  name := "<anonymous>"
  members := [{ name := "c", type := .descriptor byte }]

def nameless : Aggregate Int where
  name := ""
  members := [{ name := "tail", type := .inline innermost }]

def outermost : Aggregate Int where
  name := "outer"
  members := [{ name := "body", type := .inline nameless }]

theorem acc_outermost : Acc (Target.ofProfile .lp64).Nested outermost := by
  have hinnermost : Acc (Target.ofProfile .lp64).Nested innermost := by
    refine .intro _ fun b ⟨m, hm, hb⟩ => ?_
    obtain rfl := List.mem_singleton.mp hm
    cases hb
  have hnameless : Acc (Target.ofProfile .lp64).Nested nameless := by
    refine .intro _ fun b ⟨m, hm, hb⟩ => ?_
    obtain rfl := List.mem_singleton.mp hm
    obtain rfl := Option.some.inj hb
    exact hinnermost
  refine .intro _ fun b ⟨m, hm, hb⟩ => ?_
  obtain rfl := List.mem_singleton.mp hm
  obtain rfl := Option.some.inj hb
  exact hnameless

theorem layout_finds_cycle_outermost :
    Acc (Target.ofProfile .lp64).Nested outermost ∧
    ∃ e, (Target.ofProfile .lp64).layout outermost = .error (.invalid e) ∧
      e.cause = .cycle ["outer", "<anonymous>", "<anonymous>"] :=
  ⟨acc_outermost, _, rfl, rfl⟩

end AggregateLayout
