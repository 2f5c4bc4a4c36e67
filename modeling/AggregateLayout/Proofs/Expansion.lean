import Mathlib
import AggregateLayout.Profile.Builtin
import AggregateLayout.Proofs.Refusal
import AggregateLayout.Proofs.Remembering
import AggregateLayout.Proofs.Sound

namespace AggregateLayout

open Relation (ReflTransGen TransGen)
open AggregateLayout.Measure (whole)

variable {μ : Type} [Measure μ]

namespace Target

/-- Aggregates nest at most so deep, the outermost one included. -/
def NestsWithin (t : Target μ) : Nat → Aggregate μ → Prop
  | 0, _ => False
  | levels + 1, a => ∀ b, t.Nests a b → t.NestsWithin levels b

/-- No aggregate nests another one of its own name, and none is called what stands for no name. -/
structure Distinct (t : Target μ) (a : Aggregate μ) : Prop where
  chains : ∀ b c, ReflTransGen t.Nests a b → TransGen t.Nests b c → b.name ≠ "" → b.name ≠ c.name
  named : ∀ b, ReflTransGen t.Nests a b → b.name ≠ anonymous

variable {t : Target Int} {a b : Aggregate Int}

theorem NestsWithin.mono {levels levels' : Nat} (h : t.NestsWithin levels a)
    (hle : levels ≤ levels') : t.NestsWithin levels' a := by
  induction levels generalizing levels' a with
  | zero => exact h.elim
  | succ levels ih =>
    cases levels' with
    | zero => omega
    | succ levels' => exact fun b hb => ih (h b hb) (by omega)

theorem Distinct.below (h : t.Distinct a) (hb : t.Nests a b) : t.Distinct b :=
  ⟨fun c e hc => h.chains c e (.head hb hc), fun c hc => h.named c (.head hb hc)⟩

theorem not_fault {levels : Nat} {path : List String} {cause : LayoutCause Int}
    (hdepth : t.NestsWithin levels a) (hdistinct : t.Distinct a)
    (hpath : ∀ b, ReflTransGen t.Nests a b → b.name ≠ "" → b.name ∉ path)
    (hsound : ∀ b, ReflTransGen t.Nests a b → t.Sound b) : ¬ t.Fault levels path a cause := by
  intro h
  induction h with
  | cycle hname hmem => exact hpath _ .refl hname hmem
  | deep => exact hdepth
  | unsound h _ => exact h (hsound _ .refl)
  | @nested levels path a b cause _ hb _ ih =>
    refine ih (hdepth b hb) (hdistinct.below hb) (fun c hc hname => ?_)
      (fun c hc => hsound c (.head hb hc))
    rw [List.mem_append, List.mem_singleton, not_or]
    refine ⟨hpath c (.head hb hc) hname, fun heq => ?_⟩
    unfold orAnonymous at heq
    split at heq
    · exact hdistinct.named c (.head hb hc) heq
    · next ha => exact hdistinct.chains a c .refl (.head' hb hc) (by simpa using ha) heq.symm

theorem exists_layout (hdepth : t.NestsWithin t.levels a) (hdistinct : t.Distinct a)
    (hsound : ∀ b, ReflTransGen t.Nests a b → t.Sound b) : ∃ l, t.layout a = .ok l := by
  cases h : t.layout a with
  | ok l => exact ⟨l, rfl⟩
  | error f =>
    obtain ⟨e, _, hfault⟩ := layout_fault h
    exact absurd hfault (not_fault hdepth hdistinct (fun _ _ _ => List.not_mem_nil) hsound)

end Target

def byte : TypeDescriptor μ := .basic "u8" (.of (whole 1)) .one .scalar true

def header : Aggregate μ where
  name := "header"
  members :=
    [{ name := "flags", type := .descriptor byte, bits := some (whole 3) },
      { name := "pair", type := .descriptor byte, dims := [whole 2] }]

def headers : Aggregate μ where
  name := "headers"
  members := [{ name := "all", type := .inline header, dims := [whole 4, whole 0] }]

section Headers

variable {t : Target μ} {b : Aggregate μ}

theorem not_nests_header : ¬ t.Nests header b := by
  rintro ⟨m, hm, hb⟩
  simp only [header, List.mem_cons, List.not_mem_nil, or_false] at hm
  rcases hm with rfl | rfl <;> cases hb

theorem nests_headers (h : t.Nests headers b) : b = header := by
  obtain ⟨m, hm, hb⟩ := h
  obtain rfl := List.mem_singleton.mp hm
  exact (Option.some.inj hb).symm

theorem below_headers (h : ReflTransGen t.Nests headers b) : b = headers ∨ b = header := by
  induction h with
  | refl => exact .inl rfl
  | tail _ hc ih =>
    rcases ih with rfl | rfl
    · exact .inr (nests_headers hc)
    · exact absurd hc not_nests_header

theorem nestsWithin_headers : t.NestsWithin 2 headers := by
  intro b hb c hc
  obtain rfl := nests_headers hb
  exact not_nests_header hc

theorem distinct_headers : t.Distinct headers := by
  constructor
  · intro b c hb hc hname
    rcases below_headers hb with rfl | rfl
    · have last : c = header := by
        induction hc with
        | single h => exact nests_headers h
        | tail _ h ih => exact absurd (ih ▸ h) not_nests_header
      rw [last]
      exact of_decide_eq_true rfl
    · obtain ⟨d, hd, _⟩ := TransGen.head'_iff.mp hc
      exact absurd hd not_nests_header
  · intro b hb
    rcases below_headers hb with rfl | rfl <;> exact of_decide_eq_true rfl

end Headers

end AggregateLayout
