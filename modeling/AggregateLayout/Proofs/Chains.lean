import Mathlib
import AggregateLayout.Proofs.Refusal
import AggregateLayout.Proofs.Remembering

namespace AggregateLayout

open Relation (ReflTransGen)

namespace Target

/-- Something is wrong with an aggregate or with one that is met from there on. -/
def Faulty (t : Target Int) (levels : Nat) (path : List String) (a : Aggregate Int) : Prop :=
  ∃ cause, t.Fault levels path a cause

variable {t : Target Int} {a b : Aggregate Int} {levels levels' : Nat} {path path' : List String}
  {cause : LayoutCause Int} {nested : Aggregate Int → Layouting Int (TypeDescriptor Int)}
  {typed : List (Member Int × TypeDescriptor Int)} {memo : Memo Int} {l : Layout Int}

theorem Fault.ofChain (h : t.Fault levels path a cause)
    (hsound : ∀ b, ReflTransGen t.Nests a b → t.Sound b) : cause.OfChain := by
  induction h with
  | cycle => trivial
  | deep => trivial
  | unsound h _ => exact absurd (hsound _ .refl) h
  | nested _ hb _ ih => exact ih fun c hc => hsound c (.head hb hc)

theorem faulty_or_clear (levels : Nat) (path : List String) (a : Aggregate Int) :
    t.Faulty levels path a ∨ checkCycle path a = .ok () := by
  by_cases h : a.name ≠ "" ∧ a.name ∈ path
  · exact .inl ⟨_, .cycle h.1 h.2⟩
  · exact .inr (checkCycle_eq_ok.mpr fun hname hpath => h ⟨hname, hpath⟩)

theorem faulty_zero (path : List String) (a : Aggregate Int) : t.Faulty 0 path a := by
  rcases @faulty_or_clear t 0 path a with h | hclear
  · exact h
  · exact ⟨_, .deep hclear⟩

theorem faulty_of_nests (hb : t.Nests a b) (h : t.Faulty levels (path ++ [orAnonymous a.name]) b) :
    t.Faulty (levels + 1) path a := by
  rcases @faulty_or_clear t (levels + 1) path a with h' | hclear
  · exact h'
  · obtain ⟨cause, h⟩ := h
    exact ⟨cause, .nested hclear hb h⟩

theorem Fault.mono (h : t.Fault levels path a cause) (hlevels : levels' ≤ levels)
    (hpath : path ⊆ path') : t.Faulty levels' path' a := by
  -- The reason may change: what was too deep can be closed before, and the other way round.
  induction h generalizing levels' path' with
  | cycle hname hmem => exact ⟨_, .cycle hname (hpath hmem)⟩
  | deep =>
    obtain rfl := Nat.le_zero.mp hlevels
    exact faulty_zero path' _
  | unsound h hcause =>
    cases levels' with
    | zero => exact faulty_zero path' _
    | succ levels' => exact ⟨_, .unsound h hcause⟩
  | @nested _ path a _ _ _ hb _ ih =>
    cases levels' with
    | zero => exact faulty_zero path' _
    | succ levels' =>
      have hnext : path ++ [orAnonymous a.name] ⊆ path' ++ [orAnonymous a.name] :=
        List.append_subset.mpr
          ⟨List.subset_append_of_subset_left _ hpath, List.subset_append_right _ _⟩
      exact faulty_of_nests hb (ih (Nat.le_of_succ_le_succ hlevels) hnext)

section Order

variable {ms : List (Member Int)}

theorem Sound.perm (h : t.Sound a) (hp : ms.Perm a.members) :
    t.Sound { a with members := ms } where
  named := fun hmem => h.named ((hp.map _).subset hmem)
  distinct := (hp.map _).nodup_iff.mpr h.distinct
  resolves := fun m hm => h.resolves m (hp.subset hm)
  lengths := fun m hm => h.lengths m (hp.subset hm)
  bitfields := fun m hm => h.bitfields m (hp.subset hm)

theorem Fault.perm (h : t.Fault levels path { a with members := ms } cause)
    (hp : ms.Perm a.members) : t.Fault levels path a cause := by
  cases h with
  | cycle hname hmem => exact .cycle hname hmem
  | deep hclear => exact .deep hclear
  | unsound h hcause => exact .unsound (fun hs => h (hs.perm hp)) hcause
  | nested hclear hb h =>
    obtain ⟨m, hm, hb⟩ := hb
    exact .nested hclear ⟨m, hp.subset hm, hb⟩ h

end Order

theorem Typing.afresh {start : Memo Int} (h : t.Typing nested start typed memo)
    (hstart : start = []) (hn : ∀ b d memo, nested b [] = .ok (d, memo) → memo = []) :
    memo = [] ∧ ∀ x ∈ typed, t.typeWith nested x.1 [] = .ok (x.2, []) := by
  induction h with
  | nil => exact ⟨hstart, fun x hx => (nomatch hx)⟩
  | @cons _ memo₁ _ m d rest hd _ ih =>
    subst hstart
    obtain rfl : memo₁ = [] := by
      obtain ⟨_, _, ⟨_, rfl⟩ | ⟨b, _, hb⟩⟩ := typeWith_eq_ok.mp hd
      · rfl
      · exact hn b _ _ hb
    obtain ⟨hmemo, hrest⟩ := ih rfl
    exact ⟨hmemo, List.forall_mem_cons.mpr ⟨hd, hrest⟩⟩

theorem nestedAt_afresh {d : TypeDescriptor Int}
    (hn : ∀ l memo, t.layoutAt false levels path b [] = .ok (l, memo) → memo = [])
    (h : t.nestedAt false levels path b [] = .ok (d, memo)) :
    memo = [] ∧ ∃ l, t.layoutAt false levels path b [] = .ok (l, []) := by
  rcases nestedAt_eq_ok.mp h with ⟨hd, _⟩ | ⟨_, l, memo₁, hl, _, rfl⟩
  · cases hd
  · obtain rfl := hn l memo₁ hl
    exact ⟨rfl, l, hl⟩

theorem layoutAt_afresh (h : t.layoutAt false levels path a [] = .ok (l, memo)) : memo = [] := by
  induction levels generalizing path a l memo with
  | zero => exact absurd h layoutAt_zero_ne_ok
  | succ levels ih =>
    obtain ⟨_, _, hw⟩ := layoutAt_succ_eq_ok.mp h
    obtain ⟨typed, _, htyping, _⟩ := layoutWith_eq_ok.mp hw
    exact (htyping.afresh rfl fun b d memo hb => (nestedAt_afresh (fun _ _ => ih) hb).1).1

theorem layoutAt_afresh_nested
    (h : t.layoutAt false (levels + 1) path a [] = .ok (l, memo)) (hb : t.Nests a b) :
    ∃ l', t.layoutAt false levels (path ++ [orAnonymous a.name]) b [] = .ok (l', []) := by
  have empty (b : Aggregate Int) (d : TypeDescriptor Int) (memo : Memo Int)
      (h : t.nestedAt false levels (path ++ [orAnonymous a.name]) b [] = .ok (d, memo)) :=
    nestedAt_afresh (fun _ _ => layoutAt_afresh) h
  obtain ⟨_, _, hw⟩ := layoutAt_succ_eq_ok.mp h
  obtain ⟨typed, hm, htyping, _⟩ := layoutWith_eq_ok.mp hw
  obtain ⟨m, hmem, hb⟩ := hb
  rw [← hm] at hmem
  obtain ⟨x, hx, rfl⟩ := List.mem_map.mp hmem
  have hd := (htyping.afresh rfl fun b d memo hb => (empty b d memo hb).1).2 x hx
  obtain ⟨d₀, _, ⟨hf, _⟩ | ⟨b', hb', hd₀⟩⟩ := typeWith_eq_ok.mp hd
  · exact absurd hb (nested?_ne_some_of_flat? hf)
  · obtain rfl := Option.some.inj (hb'.symm.trans hb)
    exact (empty b' d₀ [] hd₀).2

theorem Fault.not_layoutAt_afresh (h : t.Fault levels path a cause) :
    t.layoutAt false levels path a [] ≠ .ok (l, memo) := by
  intro hl
  induction h generalizing l memo with
  | @cycle levels path a hname hmem =>
    cases levels with
    | zero => exact layoutAt_zero_ne_ok hl
    | succ levels => exact checkCycle_eq_ok.mp (layoutAt_succ_eq_ok.mp hl).1 hname hmem
  | deep => exact layoutAt_zero_ne_ok hl
  | unsound h _ =>
    exact h (Finds.layoutAt (fun path => finds_nestedAt false _ path) remembers_nil hl).1.sound
  | nested _ hb _ ih =>
    obtain ⟨l', hl'⟩ := layoutAt_afresh_nested hl hb
    exact ih hl'

end Target

end AggregateLayout
