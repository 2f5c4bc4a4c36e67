import Mathlib
import AggregateLayout.Packing
import AggregateLayout.Proofs.Layouting

namespace AggregateLayout

variable {μ : Type} [Measure μ]

theorem swapAt_perm {α : Type} (n : Nat) (xs : List α) : (swapAt n xs).Perm xs := by
  induction n, xs using swapAt.induct with
  | case1 x y rest => exact .swap x y rest
  | case2 n x rest ih => exact ih.cons x
  | case3 n xs hnone hmore =>
    unfold swapAt
    split
    · exact absurd rfl (hnone _ _ _ rfl)
    · exact absurd rfl (hmore _ _ _ rfl)
    · exact .refl _

theorem map_swapAt {α β : Type} (f : α → β) (n : Nat) (xs : List α) :
    (swapAt n xs).map f = swapAt n (xs.map f) := by
  induction n generalizing xs with
  | zero => rcases xs with _ | ⟨x, _ | ⟨y, rest⟩⟩ <;> rfl
  | succ n ih =>
    cases xs with
    | nil => rfl
    | cons x rest => exact congrArg (f x :: ·) (ih rest)

namespace PackingUnit

theorem join_perm (tag : String) (m : Member μ) (alignment : PowerOfTwo) (position : Nat)
    (units : List (PackingUnit μ)) :
    ((join tag m alignment position units).flatMap (·.members)).Perm
      (units.flatMap (·.members) ++ [m]) := by
  induction units with
  | nil => exact .refl _
  | cons u rest ih =>
    unfold join
    split
    · rw [List.flatMap_cons, List.flatMap_cons, List.append_assoc, List.append_assoc]
      exact List.perm_append_comm.append_left _
    · rw [List.flatMap_cons, List.flatMap_cons, List.append_assoc]
      exact ih.append_left _

theorem add_perm (rules : PackingRules) (m : Member μ) (alignment : PowerOfTwo) (position : Nat)
    (units : List (PackingUnit μ)) :
    ((add rules m alignment position units).flatMap (·.members)).Perm
      (units.flatMap (·.members) ++ [m]) := by
  unfold add
  split
  · split
    · apply join_perm
    · rw [List.flatMap_append]
      exact .refl _
  · rw [List.flatMap_append]
    exact .refl _

def gather (rules : PackingRules) (units : List (PackingUnit μ))
    (entries : List ((Member μ × TypeDescriptor μ) × Nat)) : List (PackingUnit μ) :=
  entries.foldl (fun units x => add rules x.1.1 x.1.2.alignment x.2 units) units

theorem gather_perm (rules : PackingRules) (units : List (PackingUnit μ))
    (entries : List ((Member μ × TypeDescriptor μ) × Nat)) :
    ((gather rules units entries).flatMap (·.members)).Perm
      (units.flatMap (·.members) ++ entries.map (·.1.1)) := by
  induction entries generalizing units with
  | nil =>
    rw [List.map_nil, List.append_nil]
    exact .refl _
  | cons x rest ih =>
    have joined := add_perm rules x.1.1 x.1.2.alignment x.2 units
    rw [List.map_cons, List.append_cons]
    exact (ih _).trans (joined.append_right _)

def alone (x : (Member μ × TypeDescriptor μ) × Nat) : PackingUnit μ where
  members := [x.1.1]
  alignment := x.1.2.alignment
  position := x.2

theorem gather_alone {rules : PackingRules} (hrules : rules.preserveGroups = false)
    (units : List (PackingUnit μ)) (entries : List ((Member μ × TypeDescriptor μ) × Nat)) :
    gather rules units entries = units ++ entries.map alone := by
  induction entries generalizing units with
  | nil => exact (List.append_nil units).symm
  | cons x rest ih =>
    have single : add rules x.1.1 x.1.2.alignment x.2 units = units ++ [alone x] := by
      unfold add
      rw [hrules]
      cases x.1.1.tag? <;> rfl
    rw [List.map_cons, List.append_cons, ← single]
    exact ih _

theorem sort_perm (rules : PackingRules) (units : List (PackingUnit μ)) :
    (sort rules units).Perm units := List.mergeSort_perm units _

theorem precedes_iff {rules : PackingRules} {units : List (PackingUnit μ)} {u v : PackingUnit μ} :
    precedes rules units u v = true ↔ v.alignment.val < u.alignment.val ∨
      (u.alignment.val = v.alignment.val ∧
        (u.cluster rules units < v.cluster rules units ∨
          (u.cluster rules units = v.cluster rules units ∧ u.position ≤ v.position))) := by
  unfold precedes
  dsimp only
  split
  · rw [decide_eq_true_iff]
    omega
  · split
    · rw [decide_eq_true_iff]
      omega
    · rw [decide_eq_true_iff]
      omega

theorem pairwise_precedes_sort (rules : PackingRules) (units : List (PackingUnit μ)) :
    (sort rules units).Pairwise fun u v => precedes rules units u v = true := by
  have trans (u v w : PackingUnit μ) (huv : precedes rules units u v = true)
      (hvw : precedes rules units v w = true) : precedes rules units u w = true := by
    rw [precedes_iff] at huv hvw ⊢
    omega
  have total (u v : PackingUnit μ) :
      (precedes rules units u v || precedes rules units v u) = true := by
    rw [Bool.or_eq_true, precedes_iff, precedes_iff]
    omega
  exact List.pairwise_mergeSort trans total units

theorem pairwise_sort (rules : PackingRules) (units : List (PackingUnit μ)) :
    (sort rules units).Pairwise fun u v => v.alignment.val ≤ u.alignment.val := by
  refine (pairwise_precedes_sort rules units).imp fun {u v} huv => ?_
  rw [precedes_iff] at huv
  omega

end PackingUnit

/-- An order of the members of an aggregate with the layout that it has. -/
structure Arrangement.Of (t : Target μ) (a : Aggregate μ) (s : Arrangement μ) : Prop where
  ordered : s.aggregate = a.withUnits s.units
  complete : (s.units.flatMap (·.members)).Perm a.members
  laid : t.layout s.aggregate = .ok s.layout

namespace Arrangement.Of

variable {t : Target μ} {a : Aggregate μ} {s : Arrangement μ}

theorem withMembers (h : s.Of t a) : s.aggregate = { a with members := s.aggregate.members } := by
  rw [h.ordered]
  rfl

theorem perm (h : s.Of t a) : s.aggregate.members.Perm a.members := by
  rw [h.ordered]
  exact h.complete

end Arrangement.Of

namespace Target

variable {t : Target μ} {rules : PackingRules} {a : Aggregate μ} {units : List (PackingUnit μ)}
  {s s' : Arrangement μ}

theorem units_eq_ok :
    t.units rules a = .ok units ↔
      ∃ typed : List (Member μ × TypeDescriptor μ), typed.map Prod.fst = a.members ∧
        (∀ x ∈ typed, t.memberType x.1 = .ok x.2) ∧
        PackingUnit.gather rules [] typed.zipIdx = units := by
  unfold Target.units
  generalize a.members = members
  generalize ([] : List (PackingUnit μ)) = before
  generalize (0 : Nat) = place
  induction members generalizing before place with
  | nil =>
    constructor
    · intro h
      exact ⟨[], rfl, fun x hx => (nomatch hx), Except.ok.inj h⟩
    · rintro ⟨typed, hm, _, rfl⟩
      obtain rfl := List.map_eq_nil_iff.mp hm
      rfl
  | cons m rest ih =>
    rw [List.zipIdx_cons, List.foldlM_cons, except_bind_eq_ok]
    simp only [ih, except_bind_eq_ok]
    constructor
    · rintro ⟨_, ⟨d, hd, hnext⟩, typed, rfl, htyped, rfl⟩
      obtain rfl := Except.ok.inj hnext
      exact ⟨(m, d) :: typed, rfl, List.forall_mem_cons.mpr ⟨hd, htyped⟩, rfl⟩
    · rintro ⟨typed, hm, htyped, rfl⟩
      cases typed with
      | nil => cases hm
      | cons x typed =>
        obtain ⟨rfl, rfl⟩ := List.cons.inj hm
        rw [List.forall_mem_cons] at htyped
        exact ⟨_, ⟨x.2, htyped.1, rfl⟩, typed, rfl, htyped.2, rfl⟩

theorem units_perm (h : t.units rules a = .ok units) :
    (units.flatMap (·.members)).Perm a.members := by
  obtain ⟨typed, hm, _, rfl⟩ := units_eq_ok.mp h
  have perm := PackingUnit.gather_perm rules [] typed.zipIdx
  have members : typed.zipIdx.map (·.1.1) = a.members := by
    rw [← hm, ← List.zipIdx_map_fst 0 typed, List.map_map]
    simp
  rwa [members] at perm

theorem arrange_eq_ok :
    t.arrange a units = .ok s ↔
      s.units = units ∧ s.aggregate = a.withUnits units ∧ t.layout s.aggregate = .ok s.layout := by
  unfold arrange
  rw [except_bind_eq_ok]
  constructor
  · rintro ⟨l, hl, hs⟩
    obtain rfl := Except.ok.inj hs
    exact ⟨rfl, rfl, hl⟩
  · rintro ⟨rfl, ha, hl⟩
    refine ⟨s.layout, ha ▸ hl, ?_⟩
    rw [← ha]
    rfl

theorem arrange_of (hunits : (units.flatMap (·.members)).Perm a.members)
    (h : t.arrange a units = .ok s) : s.Of t a := by
  obtain ⟨rfl, ha, hl⟩ := arrange_eq_ok.mp h
  exact ⟨ha, hunits, hl⟩

theorem exchange_eq_ok {n : Nat} (h : t.exchange s n = .ok s') :
    s' = s ∨ ∃ u v, s.units[n]? = some u ∧ s.units[n + 1]? = some v ∧
      u.alignment.val = v.alignment.val ∧ t.arrange s.aggregate (swapAt n s.units) = .ok s' ∧
      s'.layout.totalSize ≤ s.layout.totalSize ∧ t.straddling s' < t.straddling s := by
  unfold exchange at h
  split at h
  · next u v hu hv =>
    split at h
    · exact .inl (Except.ok.inj h).symm
    · next hmove =>
      simp only [ne_eq, Bool.or_eq_true, decide_eq_true_eq, not_or, not_not] at hmove
      obtain ⟨trial, htrial, h⟩ := except_bind_eq_ok.mp h
      split at h
      · next hbetter =>
        obtain rfl := Except.ok.inj h
        simp only [Bool.and_eq_true, decide_eq_true_eq] at hbetter
        exact .inr ⟨u, v, hu, hv, hmove.1, htrial, hbetter⟩
      · exact .inl (Except.ok.inj h).symm
  · exact .inl (Except.ok.inj h).symm

theorem exchange_of {n : Nat} (hs : s.Of t a) (h : t.exchange s n = .ok s') : s'.Of t a := by
  rcases exchange_eq_ok h with rfl | ⟨_, _, _, _, _, h, _⟩
  · exact hs
  · obtain ⟨hunits, ha, hl⟩ := arrange_eq_ok.mp h
    refine ⟨?_, ?_, hl⟩
    · rw [ha, hs.ordered, hunits]
      rfl
    · rw [hunits]
      exact ((swapAt_perm n s.units).flatMap_right _).trans hs.complete

theorem settle_invariant {P : Arrangement μ → Prop}
    (step : ∀ n s s', P s → t.exchange s n = .ok s' → P s') {passes : Nat} (hs : P s)
    (h : t.settle passes s = .ok s') : P s' := by
  induction passes generalizing s with
  | zero =>
    obtain rfl := Except.ok.inj h
    exact hs
  | succ passes ih =>
    unfold settle at h
    split at h
    · obtain rfl := Except.ok.inj h
      exact hs
    · obtain ⟨next, hnext, h⟩ := except_bind_eq_ok.mp h
      unfold exchangeAll at hnext
      have hnext : P next := foldlM_invariant step hs hnext
      split at h
      · exact ih hnext h
      · obtain rfl := Except.ok.inj h
        exact hnext

theorem settle_of {passes : Nat} (hs : s.Of t a) (h : t.settle passes s = .ok s') : s'.Of t a :=
  settle_invariant (fun _ _ _ hs => exchange_of hs) hs h

end Target

end AggregateLayout
