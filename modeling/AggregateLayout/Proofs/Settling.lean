import Mathlib
import AggregateLayout.Proofs.Sorting

namespace AggregateLayout

variable {μ : Type} [Measure μ]

theorem groupSpans_keys {a : Aggregate μ} {l : Layout μ} {tags : List String}
    (h : ∀ m ∈ a.members, ∀ tag, m.tag? = some tag → tag ∈ tags) :
    (groupSpans a l).keys.Nodup ∧ ∀ key ∈ (groupSpans a l).keys, key ∈ tags := by
  unfold groupSpans
  apply List.foldlRecOn (motive := fun spans : Table (μ × μ) =>
    spans.keys.Nodup ∧ ∀ key ∈ spans.keys, key ∈ tags)
  · exact ⟨List.nodup_nil, fun key hkey => (nomatch hkey)⟩
  · intro spans hspans m hm
    split
    · next tag p htag _ =>
      split
      · exact hspans
      · refine ⟨Table.nodup_keys_insert hspans.1 _ _, fun key hkey => ?_⟩
        rcases Table.mem_keys_insert.mp hkey with rfl | hkey
        · exact h m hm key htag
        · exact hspans.2 key hkey
    · exact hspans

theorem straddlingGroups_le {a : Aggregate μ} {tags : List String}
    (h : ∀ m ∈ a.members, ∀ tag, m.tag? = some tag → tag ∈ tags) (l : Layout μ)
    (line : PowerOfTwo) : straddlingGroups a l line ≤ tags.length := by
  obtain ⟨hnodup, hsub⟩ := @groupSpans_keys _ _ a l tags h
  calc
    straddlingGroups a l line ≤ (groupSpans a l).values.length := List.countP_le_length
    _ = (groupSpans a l).keys.length := by
      rw [Table.values, Table.keys, List.length_map, List.length_map]
    _ ≤ tags.length := (List.subperm_of_subset hnodup hsub).length_le

theorem pairwise_swapAt {α : Type} {R : α → α → Prop} {n : Nat} {xs : List α} {x y : α}
    (h : xs.Pairwise R) (hx : xs[n]? = some x) (hy : xs[n + 1]? = some y) (hyx : R y x) :
    (swapAt n xs).Pairwise R := by
  induction n generalizing xs with
  | zero =>
    match xs, hx, hy with
    | _ :: _ :: rest, rfl, rfl =>
      change (y :: x :: rest).Pairwise R
      rw [List.pairwise_cons, List.pairwise_cons, List.forall_mem_cons] at h ⊢
      exact ⟨⟨hyx, h.2.1⟩, h.1.2, h.2.2⟩
  | succ n ih =>
    cases xs with
    | nil => cases hx
    | cons z rest =>
      rw [List.pairwise_cons] at h
      refine .cons (fun w hw => h.1 w ((swapAt_perm n rest).subset hw)) (ih h.2 hx hy)

theorem withUnits_congr (a : Aggregate μ) {units others : List (PackingUnit μ)}
    (h : units.map (·.members) = others.map (·.members)) :
    a.withUnits units = a.withUnits others := by
  unfold Aggregate.withUnits
  rw [List.flatMap_def, List.flatMap_def, h]

namespace PackingUnit

theorem map_members_renumber {k : Nat} {units : List (PackingUnit μ)} :
    (renumber k units).map (·.members) = units.map (·.members) := by
  unfold renumber
  conv_rhs => rw [← @map_fst_places _ _ units k]
  rw [List.map_map, List.map_map]
  rfl

theorem getElem?_renumber {k n : Nat} {units : List (PackingUnit μ)} {u : PackingUnit μ}
    (h : (renumber k units)[n]? = some u) :
    ∃ v i, units[n]? = some v ∧ u = v.moveTo i := by
  unfold renumber at h
  rw [List.getElem?_map] at h
  obtain ⟨x, hx, rfl⟩ := Option.map_eq_some_iff.mp h
  refine ⟨x.1, x.2, ?_, rfl⟩
  rw [← @map_fst_places _ _ units k, List.getElem?_map, hx]
  rfl

structure Ordered (rules : PackingRules) (g : Member μ → TypeDescriptor μ)
    (units : List (PackingUnit μ)) : Prop where
  made : ∀ u ∈ units, Made rules g u
  apart : Apart rules units
  strict : units.Pairwise fun u v => v.alignment.val ≤ u.alignment.val

end PackingUnit

open PackingUnit

namespace Target

variable {t : Target μ} {rules : PackingRules} {g : Member μ → TypeDescriptor μ}
  {s s' : Arrangement μ} {n : Nat}

theorem exchange_ordered (hs : Ordered rules g s.units) (h : t.exchange s n = .ok s') :
    Ordered rules g s'.units := by
  rcases exchange_eq_ok h with rfl | ⟨u, v, hu, hv, halign, harrange, _⟩
  · exact hs
  · obtain ⟨hunits, _⟩ := arrange_eq_ok.mp harrange
    have hp := swapAt_perm n s.units
    rw [hunits]
    refine ⟨fun w hw => hs.made w (hp.subset hw), hs.apart.perm hp.symm, ?_⟩
    exact pairwise_swapAt hs.strict hu hv halign.le

def Settled (t : Target μ) (s : Arrangement μ) : Prop :=
  t.straddling s = 0 ∨ ∀ n, t.exchange s n = .ok s

theorem foldlM_exchange_cases {ns : List Nat} (h : ns.foldlM t.exchange s = .ok s') :
    t.straddling s' < t.straddling s ∨ s' = s ∧ ∀ n ∈ ns, t.exchange s n = .ok s := by
  induction ns generalizing s with
  | nil =>
    obtain rfl := Except.ok.inj h
    exact .inr ⟨rfl, fun n hn => (nomatch hn)⟩
  | cons n rest ih =>
    rw [List.foldlM_cons, except_bind_eq_ok] at h
    obtain ⟨s₁, hstep, h⟩ := h
    -- After an exchange that was made, the rest of the pass cannot undo what it gained.
    rcases exchange_eq_ok hstep with rfl | ⟨_, _, _, _, _, _, _, hless⟩
    · rcases ih h with hless | ⟨rfl, hrest⟩
      · exact .inl hless
      · exact .inr ⟨rfl, List.forall_mem_cons.mpr ⟨hstep, hrest⟩⟩
    · rcases ih h with hless' | ⟨rfl, _⟩
      · exact .inl (hless'.trans hless)
      · exact .inl hless

theorem exchange_of_le (h : s.units.length ≤ n + 1) : t.exchange s n = .ok s := by
  have hnone : s.units[n + 1]? = none := List.getElem?_eq_none h
  unfold exchange
  rw [hnone]
  cases s.units[n]? <;> rfl

theorem exchangeAll_cases (h : t.exchangeAll s = .ok s') :
    t.straddling s' < t.straddling s ∨ s' = s ∧ t.Settled s := by
  rcases foldlM_exchange_cases h with hless | ⟨hsame, hall⟩
  · exact .inl hless
  · refine .inr ⟨hsame, .inr fun n => ?_⟩
    by_cases hn : n < s.units.length - 1
    · exact hall n (List.mem_range.mpr hn)
    · exact exchange_of_le (by omega)

theorem settle_settled {passes : Nat} (hpasses : t.straddling s ≤ passes)
    (h : t.settle passes s = .ok s') : t.Settled s' := by
  -- A pass that is followed by another one has lowered the number of groups that straddle.
  induction passes generalizing s with
  | zero =>
    obtain rfl := Except.ok.inj h
    exact .inl (Nat.le_zero.mp hpasses)
  | succ passes ih =>
    unfold settle at h
    split at h
    · next hzero =>
      obtain rfl := Except.ok.inj h
      exact .inl (beq_iff_eq.mp hzero)
    · obtain ⟨next, hnext, h⟩ := except_bind_eq_ok.mp h
      split at h
      · next hless => exact ih (by omega) h
      · next hmore =>
        obtain rfl := Except.ok.inj h
        rcases exchangeAll_cases hnext with hless | ⟨rfl, hsettled⟩
        · exact absurd hless hmore
        · exact hsettled

theorem exchangeAll_eq_self (h : ∀ n, t.exchange s n = .ok s) : t.exchangeAll s = .ok s := by
  unfold exchangeAll
  induction List.range (s.units.length - 1) with
  | nil => rfl
  | cons n rest ih =>
    rw [List.foldlM_cons, h n]
    exact ih

theorem Settled.settle (h : t.Settled s) (passes : Nat) : t.settle passes s = .ok s := by
  cases passes with
  | zero => rfl
  | succ passes =>
    unfold Target.settle
    split
    · rfl
    · next hne =>
      rcases h with hzero | hall
      · exact absurd (beq_iff_eq.mpr hzero) hne
      · rw [exchangeAll_eq_self hall]
        exact if_neg (lt_irrefl _)

theorem exchange_eq_self :
    t.exchange s n = .ok s ↔ ∀ u v, s.units[n]? = some u → s.units[n + 1]? = some v →
      u.alignment.val = v.alignment.val → (u.tag?.isSome ∨ v.tag?.isSome) →
      ∃ trial, t.arrange s.aggregate (swapAt n s.units) = .ok trial ∧
        ¬ (trial.layout.totalSize ≤ s.layout.totalSize ∧ t.straddling trial < t.straddling s) := by
  constructor
  · intro h u v hu hv halign htag
    have hmove :
        ¬ (u.alignment.val ≠ v.alignment.val || (u.tag?.isNone && v.tag?.isNone)) = true := by
      rcases htag with htag | htag
      · simp [halign, Option.isSome_iff_ne_none.mp htag]
      · simp [halign, Option.isSome_iff_ne_none.mp htag]
    unfold exchange at h
    rw [hu, hv] at h
    dsimp only at h
    rw [if_neg hmove] at h
    obtain ⟨trial, htrial, h⟩ := except_bind_eq_ok.mp h
    refine ⟨trial, htrial, fun hbetter => ?_⟩
    rw [if_pos (by simpa using hbetter)] at h
    obtain rfl := Except.ok.inj h
    exact lt_irrefl _ hbetter.2
  · intro h
    unfold exchange
    split
    · next u v hu hv =>
      split
      · rfl
      · next hmove =>
        simp only [ne_eq, Bool.or_eq_true, decide_eq_true_eq, not_or, not_not, Bool.and_eq_true,
          Option.isNone_iff_eq_none, not_and_or, ← Option.isSome_iff_ne_none] at hmove
        obtain ⟨trial, htrial, hworse⟩ := h u v hu hv hmove.1 hmove.2
        rw [htrial]
        exact if_neg (by simpa using hworse)
    · rfl

theorem arrange_eq_ok_of_members {a b : Aggregate μ} {units others : List (PackingUnit μ)}
    (h : t.arrange a units = .ok s)
    (hab : b.withUnits others = a.withUnits units) :
    t.arrange b others = .ok { s with units := others } := by
  obtain ⟨_, ha, hl⟩ := arrange_eq_ok.mp h
  exact arrange_eq_ok.mpr ⟨rfl, ha.trans hab.symm, hl⟩

theorem Settled.renumber (h : t.Settled s) (k : Nat) :
    t.Settled { s with units := renumber k s.units } := by
  refine h.imp id fun hall n => exchange_eq_self.mpr fun u v hu hv halign htag => ?_
  obtain ⟨u', i, hu', rfl⟩ := getElem?_renumber hu
  obtain ⟨v', j, hv', rfl⟩ := getElem?_renumber hv
  obtain ⟨trial, htrial, hworse⟩ := exchange_eq_self.mp (hall n) u' v' hu' hv' halign htag
  have hsame : s.aggregate.withUnits (swapAt n (PackingUnit.renumber k s.units)) =
      s.aggregate.withUnits (swapAt n s.units) := by
    apply withUnits_congr
    rw [map_swapAt, map_swapAt, map_members_renumber]
  exact ⟨_, arrange_eq_ok_of_members htrial hsame, hworse⟩

end Target

end AggregateLayout
