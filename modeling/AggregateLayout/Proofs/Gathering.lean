import Mathlib
import AggregateLayout.Proofs.Arranging

namespace AggregateLayout

variable {μ : Type} [Measure μ]

namespace PackingUnit

def extend (u : PackingUnit μ) (m : Member μ) (alignment : PowerOfTwo) : PackingUnit μ :=
  { u with members := u.members ++ [m], alignment := u.alignment.max alignment }

inductive Made (rules : PackingRules) (g : Member μ → TypeDescriptor μ) : PackingUnit μ → Prop
  | single (m : Member μ) (position : Nat) :
    Made rules g { members := [m], alignment := (g m).alignment, position }
  | joined {u : PackingUnit μ} {m : Member μ} {tag : String} (h : Made rules g u)
    (hrules : rules.preserveGroups = true) (hu : u.tag? = some tag) (hm : m.tag? = some tag) :
    Made rules g (u.extend m (g m).alignment)

def tags (units : List (PackingUnit μ)) : List String := units.filterMap tag?

def places : Nat → List (PackingUnit μ) → List (PackingUnit μ × Nat)
  | _, [] => []
  | n, u :: rest => (u, n) :: places (n + u.members.length) rest

def moveTo (u : PackingUnit μ) (n : Nat) : PackingUnit μ := { u with position := n }

def renumber (n : Nat) (units : List (PackingUnit μ)) : List (PackingUnit μ) :=
  (places n units).map fun x => x.1.moveTo x.2

def entries (g : Member μ → TypeDescriptor μ) (n : Nat) (ms : List (Member μ)) :
    List ((Member μ × TypeDescriptor μ) × Nat) :=
  (ms.map fun m => (m, g m)).zipIdx n

variable {rules : PackingRules} {g : Member μ → TypeDescriptor μ} {u : PackingUnit μ}
  {units before after : List (PackingUnit μ)} {m : Member μ} {tag : String}
  {alignment : PowerOfTwo} {position n : Nat}

namespace Made

theorem members_ne_nil (h : Made rules g u) : u.members ≠ [] := by
  cases h <;> simp [extend]

theorem tag?_extend (h : Made rules g u) : (u.extend m alignment).tag? = u.tag? := by
  cases hm : u.members with
  | nil => exact absurd hm h.members_ne_nil
  | cons n rest => simp [tag?, extend, hm]

theorem tag?_of_mem (h : Made rules g u) (hm : m ∈ u.members) : m.tag? = u.tag? := by
  induction h with
  | single n position =>
    obtain rfl := List.mem_singleton.mp hm
    rfl
  | joined h _ hu hn ih =>
    rw [h.tag?_extend]
    rcases List.mem_append.mp hm with hm | hm
    · exact ih hm
    · obtain rfl := List.mem_singleton.mp hm
      exact hn.trans hu.symm

end Made

theorem not_mem_tags_cons :
    tag ∉ tags (u :: units) ↔ u.tag? ≠ some tag ∧ tag ∉ tags units := by
  simp [tags, List.mem_filterMap]

theorem tags_append (units others : List (PackingUnit μ)) :
    tags (units ++ others) = tags units ++ tags others := List.filterMap_append

theorem mem_tags : tag ∈ tags units ↔ ∃ u ∈ units, u.tag? = some tag := List.mem_filterMap

theorem mem_tags_single : tag ∈ tags [u] ↔ u.tag? = some tag := by
  simp [mem_tags]

theorem nodup_tags_single (u : PackingUnit μ) : (tags [u]).Nodup := by
  unfold tags
  cases hu : u.tag? <;> simp [hu]

theorem tags_extend (h : Made rules g u) :
    tags (before ++ u.extend m alignment :: after) = tags (before ++ u :: after) := by
  simp only [tags, List.filterMap_append, List.filterMap_cons, h.tag?_extend]

theorem add_eq_join (hrules : rules.preserveGroups = true) (hm : m.tag? = some tag) :
    add rules m alignment position units = join tag m alignment position units := by
  unfold add
  rw [hm, hrules]
  rfl

theorem join_append (h : tag ∉ tags before) :
    join tag m alignment position (before ++ after) =
      before ++ join tag m alignment position after := by
  induction before with
  | nil => rfl
  | cons u rest ih =>
    obtain ⟨hu, hrest⟩ := not_mem_tags_cons.mp h
    rw [List.cons_append, join, if_neg (by simpa using hu), ih hrest]
    rfl

theorem join_cases (tag : String) (m : Member μ) (alignment : PowerOfTwo) (position : Nat)
    (units : List (PackingUnit μ)) :
    (∃ before u after, u.tag? = some tag ∧ units = before ++ u :: after ∧
        join tag m alignment position units = before ++ u.extend m alignment :: after) ∨
      tag ∉ tags units ∧ join tag m alignment position units =
        units ++ [{ members := [m], alignment, position }] := by
  induction units with
  | nil => exact .inr ⟨List.not_mem_nil, rfl⟩
  | cons u rest ih =>
    by_cases hu : u.tag? = some tag
    · refine .inl ⟨[], u, rest, hu, rfl, ?_⟩
      rw [join, if_pos (by simpa using hu)]
      rfl
    · rw [join, if_neg (by simpa using hu)]
      rcases ih with ⟨before, v, after, hv, rfl, heq⟩ | ⟨hrest, heq⟩
      · exact .inl ⟨u :: before, v, after, hv, rfl, by rw [heq]; rfl⟩
      · exact .inr ⟨not_mem_tags_cons.mpr ⟨hu, hrest⟩, by rw [heq]; rfl⟩

theorem add_cases (rules : PackingRules) (m : Member μ) (alignment : PowerOfTwo) (position : Nat)
    (units : List (PackingUnit μ)) :
    (∃ tag before u after, rules.preserveGroups = true ∧ m.tag? = some tag ∧ u.tag? = some tag ∧
        units = before ++ u :: after ∧
        add rules m alignment position units = before ++ u.extend m alignment :: after) ∨
      (rules.preserveGroups = true → ∀ tag, m.tag? = some tag → tag ∉ tags units) ∧
        add rules m alignment position units =
          units ++ [{ members := [m], alignment, position }] := by
  unfold add
  cases hm : m.tag? with
  | none => exact .inr ⟨fun _ tag h => absurd h (Option.some_ne_none tag).symm, rfl⟩
  | some tag =>
    cases rules.preserveGroups with
    | false => exact .inr ⟨fun h => absurd h Bool.false_ne_true, rfl⟩
    | true =>
      rcases join_cases tag m alignment position units with
        ⟨before, u, after, hu, hunits, heq⟩ | ⟨hnone, heq⟩
      · exact .inl ⟨tag, before, u, after, rfl, rfl, hu, hunits, heq⟩
      · refine .inr ⟨fun _ tag' h => ?_, heq⟩
        obtain rfl := Option.some.inj h
        exact hnone

/-- No two units are of one group that is preserved. -/
def Apart (rules : PackingRules) (units : List (PackingUnit μ)) : Prop :=
  rules.preserveGroups = true → (tags units).Nodup

theorem Apart.perm {others : List (PackingUnit μ)} (h : Apart rules units)
    (hp : units.Perm others) : Apart rules others :=
  fun hrules => (hp.filterMap tag?).nodup_iff.mp (h hrules)

structure Gathered (rules : PackingRules) (g : Member μ → TypeDescriptor μ) (n : Nat)
    (units : List (PackingUnit μ)) : Prop where
  made : ∀ u ∈ units, Made rules g u
  apart : Apart rules units
  below : ∀ k ∈ units.map PackingUnit.position, k < n
  distinct : (units.map PackingUnit.position).Nodup

theorem Gathered.add (h : Gathered rules g n units) (m : Member μ) :
    Gathered rules g (n + 1) (add rules m (g m).alignment n units) := by
  have below : ∀ k ∈ units.map PackingUnit.position, k < n + 1 :=
    fun k hk => (h.below k hk).trans n.lt_succ_self
  rcases add_cases rules m (g m).alignment n units with
    ⟨tag, before, u, after, hrules, hm, hu, rfl, heq⟩ | ⟨hnone, heq⟩ <;> rw [heq]
  · have hmade := h.made u (by simp)
    -- The unit that is joined stays at its place and in its group.
    have hplaces : (before ++ u.extend m (g m).alignment :: after).map PackingUnit.position =
        (before ++ u :: after).map PackingUnit.position := by
      rw [List.map_append, List.map_cons, List.map_append, List.map_cons]
      rfl
    refine ⟨?_, fun hrules => ?_, hplaces ▸ below, hplaces ▸ h.distinct⟩
    · have hothers := h.made
      rw [List.forall_mem_append, List.forall_mem_cons] at hothers ⊢
      exact ⟨hothers.1, .joined hmade hrules hu hm, hothers.2.2⟩
    · rw [tags_extend hmade]
      exact h.apart hrules
  · refine ⟨?_, fun hrules => ?_, ?_, ?_⟩
    · exact List.forall_mem_append.mpr ⟨h.made, List.forall_mem_singleton.mpr (.single m n)⟩
    · rw [tags_append]
      refine (h.apart hrules).append (nodup_tags_single _) fun tag htag hnew => ?_
      exact hnone hrules tag (mem_tags_single.mp hnew) htag
    · rw [List.map_append]
      exact List.forall_mem_append.mpr ⟨below, List.forall_mem_singleton.mpr n.lt_succ_self⟩
    · rw [List.map_append]
      refine h.distinct.append (List.nodup_singleton n) fun k hk hnew => ?_
      obtain rfl := List.mem_singleton.mp hnew
      exact (h.below k hk).ne rfl

theorem Gathered.gather {ms : List (Member μ)} (h : Gathered rules g n units) :
    Gathered rules g (n + ms.length) (gather rules units (entries g n ms)) := by
  induction ms generalizing n units with
  | nil => exact h
  | cons m rest ih =>
    have hlength : n + (m :: rest).length = n + 1 + rest.length := by
      rw [List.length_cons]
      omega
    rw [hlength]
    exact ih (h.add m)

theorem gathered_nil : Gathered rules g n [] where
  made := fun _ hu => (nomatch hu)
  apart := fun _ => List.nodup_nil
  below := fun _ hk => (nomatch hk)
  distinct := List.nodup_nil

theorem entries_append (ms ns : List (Member μ)) :
    entries g n (ms ++ ns) = entries g n ms ++ entries g (n + ms.length) ns := by
  rw [entries, List.map_append, List.zipIdx_append, List.length_map]
  rfl

theorem gather_append (units : List (PackingUnit μ))
    (xs ys : List ((Member μ × TypeDescriptor μ) × Nat)) :
    gather rules units (xs ++ ys) = gather rules (gather rules units xs) ys :=
  List.foldl_append

theorem Made.gather_members (h : Made rules g u)
    (hnew : rules.preserveGroups = true → ∀ tag, u.tag? = some tag → tag ∉ tags units) :
    gather rules units (entries g n u.members) = units ++ [u.moveTo n] := by
  induction h with
  | single m position =>
    rcases add_cases rules m (g m).alignment n units with
      ⟨tag, before, v, after, hrules, hm, hv, rfl, _⟩ | ⟨_, heq⟩
    · exact absurd (mem_tags.mpr ⟨v, by simp, hv⟩) (hnew hrules tag hm)
    · exact heq
  | @joined u m tag h hrules hu hm ih =>
    have hextend : (u.extend m (g m).alignment).tag? = u.tag? := h.tag?_extend
    rw [hextend] at hnew
    have hlast : join tag m (g m).alignment (n + u.members.length) [u.moveTo n] =
        [(u.moveTo n).extend m (g m).alignment] :=
      if_pos (beq_iff_eq.mpr hu)
    change gather rules units (entries g n (u.members ++ [m])) = _
    rw [entries_append, gather_append, ih hnew]
    change PackingUnit.add rules m (g m).alignment (n + u.members.length) _ = _
    rw [add_eq_join hrules hm, join_append (hnew hrules tag hu), hlast]
    rfl

theorem gather_members (hmade : ∀ u ∈ units, Made rules g u)
    (hapart : Apart rules (before ++ units)) :
    gather rules before (entries g n (units.flatMap (·.members))) =
      before ++ renumber n units := by
  induction units generalizing before n with
  | nil => exact (List.append_nil before).symm
  | cons u rest ih =>
    rw [List.forall_mem_cons] at hmade
    have hnew (hrules : rules.preserveGroups = true) (tag : String) (hu : u.tag? = some tag) :
        tag ∉ tags before := by
      intro hmem
      have hnodup := hapart hrules
      rw [tags_append] at hnodup
      exact (List.disjoint_of_nodup_append hnodup) hmem (mem_tags.mpr ⟨u, .head _, hu⟩)
    have hnext : Apart rules ((before ++ [u.moveTo n]) ++ rest) := by
      intro hrules
      have hnodup := hapart hrules
      rw [List.append_assoc, tags_append]
      rw [tags_append] at hnodup
      exact hnodup
    rw [List.flatMap_cons, entries_append, gather_append, hmade.1.gather_members hnew,
      ih hmade.2 hnext, List.append_assoc]
    rfl

end PackingUnit

end AggregateLayout
