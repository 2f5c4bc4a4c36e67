import Mathlib
import AggregateLayout.Proofs.Findings

namespace AggregateLayout

namespace TypeName

theorem star_suffix_trim {cs : List Char} (h : ['*'] <:+ cs) : ['*'] <:+ Text.trimChars cs := by
  obtain ⟨front, rfl⟩ := h
  have hdrop : ∃ front', (front ++ ['*']).dropWhile Text.isBlank = front' ++ ['*'] := by
    rw [List.dropWhile_append]
    split
    · exact ⟨[], rfl⟩
    · exact ⟨_, rfl⟩
  obtain ⟨front', hfront⟩ := hdrop
  refine ⟨front', ?_⟩
  unfold Text.trimChars
  rw [hfront, List.reverse_append]
  change _ = ('*' :: front'.reverse).reverse
  rw [List.reverse_cons, List.reverse_reverse]

theorem star_suffix_collapse {cs : List Char} (h : ['*'] <:+ cs) :
    ['*'] <:+ collapseBlanks cs := by
  obtain ⟨front, rfl⟩ := h
  induction front with
  | nil => exact List.suffix_refl _
  | cons c front ih =>
    rw [List.cons_append]
    unfold collapseBlanks
    dsimp only
    split
    · exact ih.trans (List.suffix_cons _ _)
    · split
      · exact ih
      · exact ih.trans (List.suffix_cons _ _)

theorem star_suffix_tighten {cs : List Char} (h : ['*'] <:+ cs) : ['*'] <:+ tightenStars cs := by
  obtain ⟨front, rfl⟩ := h
  induction front with
  | nil => exact List.suffix_refl _
  | cons c front ih =>
    rw [List.cons_append]
    unfold tightenStars
    dsimp only
    split
    · exact ih
    · exact ih.trans (List.suffix_cons _ _)

theorem star_suffix_dropKeywords {cs : List Char} (h : ['*'] <:+ cs) :
    ['*'] <:+ dropKeywords cs := by
  unfold dropKeywords
  generalize hruns : cs.splitBy (fun a b => Text.isWord a == Text.isWord b) = runs
  have hflatten : runs.flatten = cs := hruns ▸ List.flatten_splitBy _ _
  have hnonempty : [] ∉ runs := hruns ▸ List.nil_notMem_splitBy _ _
  rcases List.eq_nil_or_concat' runs with rfl | ⟨earlier, last, rfl⟩
  · rw [← hflatten] at h
    exact absurd (List.suffix_nil.mp h) (List.cons_ne_nil _ _)
  · have hlast : ['*'] <:+ last := by
      rcases List.eq_nil_or_concat' last with rfl | ⟨front, c, rfl⟩
      · exact absurd (List.mem_append_right _ (.head _)) hnonempty
      · obtain ⟨other, hother⟩ := h
        rw [← hflatten, List.flatten_append, List.flatten_singleton, ← List.append_assoc] at hother
        rw [(List.append_inj_right' hother rfl)]
        exact List.suffix_append _ _
    have hkeyword : keywords.contains last = false := by
      have ends : ∀ word ∈ keywords, ¬ ['*'] <:+ word := by decide
      rw [Bool.eq_false_iff]
      exact fun h => ends last (List.contains_iff_mem.mp h) hlast
    rw [List.flatMap_append, List.flatMap_singleton, hkeyword]
    exact hlast.trans (List.suffix_append _ _)

theorem isPointer_normalize (name : String) : isPointer (normalize (name ++ "*")) = true := by
  have hstar : ['*'] <:+ normalizeChars (name ++ "*").toList := by
    have htrimmed : ['*'] <:+ Text.trimChars (name ++ "*").toList := by
      apply star_suffix_trim
      rw [String.toList_append]
      exact List.suffix_append _ _
    unfold normalizeChars
    dsimp only
    split
    · exact htrimmed
    · apply star_suffix_tighten
      apply star_suffix_trim
      apply star_suffix_collapse
      exact star_suffix_dropKeywords htrimmed
  obtain ⟨front, hfront⟩ := hstar
  unfold isPointer normalize
  rw [String.toList_ofList, ← hfront, List.getLast?_concat]
  rfl

end TypeName

theorem Table.find?_foldl_insert {α β : Type} (key : β → String) (value : β → α) (xs : List β)
    (t : Table α) (k : String) :
    (∃ x ∈ xs, key x = k ∧
      find? k (xs.foldl (fun t x => insert (key x) (value x) t) t) = some (value x)) ∨
      (∀ x ∈ xs, key x ≠ k) ∧
        find? k (xs.foldl (fun t x => insert (key x) (value x) t) t) = find? k t := by
  induction xs generalizing t with
  | nil => exact .inr ⟨fun _ h => absurd h List.not_mem_nil, rfl⟩
  | cons x rest ih =>
    rw [List.foldl_cons]
    rcases ih (insert (key x) (value x) t) with ⟨y, hy, hkey, hfind⟩ | ⟨hrest, hfind⟩
    · exact .inl ⟨y, .tail _ hy, hkey, hfind⟩
    · rw [Table.find?_insert] at hfind
      split at hfind
      · next hkey => exact .inl ⟨x, .head _, hkey, hfind⟩
      · next hkey => exact .inr ⟨List.forall_mem_cons.mpr ⟨hkey, hrest⟩, hfind⟩

namespace Catalog

variable {μ : Type} [Measure μ]

theorem foldl_register_keeps (ds : List (TypeDescriptor μ)) (c : Catalog μ) :
    (ds.foldl register c).profile = c.profile ∧ (ds.foldl register c).aliases = c.aliases ∧
      (ds.foldl register c).aggregates = c.aggregates := by
  induction ds generalizing c with
  | nil => exact ⟨rfl, rfl, rfl⟩
  | cons d rest ih => exact ih (c.register d)

theorem types_foldl_register (ds : List (TypeDescriptor μ)) (c : Catalog μ) :
    (ds.foldl register c).types =
      ds.foldl (fun t d => t.insert (TypeName.normalize d.name) d) c.types := by
  induction ds generalizing c with
  | nil => rfl
  | cons d rest ih => exact ih (c.register d)

def registerAliases (c : Catalog μ) (names : List (String × String)) : Catalog μ :=
  names.foldl (fun c (name, target) => c.registerAlias name target) c

theorem registerAliases_keeps (names : List (String × String)) (c : Catalog μ) :
    (c.registerAliases names).profile = c.profile ∧ (c.registerAliases names).types = c.types ∧
      (c.registerAliases names).aggregates = c.aggregates := by
  induction names generalizing c with
  | nil => exact ⟨rfl, rfl, rfl⟩
  | cons x rest ih => exact ih (c.registerAlias x.1 x.2)

theorem aliases_registerAliases (names : List (String × String)) (c : Catalog μ) :
    (c.registerAliases names).aliases =
      names.foldl (fun t x => t.insert (TypeName.normalize x.1) (TypeName.normalize x.2))
        c.aliases := by
  induction names generalizing c with
  | nil => rfl
  | cons x rest ih => exact ih (c.registerAlias x.1 x.2)

theorem ofProfile_eq (p : MachineProfile μ) :
    ofProfile p = ((primitives p).foldl register { profile := p }).registerAliases spellings := rfl

theorem profile_ofProfile (p : MachineProfile μ) : (ofProfile p).profile = p := by
  rw [ofProfile_eq, (registerAliases_keeps _ _).1, (foldl_register_keeps _ _).1]

theorem aggregates_ofProfile (p : MachineProfile μ) : (ofProfile p).aggregates = [] := by
  rw [ofProfile_eq, (registerAliases_keeps _ _).2.2, (foldl_register_keeps _ _).2.2]

theorem find?_aliases_ofProfile {p : MachineProfile μ} {k target : String}
    (h : (ofProfile p).aliases.find? k = some target) :
    (∃ s ∈ spellings, TypeName.normalize s.1 = k ∧ TypeName.normalize s.2 = target) := by
  rw [ofProfile_eq, aliases_registerAliases, (foldl_register_keeps _ _).2.1] at h
  rcases Table.find?_foldl_insert (fun s : String × String => TypeName.normalize s.1)
    (fun s => TypeName.normalize s.2) spellings [] k with ⟨s, hs, hkey, hfind⟩ | ⟨_, hfind⟩
  · exact ⟨s, hs, hkey, Option.some.inj (hfind.symm.trans h)⟩
  · cases hfind.symm.trans h

theorem contains_types_ofProfile {p : MachineProfile μ} {d : TypeDescriptor μ}
    (hd : d ∈ primitives p) : (ofProfile p).types.contains (TypeName.normalize d.name) := by
  unfold Table.contains
  rw [ofProfile_eq, (registerAliases_keeps _ _).2.1, types_foldl_register]
  rcases Table.find?_foldl_insert (fun d : TypeDescriptor μ => TypeName.normalize d.name) id
    (primitives p) [] (TypeName.normalize d.name) with ⟨_, _, _, hfind⟩ | ⟨hnone, _⟩
  · exact Option.isSome_of_eq_some hfind
  · exact absurd rfl (hnone d hd)

section Aliases

theorem follow_induction {P : String → Prop} {aliases : Table String}
    (hnext : ∀ k target, P k → aliases.find? k = some target → P target) (steps : Nat)
    (seen : List String) {name : String} (hname : P name) :
    P (follow aliases steps seen name) := by
  induction steps generalizing seen name with
  | zero => exact hname
  | succ steps ih =>
    unfold follow
    split
    · exact hname
    · split
      · exact hname
      · next target htarget => exact ih _ (hnext name target hname htarget)

def next? (aliases : Table String) (k : String) : Option String :=
  (aliases.find? k).filter (· != k)

variable {aliases aliases' : Table String} {k target : String} {seen : List String}

theorem next?_eq_some :
    next? aliases k = some target ↔ aliases.find? k = some target ∧ target ≠ k := by
  unfold next?
  rw [Option.filter_eq_some_iff, bne_iff_ne]

theorem follow_of_mem (hk : k ∈ seen) (steps : Nat) : follow aliases steps seen k = k := by
  cases steps with
  | zero => rfl
  | succ steps =>
    unfold follow
    rw [if_pos (List.contains_iff_mem.mpr hk)]

theorem follow_of_none (h : next? aliases k = none) (steps : Nat) :
    follow aliases steps seen k = k := by
  cases steps with
  | zero => rfl
  | succ steps =>
    unfold follow
    split
    · rfl
    · split
      · rfl
      · next other hother =>
        by_cases hself : other = k
        · rw [hself]
          exact follow_of_mem (.head _) steps
        · cases h.symm.trans (next?_eq_some.mpr ⟨hother, hself⟩)

theorem follow_succ (hk : k ∉ seen) (h : next? aliases k = some target) (steps : Nat) :
    follow aliases (steps + 1) seen k = follow aliases steps (k :: seen) target := by
  rw [next?_eq_some] at h
  rw [follow, if_neg (fun hmem => hk (List.contains_iff_mem.mp hmem)), h.1]

structure StepsLeft (aliases : Table String) (steps : Nat) (seen : List String) : Prop where
  nodup : seen.Nodup
  keys : seen ⊆ aliases.map (·.1)
  enough : aliases.length ≤ steps + seen.length

namespace StepsLeft

variable {steps : Nat}

theorem start (aliases : Table String) : StepsLeft aliases aliases.length [] :=
  ⟨List.nodup_nil, List.nil_subset _, Nat.le_refl _⟩

theorem cons_keys (h : StepsLeft aliases steps seen) (hfind : aliases.find? k = some target) :
    k :: seen ⊆ aliases.map (·.1) :=
  List.cons_subset.mpr ⟨List.mem_map_of_mem (Table.mem_of_find? hfind), h.keys⟩

theorem pos (h : StepsLeft aliases steps seen) (hk : k ∉ seen)
    (hfind : aliases.find? k = some target) : 0 < steps := by
  have hle : (k :: seen).length ≤ (aliases.map (·.1)).length :=
    (List.Nodup.subperm (List.nodup_cons.mpr ⟨hk, h.nodup⟩) (h.cons_keys hfind)).length_le
  have henough := h.enough
  rw [List.length_cons, List.length_map] at hle
  omega

theorem next (h : StepsLeft aliases (steps + 1) seen) (hk : k ∉ seen)
    (hfind : aliases.find? k = some target) : StepsLeft aliases steps (k :: seen) := by
  refine ⟨List.nodup_cons.mpr ⟨hk, h.nodup⟩, h.cons_keys hfind, ?_⟩
  have henough := h.enough
  rw [List.length_cons]
  omega

end StepsLeft

theorem follow_eq {C : String → Prop} (hnext : ∀ k, C k → next? aliases k = next? aliases' k)
    (hclosed : ∀ k target, C k → next? aliases k = some target → C target) (steps steps' : Nat)
    (hk : C k) (h : StepsLeft aliases steps seen) (h' : StepsLeft aliases' steps' seen) :
    follow aliases steps seen k = follow aliases' steps' seen k := by
  -- The tables differ in length, so that the two chains do not have the same number of steps.
  induction steps generalizing steps' seen k with
  | zero =>
    by_cases hmem : k ∈ seen
    · rw [follow_of_mem hmem, follow_of_mem hmem]
    · cases hfind : next? aliases k with
      | none => rw [follow_of_none hfind, follow_of_none (hnext k hk ▸ hfind)]
      | some target => exact absurd (h.pos hmem (next?_eq_some.mp hfind).1) (lt_irrefl 0)
  | succ steps ih =>
    by_cases hmem : k ∈ seen
    · rw [follow_of_mem hmem, follow_of_mem hmem]
    · cases hfind : next? aliases k with
      | none => rw [follow_of_none hfind, follow_of_none (hnext k hk ▸ hfind)]
      | some target =>
        have hfind' : next? aliases' k = some target := hnext k hk ▸ hfind
        have hleads := (next?_eq_some.mp hfind).1
        have hleads' := (next?_eq_some.mp hfind').1
        obtain ⟨steps', rfl⟩ := Nat.exists_eq_add_of_le' (h'.pos hmem hleads')
        rw [follow_succ hmem hfind, follow_succ hmem hfind']
        exact ih steps' (hclosed k target hk hfind) (h.next hmem hleads) (h'.next hmem hleads')

variable {c c' : Catalog μ} {name : String}

theorem resolve_of_none (h : next? c.aliases (TypeName.normalize name) = none) :
    c.resolve name = TypeName.normalize name :=
  follow_of_none h _

theorem resolve_of_next (h : next? c.aliases (TypeName.normalize name) = some target)
    (htarget : next? c.aliases target = none) : c.resolve name = target := by
  have hpos := (StepsLeft.start c.aliases).pos List.not_mem_nil (next?_eq_some.mp h).1
  obtain ⟨steps, hsteps⟩ := Nat.exists_eq_add_of_le' hpos
  unfold resolve
  rw [hsteps, follow_succ List.not_mem_nil h, follow_of_none htarget]

theorem resolve_eq {C : String → Prop} (hnext : ∀ k, C k → next? c.aliases k = next? c'.aliases k)
    (hclosed : ∀ k target, C k → next? c.aliases k = some target → C target)
    (hname : C (TypeName.normalize name)) : c.resolve name = c'.resolve name :=
  follow_eq hnext hclosed _ _ hname (.start _) (.start _)

end Aliases

theorem names_primitives (p q : MachineProfile μ) :
    (primitives p).map (·.name) = (primitives q).map (·.name) := rfl

theorem enum_mem_primitives (p : MachineProfile Quantity) :
    "enum" ∈ (primitives p).map (·.name) := by
  rw [names_primitives p .lp64]
  decide

theorem spelling_mem_primitives (p : MachineProfile Quantity) :
    ∀ s ∈ spellings, s.2 ∈ (primitives p).map (·.name) := by
  rw [names_primitives p .lp64]
  decide

theorem spelling_ne {s s' : String × String} (hs : s ∈ spellings) (hs' : s' ∈ spellings) :
    TypeName.normalize s.2 ≠ TypeName.normalize s'.1 := by
  have apart : ∀ s ∈ spellings, ∀ s' ∈ spellings,
      TypeName.normalize s.2 ≠ TypeName.normalize s'.1 := by decide
  exact apart s hs s' hs'

end Catalog

namespace Description

open Catalog

variable {c : Catalog Quantity} {d : TypeDescriptor Quantity} {k : String}

theorem registerFallback_keeps (c : Catalog Quantity) (d : TypeDescriptor Quantity) :
    (registerFallback c d).profile = c.profile ∧ (registerFallback c d).aliases = c.aliases ∧
      (registerFallback c d).aggregates = c.aggregates := by
  unfold registerFallback
  split <;> exact ⟨rfl, rfl, rfl⟩

theorem foldl_registerFallback_keeps (ds : List (TypeDescriptor Quantity))
    (c : Catalog Quantity) :
    (ds.foldl registerFallback c).profile = c.profile ∧
      (ds.foldl registerFallback c).aliases = c.aliases ∧
      (ds.foldl registerFallback c).aggregates = c.aggregates := by
  induction ds generalizing c with
  | nil => exact ⟨rfl, rfl, rfl⟩
  | cons d rest ih =>
    obtain ⟨hprofile, haliases, haggregates⟩ := ih (registerFallback c d)
    obtain ⟨hprofile', haliases', haggregates'⟩ := registerFallback_keeps c d
    exact ⟨hprofile.trans hprofile', haliases.trans haliases', haggregates.trans haggregates'⟩

theorem contains_registerFallback (h : c.types.contains k) :
    (registerFallback c d).types.contains k := by
  unfold registerFallback
  split
  · exact h
  · exact Table.contains_insert.mpr (.inr h)

theorem contains_foldl_registerFallback (ds : List (TypeDescriptor Quantity))
    (h : c.types.contains k) : (ds.foldl registerFallback c).types.contains k := by
  induction ds generalizing c with
  | nil => exact h
  | cons d rest ih => exact ih (contains_registerFallback h)

theorem resolve_registerFallback (name : String) :
    (registerFallback c d).resolve name = c.resolve name := by
  unfold resolve
  rw [(registerFallback_keeps c d).2.1]

theorem contains_fallback {ds : List (TypeDescriptor Quantity)} (hd : d ∈ ds)
    (hresolve : c.resolve d.name = TypeName.normalize d.name) :
    (ds.foldl registerFallback c).types.contains (TypeName.normalize d.name) ∨
      c.aggregates.contains (TypeName.normalize d.name) ∨
      TypeName.isPointer (TypeName.normalize d.name) := by
  induction ds generalizing c with
  | nil => cases hd
  | cons d' rest ih =>
    rcases List.mem_cons.mp hd with rfl | hd
    · by_cases hcontains : c.contains d.name
      · have hmeans := hcontains
        unfold Catalog.contains at hmeans
        rw [hresolve, Bool.or_eq_true, Bool.or_eq_true, or_assoc] at hmeans
        refine hmeans.imp_left fun h => ?_
        exact contains_foldl_registerFallback rest (contains_registerFallback h)
      · refine .inl (contains_foldl_registerFallback rest ?_)
        unfold registerFallback
        rw [if_neg hcontains]
        exact Table.contains_insert.mpr (.inl rfl)
    · rw [← (registerFallback_keeps c d').2.2]
      exact ih hd ((resolve_registerFallback _).trans hresolve)

def Plain (c : Catalog Quantity) (name : String) : Prop :=
  c.resolve name = TypeName.normalize name ∨ c.types.contains (c.resolve name)

theorem Plain.registerFallback {name : String} (h : Plain c name) :
    Plain (registerFallback c d) name := by
  unfold Plain
  rw [resolve_registerFallback]
  exact h.imp_right contains_registerFallback

theorem find?_foldl_registerFallback {ds : List (TypeDescriptor Quantity)}
    (hds : ∀ f ∈ ds, Plain c f.name) (k : String) :
    (ds.foldl registerFallback c).types.find? k = c.types.find? k ∨
      c.types.find? k = none ∧ ∃ f ∈ ds, TypeName.normalize f.name = k ∧ c.resolve f.name = k ∧
        TypeName.isPointer k = false ∧
        (ds.foldl registerFallback c).types.find? k = some f := by
  induction ds generalizing c with
  | nil => exact .inl rfl
  | cons f rest ih =>
    obtain ⟨hf, hrest⟩ := List.forall_mem_cons.mp hds
    have hnext := ih (c := registerFallback c f) fun f' hf' => (hrest f' hf').registerFallback
    simp only [resolve_registerFallback] at hnext
    rw [List.foldl_cons]
    by_cases hcontains : c.contains f.name
    · have hsame : registerFallback c f = c := if_pos hcontains
      rw [hsame] at hnext ⊢
      refine hnext.imp_right fun ⟨hnone, f', hf', hfind⟩ => ⟨hnone, f', .tail _ hf', hfind⟩
    · have hadded :
          (registerFallback c f).types = c.types.insert (TypeName.normalize f.name) f := by
        unfold registerFallback
        rw [if_neg hcontains]
        rfl
      have hmissing := Bool.eq_false_iff.mpr hcontains
      unfold Catalog.contains at hmissing
      dsimp only at hmissing
      rw [Bool.or_eq_false_iff, Bool.or_eq_false_iff] at hmissing
      obtain ⟨⟨htypes, _⟩, hpointer⟩ := hmissing
      have hresolve : c.resolve f.name = TypeName.normalize f.name :=
        hf.resolve_right (Bool.eq_false_iff.mp htypes)
      rw [hresolve] at htypes hpointer
      rw [hadded, Table.find?_insert] at hnext
      rcases hnext with hfind | ⟨hnone, f', hf', hfind⟩
      · split at hfind
        · next hk =>
          refine .inr ⟨?_, f, .head _, hk, hresolve.trans hk, hk ▸ hpointer, hfind⟩
          exact hk ▸ Option.not_isSome_iff_eq_none.mp (Bool.eq_false_iff.mp htypes)
        · exact .inl hfind
      · split at hnone
        · cases hnone
        · exact .inr ⟨hnone, f', .tail _ hf', hfind⟩

theorem defineAll_keeps (as : List (Aggregate Quantity)) (c : Catalog Quantity) :
    (defineAll as c).profile = c.profile ∧ (defineAll as c).aliases = c.aliases ∧
      (defineAll as c).types = c.types := by
  induction as generalizing c with
  | nil => exact ⟨rfl, rfl, rfl⟩
  | cons a rest ih =>
    have hstep : ((c.define? a).getD c).profile = c.profile ∧
        ((c.define? a).getD c).aliases = c.aliases ∧ ((c.define? a).getD c).types = c.types := by
      unfold define?
      split <;> exact ⟨rfl, rfl, rfl⟩
    obtain ⟨hprofile, haliases, htypes⟩ := ih ((c.define? a).getD c)
    exact ⟨hprofile.trans hstep.1, haliases.trans hstep.2.1, htypes.trans hstep.2.2⟩

theorem aggregates_defineAll {as : List (Aggregate Quantity)}
    (has : ∀ a ∈ as, a.name.isEmpty = false) (c : Catalog Quantity) :
    (defineAll as c).aggregates =
      as.foldl (fun t a => Table.insert (TypeName.normalize a.name) a t) c.aggregates := by
  induction as generalizing c with
  | nil => rfl
  | cons a rest ih =>
    obtain ⟨ha, hrest⟩ := List.forall_mem_cons.mp has
    have hstep : c.define? a =
        some { c with aggregates := c.aggregates.insert (TypeName.normalize a.name) a } := by
      unfold define?
      rw [ha]
      rfl
    change (defineAll rest ((c.define? a).getD c)).aggregates = _
    rw [hstep]
    exact ih hrest _

section Catalog

variable (d : Description) (p : MachineProfile Quantity)

/-- The catalog before the fallback types. -/
def named : Catalog Quantity :=
  (d.types.foldl Catalog.register (Catalog.ofProfile p)).registerAliases d.aliases

theorem catalog_eq :
    d.catalog p = defineAll (d.definitions ++ d.aggregates)
      (d.fallbackTypes.foldl registerFallback (d.named p)) := rfl

theorem aliases_catalog : (d.catalog p).aliases = (d.named p).aliases := by
  rw [catalog_eq, (defineAll_keeps _ _).2.1, (foldl_registerFallback_keeps _ _).2.1]

theorem resolve_catalog (name : String) :
    (d.catalog p).resolve name = (d.named p).resolve name := by
  unfold Catalog.resolve
  rw [aliases_catalog]

theorem types_catalog :
    (d.catalog p).types = (d.fallbackTypes.foldl registerFallback (d.named p)).types := by
  rw [catalog_eq, (defineAll_keeps _ _).2.2]

theorem profile_catalog : (d.catalog p).profile = p := by
  rw [catalog_eq, (defineAll_keeps _ _).1, (foldl_registerFallback_keeps _ _).1, named,
    (registerAliases_keeps _ _).1, (foldl_register_keeps _ _).1, profile_ofProfile]

variable {d p} {k : String}

theorem types_named (htypes : d.types = []) : (d.named p).types = (Catalog.ofProfile p).types := by
  rw [named, (registerAliases_keeps _ _).2.1, htypes, List.foldl_nil]

theorem aggregates_named : (d.named p).aggregates = [] := by
  rw [named, (registerAliases_keeps _ _).2.2, (foldl_register_keeps _ _).2.2, aggregates_ofProfile]

theorem find?_aliases_catalog (d : Description) (p : MachineProfile Quantity) (k : String) :
    (∃ x ∈ d.aliases, TypeName.normalize x.1 = k ∧
      (d.catalog p).aliases.find? k = some (TypeName.normalize x.2)) ∨
      (∀ x ∈ d.aliases, TypeName.normalize x.1 ≠ k) ∧
        (d.catalog p).aliases.find? k = (Catalog.ofProfile p).aliases.find? k := by
  rw [aliases_catalog, named, aliases_registerAliases, (foldl_register_keeps _ _).2.1]
  exact Table.find?_foldl_insert (fun x : String × String => TypeName.normalize x.1)
    (fun x => TypeName.normalize x.2) d.aliases _ k

theorem find?_aggregates_catalog
    (hnames : ∀ a ∈ d.definitions ++ d.aggregates, a.name.isEmpty = false) (k : String) :
    (∃ a ∈ d.definitions ++ d.aggregates, TypeName.normalize a.name = k ∧
      (d.catalog p).aggregates.find? k = some a) ∨
      (∀ a ∈ d.definitions ++ d.aggregates, TypeName.normalize a.name ≠ k) ∧
        (d.catalog p).aggregates.find? k = none := by
  rw [catalog_eq, aggregates_defineAll hnames, (foldl_registerFallback_keeps _ _).2.2,
    aggregates_named]
  exact Table.find?_foldl_insert (fun a : Aggregate Quantity => TypeName.normalize a.name) id _ [] k

end Catalog

end Description

end AggregateLayout
