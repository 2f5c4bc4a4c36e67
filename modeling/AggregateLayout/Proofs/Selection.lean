import Mathlib
import AggregateLayout.Proofs.Agreeing
import AggregateLayout.Proofs.References

namespace AggregateLayout.DebugInfo

open AggregateLayout.TypeName (normalize)
open AggregateLayout.Catalog (next? next?_eq_some)

inductive Meaning.Agrees (k : String) : Meaning → Meaning → Prop
  | same {x : Meaning} : Agrees k x x
  | left {target : String} {x : Meaning} (htarget : normalize target = k)
    (hx : ∀ other, x ≠ .synonym other) : Agrees k (.synonym target) x
  | right {target : String} {x : Meaning} (htarget : normalize target = k)
    (hx : ∀ other, x ≠ .synonym other) : Agrees k x (.synonym target)

/-- Every name has one meaning, and the names that profiles have spellings for are base types. -/
structure Unambiguous (units : Units) : Prop where
  agree : ∀ name other x y, Noted units name x → Noted units other y →
    normalize name = normalize other → x.Agrees (normalize name) y
  spelled : ∀ name x, Noted units name x → ∀ s ∈ Catalog.spellings,
    normalize name = normalize s.1 ∨ normalize name = normalize s.2 → ∃ d, x = .base d

def Meaning.FoundAs (s : Findings) (name : String) : Meaning → Prop
  | .base d => d ∈ s.fallbackTypes ∧ d.name = name
  | .aggregate _ => s.named.contains name
  | _ => True

variable {units : Units} {names : Option (List String)} {s : Findings} {d : Description}
  {a b : Aggregate Quantity} {name other target w : String} {x : Meaning}
  {p : MachineProfile Quantity}

namespace Findings.Sound

theorem noted_named (hs : s.Sound units) (hname : s.named.contains name) :
    ∃ a, Noted units name (.aggregate a) := by
  obtain ⟨a, ha⟩ := Table.exists_mem_of_contains hname
  obtain ⟨e, he, hdefines, hlookup⟩ := hs.named _ ha
  exact ⟨a, e, .root he hdefines, .aggregate hdefines (hs.converted e he a hlookup).comes⟩

end Findings.Sound

namespace Unambiguous

theorem recorded_target (hu : Unambiguous units) (hs : s.Sound units)
    (hname : Recorded units s name) (hnoted : Noted units other (.synonym target))
    (hother : normalize name = normalize other) (htarget : normalize target ≠ normalize name) :
    s.aliases.contains name ∧ Recorded units s target := by
  have agree {x : Meaning} (hx : Noted units name x) : x = .synonym target := by
    cases hu.agree name other x _ hx hnoted hother with
    | same => rfl
    | left _ hx => exact absurd rfl (hx target)
    | right hself _ => exact absurd hself htarget
  cases hname with
  | synonym hx hkey hrecorded =>
    obtain rfl := Meaning.synonym.inj (agree hx)
    exact ⟨hkey, hrecorded⟩
  | base hd => cases agree (hs.fallbackTypes _ hd)
  | @aggregate e _ huse hkind hproper hdefined =>
    cases hdef : e.isDefinition with
    | true =>
      obtain ⟨a, ha⟩ := hs.noted_named (hdefined hdef)
      cases agree ha
    | false => cases agree ⟨e, huse, .incomplete hkind hproper hdef⟩
  | pointer hx => cases agree hx
  | enumeration hx => cases agree hx

theorem found (hu : Unambiguous units) (hs : s.Sound units) (hname : Recorded units s name)
    (hnoted : Noted units other x) (hother : normalize name = normalize other)
    (hx : ∀ target, x ≠ .synonym target) :
    ∃ n, normalize n = normalize name ∧ x.FoundAs s n := by
  have agree {n : String} {y : Meaning} (hy : Noted units n y)
      (hn : normalize n = normalize other) :
      y = x ∨ ∃ target, y = .synonym target ∧ normalize target = normalize n := by
    cases hu.agree n other y x hy hnoted hn with
    | same => exact .inl rfl
    | left hself _ => exact .inr ⟨_, rfl, hself⟩
    | right _ _ => exact absurd rfl (hx _)
  have ends {n : String} {y : Meaning} (hy : Noted units n y) (hn : normalize n = normalize other)
      (hfound : y.FoundAs s n) (hsynonym : ∀ target, y ≠ .synonym target) :
      ∃ m, normalize m = normalize n ∧ x.FoundAs s m := by
    rcases agree hy hn with rfl | ⟨target, htarget, _⟩
    · exact ⟨n, rfl, hfound⟩
    · exact absurd htarget (hsynonym target)
  -- A typedef that leads to its own name leaves the meaning to what it leads to.
  induction hname with
  | synonym hy _ _ ih =>
    rcases agree hy hother with rfl | ⟨target, htarget, hself⟩
    · exact absurd rfl (hx _)
    · obtain rfl := Meaning.synonym.inj htarget
      obtain ⟨n, hn, hfound⟩ := ih (hself.trans hother)
      exact ⟨n, hn.trans hself, hfound⟩
  | base hd => exact ends (hs.fallbackTypes _ hd) hother ⟨hd, rfl⟩ nofun
  | @aggregate e _ huse hkind hproper hdefined =>
    cases hdef : e.isDefinition with
    | true =>
      obtain ⟨a, ha⟩ := hs.noted_named (hdefined hdef)
      exact ends ha hother (hdefined hdef) nofun
    | false => exact ends ⟨e, huse, .incomplete hkind hproper hdef⟩ hother trivial nofun
  | pointer hy => exact ends hy hother trivial nofun
  | enumeration hy => exact ends hy hother trivial nofun

theorem not_spelled (hu : Unambiguous units) (hx : Noted units name x)
    (hbase : ∀ d, x ≠ .base d) {spelling : String × String}
    (hspelling : spelling ∈ Catalog.spellings) :
    normalize name ≠ normalize spelling.1 ∧ normalize name ≠ normalize spelling.2 := by
  constructor
  · intro heq
    obtain ⟨d, hd⟩ := hu.spelled name x hx spelling hspelling (.inl heq)
    exact hbase d hd
  · intro heq
    obtain ⟨d, hd⟩ := hu.spelled name x hx spelling hspelling (.inr heq)
    exact hbase d hd

end Unambiguous

namespace Loaded

theorem noted_aggregate (h : Loaded units names d s) (ha : a ∈ d.definitions ++ d.aggregates) :
    Noted units a.name (.aggregate a) := by
  obtain ⟨e, he, hdefines, hlookup⟩ := h.converted ha
  exact ⟨e, .root he hdefines, .aggregate hdefines (h.sound.converted e he a hlookup).comes⟩

theorem noted_synonym (h : Loaded units names d s) {x : String × String} (hx : x ∈ d.aliases) :
    Noted units x.1 (.synonym x.2) :=
  (h.sound.aliases x (h.aliases ▸ hx)).1

theorem next?_iff (h : Loaded units names d s) (hu : Unambiguous units)
    (hname : Recorded units s name) :
    next? (d.catalog p).aliases (normalize name) = some w ↔
      (∃ other target, Noted units other (.synonym target) ∧ normalize other = normalize name ∧
        normalize target = w ∧ w ≠ normalize name) ∨
      next? (Catalog.ofProfile p).aliases (normalize name) = some w := by
  rcases Description.find?_aliases_catalog d p (normalize name) with
    ⟨x, hx, hkey, hfind⟩ | ⟨hnone, hfind⟩
  · have hspelled : next? (Catalog.ofProfile p).aliases (normalize name) ≠ some w := by
      intro hnext
      obtain ⟨spelling, hspelling, hspelled, _⟩ :=
        Catalog.find?_aliases_ofProfile (next?_eq_some.mp hnext).1
      exact (hu.not_spelled (h.noted_synonym hx) nofun hspelling).1 (hkey.trans hspelled.symm)
    rw [or_iff_left hspelled, next?_eq_some, hfind]
    -- The alias that is found is the last one of the name, and all others say the same.
    constructor
    · rintro ⟨hw, hne⟩
      exact ⟨x.1, x.2, h.noted_synonym hx, hkey, Option.some.inj hw, hne⟩
    · rintro ⟨other, target, hnoted, hother, rfl, hne⟩
      refine ⟨?_, hne⟩
      cases hu.agree _ _ _ _ (h.noted_synonym hx) hnoted (hkey.trans hother.symm) with
      | same => rfl
      | left _ hx => exact absurd rfl (hx target)
      | right _ hx => exact absurd rfl (hx x.2)
  · rw [next?_eq_some, next?_eq_some, hfind]
    refine (or_iff_right ?_).symm
    rintro ⟨other, target, hnoted, hother, rfl, hne⟩
    obtain ⟨hkey, _⟩ := hu.recorded_target h.sound hname hnoted hother.symm hne
    obtain ⟨value, hvalue⟩ := Table.exists_mem_of_contains hkey
    rw [← h.aliases] at hvalue
    exact hnone _ hvalue rfl

theorem next?_spelling (h : Loaded units names d s) (hu : Unambiguous units)
    {spelling : String × String} (hspelling : spelling ∈ Catalog.spellings) :
    next? (d.catalog p).aliases (normalize spelling.2) = none := by
  rw [Option.eq_none_iff_forall_not_mem]
  intro w hw
  obtain ⟨hfind, _⟩ := next?_eq_some.mp hw
  rcases Description.find?_aliases_catalog d p (normalize spelling.2) with
    ⟨x, hx, hkey, _⟩ | ⟨_, hsame⟩
  · exact (hu.not_spelled (h.noted_synonym hx) nofun hspelling).2 hkey
  · obtain ⟨other, hother, hkey, _⟩ := Catalog.find?_aliases_ofProfile (hsame.symm.trans hfind)
    exact Catalog.spelling_ne hspelling hother hkey.symm

theorem find?_aggregates_iff (h : Loaded units names d s) (hu : Unambiguous units)
    (hname : Recorded units s name) :
    (d.catalog p).aggregates.find? (normalize name) = some a ↔
      ∃ other, Noted units other (.aggregate a) ∧ normalize name = normalize other := by
  have sound {b : Aggregate Quantity}
      (hb : (d.catalog p).aggregates.find? (normalize name) = some b) :
      Noted units b.name (.aggregate b) ∧ normalize name = normalize b.name := by
    rcases Description.find?_aggregates_catalog (p := p) h.name_ne_empty (normalize name) with
      ⟨c, hc, hkey, hfind⟩ | ⟨_, hnone⟩
    · obtain rfl := Option.some.inj (hfind.symm.trans hb)
      exact ⟨h.noted_aggregate hc, hkey.symm⟩
    · cases hnone.symm.trans hb
  constructor
  · intro ha
    exact ⟨a.name, sound ha⟩
  · rintro ⟨other, hnoted, hother⟩
    obtain ⟨n, hn, hfound⟩ := hu.found h.sound hname hnoted hother nofun
    obtain ⟨_, _, _, hcontains⟩ := h.defined hfound
    obtain ⟨b, hb⟩ := Option.isSome_iff_exists.mp (hcontains p)
    rw [hn] at hb
    obtain ⟨hbnoted, hbname⟩ := sound hb
    cases hu.agree _ _ _ _ hbnoted hnoted (hbname.symm.trans hother) with
    | same => exact hb

theorem find?_aggregates_spelling (h : Loaded units names d s) (hu : Unambiguous units)
    {spelling : String × String} (hspelling : spelling ∈ Catalog.spellings) :
    (d.catalog p).aggregates.find? (normalize spelling.2) = none := by
  rcases Description.find?_aggregates_catalog (p := p) h.name_ne_empty (normalize spelling.2) with
    ⟨c, hc, hkey, _⟩ | ⟨_, hnone⟩
  · exact absurd hkey (hu.not_spelled (h.noted_aggregate hc) nofun hspelling).2
  · exact hnone

theorem next?_base (h : Loaded units names d s) (hu : Unambiguous units)
    {base : TypeDescriptor Quantity} (hname : Recorded units s name)
    (hbase : Noted units name (.base base)) :
    next? (d.catalog p).aliases (normalize name) =
      next? (Catalog.ofProfile p).aliases (normalize name) := by
  apply Option.ext
  intro w
  rw [h.next?_iff hu hname]
  refine or_iff_right ?_
  rintro ⟨other, target, hnoted, hother, rfl, hne⟩
  cases hu.agree _ _ _ _ hnoted hbase hother with
  | left hself _ => exact hne (hself.trans hother)

theorem resolve_base (h : Loaded units names d s) (hu : Unambiguous units)
    {base : TypeDescriptor Quantity} (hname : Recorded units s name)
    (hbase : Noted units name (.base base)) :
    (d.named p).resolve name =
      (next? (Catalog.ofProfile p).aliases (normalize name)).getD (normalize name) := by
  have hnext := h.next?_base (p := p) hu hname hbase
  rw [← Description.resolve_catalog]
  cases hspelled : next? (Catalog.ofProfile p).aliases (normalize name) with
  | none => exact Catalog.resolve_of_none (hnext.trans hspelled)
  | some target =>
    obtain ⟨spelling, hspelling, _, rfl⟩ :=
      Catalog.find?_aliases_ofProfile (next?_eq_some.mp hspelled).1
    exact Catalog.resolve_of_next (hnext.trans hspelled) (h.next?_spelling hu hspelling)

theorem plain_fallback (h : Loaded units names d s) (hu : Unambiguous units) :
    ∀ f ∈ d.fallbackTypes, Description.Plain (d.named p) f.name := by
  intro f hf
  rw [h.fallbackTypes] at hf
  unfold Description.Plain
  rw [h.resolve_base hu (.base hf) (h.sound.fallbackTypes f hf)]
  cases hspelled : next? (Catalog.ofProfile p).aliases (normalize f.name) with
  | none => exact .inl rfl
  | some target =>
    obtain ⟨spelling, hspelling, _, rfl⟩ :=
      Catalog.find?_aliases_ofProfile (next?_eq_some.mp hspelled).1
    obtain ⟨primitive, hprimitive, hname⟩ :=
      List.mem_map.mp (Catalog.spelling_mem_primitives p spelling hspelling)
    rw [Description.types_named h.types, Option.getD_some, ← hname]
    exact .inr (Catalog.contains_types_ofProfile hprimitive)

theorem find?_types_sound (h : Loaded units names d s) (hu : Unambiguous units) {k : String}
    {t : TypeDescriptor Quantity} (ht : (d.catalog p).types.find? k = some t) :
    (Catalog.ofProfile p).types.find? k = some t ∨
      (Catalog.ofProfile p).types.find? k = none ∧ TypeName.isPointer k = false ∧
        next? (Catalog.ofProfile p).aliases k = none ∧
        ∃ other, Noted units other (.base t) ∧ k = normalize other := by
  rw [Description.types_catalog] at ht
  have hcases := Description.find?_foldl_registerFallback (h.plain_fallback (p := p) hu) k
  rw [Description.types_named h.types] at hcases
  rcases hcases with hfind | ⟨hnone, f, hf, rfl, hresolve, hpointer, hfind⟩
  · exact .inl (hfind.symm.trans ht)
  · obtain rfl := Option.some.inj (hfind.symm.trans ht)
    rw [h.fallbackTypes] at hf
    have hnoted := h.sound.fallbackTypes _ hf
    refine .inr ⟨hnone, hpointer, ?_, _, hnoted, rfl⟩
    rw [h.resolve_base hu (.base hf) hnoted] at hresolve
    cases hspelled : next? (Catalog.ofProfile p).aliases (normalize f.name) with
    | none => rfl
    | some target =>
      rw [hspelled] at hresolve
      exact absurd hresolve (next?_eq_some.mp hspelled).2

theorem find?_types_profile (h : Loaded units names d s) (hu : Unambiguous units) {k : String}
    {t : TypeDescriptor Quantity} (ht : (Catalog.ofProfile p).types.find? k = some t) :
    (d.catalog p).types.find? k = some t := by
  have hcases := Description.find?_foldl_registerFallback (h.plain_fallback (p := p) hu) k
  rw [Description.types_named h.types] at hcases
  rw [Description.types_catalog]
  rcases hcases with hfind | ⟨hnone, _⟩
  · exact hfind.trans ht
  · cases hnone.symm.trans ht

theorem find?_types_iff (h : Loaded units names d s) (hu : Unambiguous units)
    (hname : Recorded units s name) {t : TypeDescriptor Quantity} :
    (d.catalog p).types.find? (normalize name) = some t ↔
      (Catalog.ofProfile p).types.find? (normalize name) = some t ∨
      (Catalog.ofProfile p).types.find? (normalize name) = none ∧
        TypeName.isPointer (normalize name) = false ∧
        next? (Catalog.ofProfile p).aliases (normalize name) = none ∧
        ∃ other, Noted units other (.base t) ∧ normalize name = normalize other := by
  refine ⟨h.find?_types_sound hu, ?_⟩
  rintro (ht | ⟨hnone, hpointer, hspelled, other, hnoted, hother⟩)
  · exact h.find?_types_profile hu ht
  · obtain ⟨n, hn, hfallback, rfl⟩ := hu.found h.sound hname hnoted hother nofun
    have hbase := h.sound.fallbackTypes t hfallback
    have hresolve := h.resolve_base (p := p) hu (.base hfallback) hbase
    rw [hn, hspelled, Option.getD_none, ← hn] at hresolve
    have hcontains := Description.contains_fallback (h.fallbackTypes ▸ hfallback) hresolve
    rw [← Description.types_catalog, Description.aggregates_named, hn, hpointer] at hcontains
    rcases hcontains with hcontains | hcontains | hcontains
    · obtain ⟨t', ht'⟩ := Option.isSome_iff_exists.mp hcontains
      rcases h.find?_types_sound hu ht' with hprofile | ⟨_, _, _, other', hnoted', hother'⟩
      · cases hnone.symm.trans hprofile
      · cases hu.agree _ _ _ _ hnoted' hnoted (hother'.symm.trans hother) with
        | same => exact ht'
    · exact absurd hcontains Bool.false_ne_true
    · exact absurd hcontains Bool.false_ne_true

end Loaded

section Agreement

variable {names' : Option (List String)} {s' : Findings} {d' : Description}

def Shared (units : Units) (s s' : Findings) (k : String) : Prop :=
  (∃ name, Recorded units s name ∧ Recorded units s' name ∧ normalize name = k) ∨
    ∃ spelling ∈ Catalog.spellings, normalize spelling.2 = k

theorem shared_next? (h : Loaded units names d s) (h' : Loaded units names' d' s')
    (hu : Unambiguous units) {k : String} (hk : Shared units s s' k) :
    next? (d.catalog p).aliases k = next? (d'.catalog p).aliases k := by
  rcases hk with ⟨name, hname, hname', rfl⟩ | ⟨spelling, hspelling, rfl⟩
  · apply Option.ext
    intro w
    rw [h.next?_iff hu hname, h'.next?_iff hu hname']
  · rw [h.next?_spelling hu hspelling, h'.next?_spelling hu hspelling]

theorem shared_closed (h : Loaded units names d s) (h' : Loaded units names' d' s')
    (hu : Unambiguous units) {k : String} (hk : Shared units s s' k)
    (hw : next? (d.catalog p).aliases k = some w) : Shared units s s' w := by
  rcases hk with ⟨name, hname, hname', rfl⟩ | ⟨spelling, hspelling, rfl⟩
  · rcases (h.next?_iff hu hname).mp hw with ⟨other, target, hnoted, hother, rfl, hne⟩ | hspelled
    · have htarget := (hu.recorded_target h.sound hname hnoted hother.symm hne).2
      have htarget' := (hu.recorded_target h'.sound hname' hnoted hother.symm hne).2
      exact .inl ⟨target, htarget, htarget', rfl⟩
    · obtain ⟨spelling, hspelling, _, htarget⟩ :=
        Catalog.find?_aliases_ofProfile (next?_eq_some.mp hspelled).1
      exact .inr ⟨spelling, hspelling, htarget⟩
  · cases (h.next?_spelling hu hspelling).symm.trans hw

theorem shared_aggregates (h : Loaded units names d s) (h' : Loaded units names' d' s')
    (hu : Unambiguous units) {k : String} (hk : Shared units s s' k) :
    (d.catalog p).aggregates.find? k = (d'.catalog p).aggregates.find? k := by
  rcases hk with ⟨name, hname, hname', rfl⟩ | ⟨spelling, hspelling, rfl⟩
  · apply Option.ext
    intro a
    rw [h.find?_aggregates_iff hu hname, h'.find?_aggregates_iff hu hname']
  · rw [h.find?_aggregates_spelling hu hspelling, h'.find?_aggregates_spelling hu hspelling]

theorem shared_types (h : Loaded units names d s) (h' : Loaded units names' d' s')
    (hu : Unambiguous units) {k : String} (hk : Shared units s s' k) :
    (d.catalog p).types.find? k = (d'.catalog p).types.find? k := by
  rcases hk with ⟨name, hname, hname', rfl⟩ | ⟨spelling, hspelling, rfl⟩
  · apply Option.ext
    intro t
    rw [h.find?_types_iff hu hname, h'.find?_types_iff hu hname']
  · have hprimitive := Catalog.spelling_mem_primitives p spelling hspelling
    obtain ⟨primitive, hprimitive, hname⟩ := List.mem_map.mp hprimitive
    have hcontains := Catalog.contains_types_ofProfile hprimitive
    rw [hname] at hcontains
    obtain ⟨t, ht⟩ := Option.isSome_iff_exists.mp hcontains
    rw [h.find?_types_profile hu ht, h'.find?_types_profile hu ht]

theorem shared_resolve (h : Loaded units names d s) (h' : Loaded units names' d' s')
    (hu : Unambiguous units) (hname : Recorded units s name) (hname' : Recorded units s' name) :
    (d.catalog p).resolve name = (d'.catalog p).resolve name ∧
      Shared units s s' ((d.catalog p).resolve name) := by
  have hk : Shared units s s' (normalize name) := .inl ⟨name, hname, hname', rfl⟩
  refine ⟨Catalog.resolve_eq (fun _ hk => shared_next? h h' hu hk)
    (fun _ _ hk hw => shared_closed h h' hu hk hw) hk, ?_⟩
  refine Catalog.follow_induction (fun k target hk hfind => ?_) _ _ hk
  by_cases hself : target = k
  · rw [hself]
    exact hk
  · exact shared_closed h h' hu hk (next?_eq_some.mpr ⟨hfind, hself⟩)

theorem shared_nested (h : Loaded units names d s) (h' : Loaded units names' d' s')
    (hu : Unambiguous units) (hname : Recorded units s name) (hname' : Recorded units s' name) :
    (d.catalog p).nested? name = (d'.catalog p).nested? name := by
  obtain ⟨hresolve, hk⟩ := shared_resolve (p := p) h h' hu hname hname'
  unfold Catalog.nested? Catalog.isPointer Catalog.aggregate?
  rw [← hresolve, shared_aggregates h h' hu hk]

theorem shared_describe (h : Loaded units names d s) (h' : Loaded units names' d' s')
    (hu : Unambiguous units) (hname : Recorded units s name) (hname' : Recorded units s' name) :
    (d.catalog p).describe name = (d'.catalog p).describe name := by
  obtain ⟨hresolve, hk⟩ := shared_resolve (p := p) h h' hu hname hname'
  unfold Catalog.describe
  dsimp only
  rw [← hresolve, shared_types h h' hu hk, Description.profile_catalog,
    Description.profile_catalog]

theorem shared_layout (h : Loaded units names d s) (h' : Loaded units names' d' s')
    (hu : Unambiguous units) (ha : Loaded.Within units s a) (ha' : Loaded.Within units s' a)
    (maxDepth : Quantity) :
    ({ catalog := d.catalog p, maxDepth } : Target Quantity).layout a =
      ({ catalog := d'.catalog p, maxDepth } : Target Quantity).layout a := by
  let t : Target Quantity := { catalog := d.catalog p, maxDepth }
  let t' : Target Quantity := { catalog := d'.catalog p, maxDepth }
  have recorded {a : Aggregate Quantity} {s : Findings} {m : Member Quantity} {name : String}
      (ha : Loaded.Within units s a) (hm : m ∈ a.members) (htype : m.type = .named name) :
      Recorded units s name := by
    refine ha m hm name ?_
    rw [htype]
    exact .named
  have agree :
      Target.AgreeOn (fun a => Loaded.Within units s a ∧ Loaded.Within units s' a) t t' := by
    refine ⟨?_, rfl, ?_, ?_, ?_⟩
    · exact (Description.profile_catalog d p).trans (Description.profile_catalog d' p).symm
    · intro a ha m hm name htype
      exact shared_nested h h' hu (recorded ha.1 hm htype) (recorded ha.2 hm htype)
    · intro a ha m hm name htype
      exact shared_describe h h' hu (recorded ha.1 hm htype) (recorded ha.2 hm htype)
    · intro a ha m hm b hb
      have hb' : t'.nested? m.type = some b := by
        cases htype : m.type with
        | named name =>
          have hshared := shared_nested (p := p) h h' hu (recorded ha.1 hm htype)
            (recorded ha.2 hm htype)
          rw [htype] at hb
          exact hshared.symm.trans hb
        | descriptor _ =>
          rw [htype] at hb
          cases hb
        | inline _ =>
          rw [htype] at hb
          exact hb
      exact ⟨h.within_nested rfl ha.1 hm hb, h'.within_nested rfl ha.2 hm hb'⟩
  exact agree.layout_eq ⟨ha, ha'⟩

end Agreement

theorem selection_keeps_layouts {path path' : String} {selected : List String}
    {d d' : Description} (hunits : units.Apart) (hu : Unambiguous units)
    (h : (describe path units (some selected)).1 = .ok d)
    (h' : (describe path' units none).1 = .ok d') :
    ∀ a ∈ d.aggregates, (∃ a' ∈ d'.aggregates, a'.name = a.name) ∧
      ∀ a' ∈ d'.aggregates, a'.name = a.name → ∀ p maxDepth,
        ({ catalog := d.catalog p, maxDepth } : Target Quantity).layout a =
          ({ catalog := d'.catalog p, maxDepth } : Target Quantity).layout a' := by
  obtain ⟨s, hload⟩ := loaded_of_describe hunits h
  obtain ⟨s', hload'⟩ := loaded_of_describe hunits h'
  intro a ha
  have hmem : a ∈ d.definitions ++ d.aggregates := List.mem_append_right _ ha
  constructor
  · obtain ⟨e, he, hrequested⟩ := hload.requested a ha
    refine hload'.complete e he a.name (requested_iff.mpr ⟨(requested_iff.mp hrequested).1, ?_⟩)
    rfl
  · intro a' ha' hname p maxDepth
    have hmem' : a' ∈ d'.definitions ++ d'.aggregates := List.mem_append_right _ ha'
    have hsame : a' = a := by
      cases hu.agree _ _ _ _ (hload'.noted_aggregate hmem') (hload.noted_aggregate hmem)
        (congrArg normalize hname) with
      | same => rfl
    subst hsame
    exact shared_layout hload hload' hu (hload.within hmem) (hload'.within hmem') maxDepth

theorem means_of_aggregate {e : Entry} (hkind : e.aggregateKind?.isSome)
    (hdef : e.isDefinition) (h : Means units e name x) :
    e.properName? = some name ∧ ∃ a, x = .aggregate a ∧ Comes units e a := by
  obtain ⟨kind, hrole⟩ := Entry.role_of_aggregate hkind
  cases h with
  | aggregate hdefines hcomes => exact ⟨hdefines.named, _, rfl, hcomes⟩
  | incomplete _ _ hdef' => cases hdef.symm.trans hdef'
  | _ hrole' => cases hrole.symm.trans hrole'

theorem means_of_base {e : Entry} (hrole : e.role = .base) (h : Means units e name x) :
    e.properName? = some name ∧ ∃ size d, e.integer? "byte_size" = some size ∧
      TypeDescriptor.scalar name size none e.isInteger = .ok d ∧ x = .base d := by
  have hkind : ¬ e.aggregateKind?.isSome := by
    rw [Entry.aggregateKind?, hrole]
    exact Bool.false_ne_true
  cases h with
  | base _ hname hsize hd => exact ⟨hname, _, _, hsize, hd, rfl⟩
  | aggregate hdefines _ => exact absurd hdefines.aggregate hkind
  | incomplete hkind' _ _ => exact absurd hkind' hkind
  | _ hrole' => cases hrole.symm.trans hrole'

theorem not_means_of_member {e : Entry} (hrole : e.role = .member) : ¬ Means units e name x := by
  have hkind : ¬ e.aggregateKind?.isSome := by
    rw [Entry.aggregateKind?, hrole]
    exact Bool.false_ne_true
  intro h
  cases h with
  | aggregate hdefines _ => exact hkind hdefines.aggregate
  | incomplete hkind' _ _ => exact hkind hkind'
  | _ hrole' => cases hrole.symm.trans hrole'

def parcelMeanings : List (String × Meaning) :=
  [("item", .aggregate item), ("parcel", .aggregate parcel),
    ("char", .base charType), ("int", .base intType)]

theorem noted_parcel (h : Noted parcelUnits name x) : (name, x) ∈ parcelMeanings := by
  obtain ⟨e, huse, hmeans⟩ := h
  have he := huse.mem
  change e ∈ [structEntry 1 "item" 1 [memberEntry 2 "c" 6], memberEntry 2 "c" 6,
    structEntry 3 "parcel" 8 [memberEntry 4 "item" 1, memberEntry 5 "n" 7],
    memberEntry 4 "item" 1, memberEntry 5 "n" 7, baseEntry 6 "char" 1, baseEntry 7 "int" 4] at he
  simp only [List.mem_cons, List.not_mem_nil, or_false] at he
  rcases he with rfl | rfl | rfl | rfl | rfl | rfl | rfl
  · obtain ⟨hname, a, rfl, hcomes⟩ := means_of_aggregate rfl rfl hmeans
    have hproper : (structEntry 1 "item" 1 [memberEntry 2 "c" 6]).properName? = some "item" := by
      decide +kernel
    obtain rfl := Option.some.inj (hproper.symm.trans hname)
    have hitem : Comes parcelUnits (structEntry 1 "item" 1 [memberEntry 2 "c" 6])
        item := by
      refine Filter.eventually_atTop.mpr ⟨1, fun levels hlevels => ?_⟩
      obtain ⟨depth, rfl⟩ := Nat.exists_eq_add_of_le' hlevels
      with_unfolding_all rfl
    obtain rfl := hcomes.unique hitem
    exact .head _
  · exact absurd hmeans (not_means_of_member rfl)
  · obtain ⟨hname, a, rfl, hcomes⟩ := means_of_aggregate rfl rfl hmeans
    have hproper : (structEntry 3 "parcel" 8
        [memberEntry 4 "item" 1, memberEntry 5 "n" 7]).properName? = some "parcel" := by
      decide +kernel
    obtain rfl := Option.some.inj (hproper.symm.trans hname)
    have hparcel : Comes parcelUnits
        (structEntry 3 "parcel" 8 [memberEntry 4 "item" 1, memberEntry 5 "n" 7]) parcel := by
      refine Filter.eventually_atTop.mpr ⟨1, fun levels hlevels => ?_⟩
      obtain ⟨depth, rfl⟩ := Nat.exists_eq_add_of_le' hlevels
      with_unfolding_all rfl
    obtain rfl := hcomes.unique hparcel
    exact .tail _ (.head _)
  · exact absurd hmeans (not_means_of_member rfl)
  · exact absurd hmeans (not_means_of_member rfl)
  · obtain ⟨hname, size, d, hsize, hd, rfl⟩ := means_of_base rfl hmeans
    have hproper : (baseEntry 6 "char" 1).properName? = some "char" := by decide +kernel
    obtain rfl := Option.some.inj (hproper.symm.trans hname)
    obtain rfl := Option.some.inj hsize
    obtain rfl := Except.ok.inj hd
    exact .tail _ (.tail _ (.head _))
  · obtain ⟨hname, size, d, hsize, hd, rfl⟩ := means_of_base rfl hmeans
    have hproper : (baseEntry 7 "int" 4).properName? = some "int" := by decide +kernel
    obtain rfl := Option.some.inj (hproper.symm.trans hname)
    obtain rfl := Option.some.inj hsize
    obtain rfl := Except.ok.inj hd
    exact .tail _ (.tail _ (.tail _ (.head _)))

theorem unambiguous_parcel : Unambiguous parcelUnits := by
  constructor
  · intro name other x y hx hy hkey
    have hnodup : (parcelMeanings.map fun meant => TypeName.normalize meant.1).Nodup := by
      decide
    obtain ⟨-, rfl⟩ := Prod.mk.inj
      (List.inj_on_of_nodup_map hnodup (noted_parcel hx) (noted_parcel hy) hkey)
    exact .same
  · intro name x hx spelling hspelling hname
    have hunspelled : ∀ k ∈ ["item", "parcel"], ∀ s ∈ Catalog.spellings,
        ¬ (normalize k = normalize s.1 ∨ normalize k = normalize s.2) := by
      decide
    cases noted_parcel hx with
    | head => exact absurd hname (hunspelled _ (.head _) spelling hspelling)
    | tail _ hx =>
      cases hx with
      | head => exact absurd hname (hunspelled _ (.tail _ (.head _)) spelling hspelling)
      | tail _ hx =>
        cases hx with
        | head => exact ⟨_, rfl⟩
        | tail _ hx =>
          cases hx with
          | head => exact ⟨_, rfl⟩
          | tail _ hx => cases hx

def wholeDescription : Description where
  aggregates := [item, parcel]
  fallbackTypes := parcelDescription.fallbackTypes
  reportedSizes := parcelDescription.reportedSizes

theorem selection_keeps_layouts_parcel :
    parcelUnits.Apart ∧ Unambiguous parcelUnits ∧
      (describe "app.elf" parcelUnits (some ["parcel"])).1 = .ok parcelDescription ∧
      (describe "app.elf" parcelUnits none).1 = .ok wholeDescription ∧
      ∀ p maxDepth,
        ({ catalog := parcelDescription.catalog p, maxDepth } : Target Quantity).layout parcel =
          ({ catalog := wholeDescription.catalog p, maxDepth } : Target Quantity).layout
            parcel := by
  have hunits : parcelUnits.Apart := by
    unfold Units.Apart
    decide
  have hselected :
      (describe "app.elf" parcelUnits (some ["parcel"])).1 = .ok parcelDescription := by
    with_unfolding_all rfl
  have hwhole : (describe "app.elf" parcelUnits none).1 = .ok wholeDescription := by
    with_unfolding_all rfl
  exact ⟨hunits, unambiguous_parcel, hselected, hwhole,
    (selection_keeps_layouts hunits unambiguous_parcel hselected hwhole parcel (.head _)).2
      parcel (.tail _ (.head _)) rfl⟩

def typedefEntry (id : Int) (name : String) (type : Int) : Entry where
  id
  tag := "DW_TAG_typedef"
  attributes := [nameAttribute name, numberAttribute "type" type]

def boxUnits : Units :=
  [[structEntry 1 "other" 4 [memberEntry 2 "x" 3], typedefEntry 3 "item" 7,
    structEntry 4 "item" 1 [memberEntry 5 "c" 8], structEntry 6 "box" 1 [memberEntry 9 "i" 4],
    baseEntry 7 "int" 4, baseEntry 8 "char" 1]]

def box : Aggregate Quantity where
  name := "box"
  members := [{ name := "i", type := .named "item" }]

def boxDescription : Description where
  aggregates := [box]
  definitions := [item]
  fallbackTypes := [charType]
  reportedSizes := [("item", .stated (.integer 1)), ("box", .stated (.integer 1))]

def boxesDescription : Description where
  aliases := [("item", "int")]
  aggregates :=
    [{ name := "other", members := [{ name := "x", type := .named "item" }] }, item, box]
  fallbackTypes := [intType, charType]
  reportedSizes := [("other", .stated (.integer 4)), ("item", .stated (.integer 1)),
    ("box", .stated (.integer 1))]

theorem layout_differs_box :
    (describe "app.elf" boxUnits (some ["box"])).1 = .ok boxDescription ∧
      (describe "app.elf" boxUnits none).1 = .ok boxesDescription ∧
      box ∈ boxDescription.aggregates ∧ box ∈ boxesDescription.aggregates ∧
      (({ catalog := boxDescription.catalog .lp64 } : Target Quantity).layout box).toOption.bind
        (·.totalSize.integer?) = some 1 ∧
      (({ catalog := boxesDescription.catalog .lp64 } : Target Quantity).layout box).toOption.bind
        (·.totalSize.integer?) = some 4 := by
  refine ⟨by with_unfolding_all rfl, by with_unfolding_all rfl, .head _, ?_, ?_, ?_⟩
  · exact .tail _ (.tail _ (.head _))
  · decide +kernel
  · decide +kernel

end AggregateLayout.DebugInfo
