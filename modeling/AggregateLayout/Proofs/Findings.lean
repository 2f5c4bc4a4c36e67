import Mathlib
import AggregateLayout.Proofs.Reading

namespace AggregateLayout

namespace Table

variable {α : Type} {t : Table α} {key other : String} {value : α} {p : String × α}

theorem mem_insert (h : p ∈ insert key value t) : p = (key, value) ∨ p ∈ t := by
  induction t with
  | nil => exact .inl (List.mem_singleton.mp h)
  | cons entry rest ih =>
    unfold insert at h
    split at h
    · next hkey =>
      rw [beq_iff_eq.mp hkey] at h
      exact (List.mem_cons.mp h).imp_right (.tail _)
    · rcases List.mem_cons.mp h with rfl | h
      · exact .inr (.head _)
      · exact (ih h).imp_right (.tail _)

theorem contains_insert : (insert key value t).contains other ↔ key = other ∨ t.contains other := by
  unfold contains
  rw [find?_insert]
  split <;> simp [*]

theorem exists_mem_of_contains (h : t.contains key) : ∃ value, (key, value) ∈ t := by
  obtain ⟨value, hvalue⟩ := Option.isSome_iff_exists.mp h
  exact ⟨value, mem_of_find? hvalue⟩

end Table

theorem TypeDescriptor.name_scalar {name : String} {size : Quantity} {isInteger : Bool}
    {d : TypeDescriptor Quantity} (h : scalar name size none isInteger = .ok d) :
    d.name = name := by
  unfold scalar make at h
  split at h
  · cases h
  · split at h
    · obtain rfl := Except.ok.inj h
      rfl
    · cases h

namespace DebugInfo

inductive Meaning where
  | synonym (target : String)
  | base (d : TypeDescriptor Quantity)
  | aggregate (a : Aggregate Quantity)
  | incomplete
  | pointer
  | enumeration

def Entry.isInteger (e : Entry) : Bool :=
  let isEncoded (code : Int) : Bool := (e.value? "encoding").any (·.isNumber (.whole code))
  !(isEncoded 3 || isEncoded 4)

inductive Means (units : Units) (e : Entry) : String → Meaning → Prop
  | synonym {name target : String} {t : Entry} {steps : Nat} {inner : Entry → Aggregate Quantity}
    (hrole : e.role = .typedef) (hname : e.properName? = some name) (ht : units.type? e = some t)
    (h : readType units inner steps t = some (.named target, [])) :
    Means units e name (.synonym target)
  | base {name : String} {size : Quantity} {d : TypeDescriptor Quantity} (hrole : e.role = .base)
    (hname : e.properName? = some name) (hsize : e.integer? "byte_size" = some size)
    (h : TypeDescriptor.scalar name size none e.isInteger = .ok d) : Means units e name (.base d)
  | aggregate {name : String} {a : Aggregate Quantity} (h : e.Defines name) (ha : Comes units e a) :
    Means units e name (.aggregate a)
  | incomplete {name : String} (hkind : e.aggregateKind?.isSome) (hname : e.properName? = some name)
    (h : e.isDefinition = false) : Means units e name .incomplete
  | pointer (hrole : e.role = .pointer) : Means units e (pointeeName units e ++ "*") .pointer
  | enumeration (hrole : e.role = .enumeration) (hsize : e.integer? "byte_size" = none) :
    Means units e "enum" .enumeration

inductive InUse (units : Units) : Entry → Prop
  | root {e : Entry} {name : String} (he : e ∈ units.entries) (h : e.Defines name) : InUse units e
  | part {e c t : Entry} (he : e ∈ units.entries) (hc : c ∈ e.children)
    (hrole : c.role = .member ∧ c.isStatic = false ∨ c.role = .inheritance)
    (ht : units.type? c = some t) : InUse units t
  | on {e t : Entry} (he : InUse units e) (hpasses : e.passes) (ht : units.type? e = some t) :
    InUse units t

theorem InUse.mem {units : Units} {e : Entry} (h : InUse units e) : e ∈ units.entries := by
  cases h with
  | root he _ => exact he
  | part _ _ _ ht => exact Units.mem_of_type ht
  | on _ _ ht => exact Units.mem_of_type ht

def Noted (units : Units) (name : String) (meaning : Meaning) : Prop :=
  ∃ e, InUse units e ∧ Means units e name meaning

inductive Recorded (units : Units) (s : Findings) : String → Prop
  | synonym {name target : String} (h : Noted units name (.synonym target))
    (hkey : s.aliases.contains name) (htarget : Recorded units s target) : Recorded units s name
  | base {d : TypeDescriptor Quantity} (hd : d ∈ s.fallbackTypes) : Recorded units s d.name
  | aggregate {e : Entry} {name : String} (he : InUse units e) (hkind : e.aggregateKind?.isSome)
    (hname : e.properName? = some name) (h : e.isDefinition → s.named.contains name) :
    Recorded units s name
  | pointer {name : String} (h : Noted units (name ++ "*") .pointer) :
    Recorded units s (name ++ "*")
  | enumeration (h : Noted units "enum" .enumeration) : Recorded units s "enum"

structure Settled (s : Findings) (x : Entry) : Prop where
  named : ∀ name, x.properName? = some name → x.isDefinition → s.named.contains name
  nameless : x.properName? = none → (s.converted.lookup x.id).isSome

structure Converted (units : Units) (s : Findings) (e : Entry) (a : Aggregate Quantity) :
    Prop where
  comes : Comes units e a
  recorded : ∀ m ∈ a.members, ∀ name, Mentions m.type name → Recorded units s name
  settled : ∀ c ∈ e.children, ∀ x, PartLeads units c x → Settled s x
  named : ∀ name, e.properName? = some name → s.named.contains name

namespace Findings

structure Grows (s s' : Findings) : Prop where
  converted : ∀ id, (s.converted.lookup id).isSome → (s'.converted.lookup id).isSome
  named : ∀ name, s.named.contains name → s'.named.contains name
  aliases : ∀ name, s.aliases.contains name → s'.aliases.contains name
  fallbackTypes : s.fallbackTypes ⊆ s'.fallbackTypes

structure Sound (units : Units) (s : Findings) : Prop where
  converted : ∀ e ∈ units.entries, ∀ a, s.converted.lookup e.id = some a → Converted units s e a
  named : ∀ p ∈ s.named, ∃ e ∈ units.entries, e.Defines p.1 ∧ s.converted.lookup e.id = some p.2
  aliases : ∀ p ∈ s.aliases, Noted units p.1 (.synonym p.2) ∧ Recorded units s p.2
  fallbackTypes : ∀ d ∈ s.fallbackTypes, Noted units d.name (.base d)

end Findings

variable {units : Units} {s s' s'' : Findings} {e x : Entry} {a : Aggregate Quantity}
  {name target : String}

section Note

variable (s : Findings) (e : Entry) (a : Aggregate Quantity)

theorem aliases_note : (note e a s).aliases = s.aliases := by
  unfold note
  dsimp only
  split <;> rfl

theorem fallbackTypes_note : (note e a s).fallbackTypes = s.fallbackTypes := by
  unfold note
  dsimp only
  split <;> rfl

theorem named_note :
    (note e a s).named = if a.name.isEmpty then s.named else s.named.insert a.name a := by
  unfold note
  dsimp only
  split <;> rfl

theorem lookup_note (id : Int) : (note e a s).converted.lookup id =
    if id = e.id then some a else s.converted.lookup id := by
  have hconverted : (note e a s).converted = (e.id, a) :: s.converted := by
    unfold note
    dsimp only
    split <;> rfl
  rw [hconverted, List.lookup_cons]
  split
  · next hid => rw [if_pos (beq_iff_eq.mp hid)]
  · next hid => rw [if_neg (beq_eq_false_iff_ne.mp hid)]

variable {s e a}

theorem mem_named_note {p : String × Aggregate Quantity} (hp : p ∈ (note e a s).named) :
    p ∈ s.named ∨ p = (a.name, a) ∧ a.name.isEmpty = false := by
  rw [named_note] at hp
  split at hp
  · exact .inl hp
  · next hempty =>
    exact (Table.mem_insert hp).symm.imp_right fun h => ⟨h, Bool.eq_false_iff.mpr hempty⟩

end Note

namespace Findings.Grows

theorem refl (s : Findings) : Grows s s :=
  ⟨fun _ h => h, fun _ h => h, fun _ h => h, fun _ h => h⟩

theorem trans (h : Grows s s') (h' : Grows s' s'') : Grows s s'' where
  converted id hid := h'.converted id (h.converted id hid)
  named name hname := h'.named name (h.named name hname)
  aliases name hname := h'.aliases name (h.aliases name hname)
  fallbackTypes := List.Subset.trans h.fallbackTypes h'.fallbackTypes

theorem note (s : Findings) (e : Entry) (a : Aggregate Quantity) : s.Grows (note e a s) := by
  refine ⟨fun id hid => ?_, fun name hname => ?_, fun name hname => ?_, ?_⟩
  · rw [lookup_note]
    split
    · rfl
    · exact hid
  · rw [named_note]
    split
    · exact hname
    · exact Table.contains_insert.mpr (.inr hname)
  · rw [aliases_note]
    exact hname
  · rw [fallbackTypes_note]
    exact List.Subset.refl _

end Findings.Grows

theorem Recorded.mono (h : s.Grows s') (hs : Recorded units s name) : Recorded units s' name := by
  induction hs with
  | synonym hnoted hkey _ ih => exact .synonym hnoted (h.aliases _ hkey) ih
  | base hd => exact .base (h.fallbackTypes hd)
  | aggregate he hkind hname hs => exact .aggregate he hkind hname fun hdef => h.named _ (hs hdef)
  | pointer hnoted => exact .pointer hnoted
  | enumeration hnoted => exact .enumeration hnoted

theorem Settled.of_named (hname : x.properName? = some name)
    (h : x.isDefinition → s.named.contains name) : Settled s x where
  named other hother := by
    obtain rfl := Option.some.inj (hname.symm.trans hother)
    exact h
  nameless hnone := nomatch hname.symm.trans hnone

theorem Settled.mono (h : s.Grows s') (hs : Settled s x) : Settled s' x where
  named name hname hdef := h.named name (hs.named name hname hdef)
  nameless hname := h.converted _ (hs.nameless hname)

theorem Converted.mono (h : s.Grows s') (hs : Converted units s e a) : Converted units s' e a where
  comes := hs.comes
  recorded m hm name hname := (hs.recorded m hm name hname).mono h
  settled c hc x hx := (hs.settled c hc x hx).mono h
  named name hname := h.named name (hs.named name hname)

namespace Findings.Sound

theorem start (units : Units) : Sound units {} :=
  ⟨fun _ _ _ h => (nomatch h), fun _ h => (nomatch h), fun _ h => (nomatch h),
    fun _ h => (nomatch h)⟩

theorem of_grows (hs : s.Sound units) (grows : s.Grows s')
    (hconverted : s'.converted = s.converted) (hnamed : s'.named = s.named)
    (haliases : ∀ p ∈ s'.aliases,
      p ∈ s.aliases ∨ Noted units p.1 (.synonym p.2) ∧ Recorded units s p.2)
    (hfallback : ∀ d ∈ s'.fallbackTypes, d ∈ s.fallbackTypes ∨ Noted units d.name (.base d)) :
    s'.Sound units where
  converted e he a ha := by
    rw [hconverted] at ha
    exact (hs.converted e he a ha).mono grows
  named p hp := by
    rw [hconverted]
    exact hs.named p (hnamed ▸ hp)
  aliases p hp := by
    have hnoted : Noted units p.1 (.synonym p.2) ∧ Recorded units s p.2 :=
      (haliases p hp).elim (hs.aliases p) id
    exact ⟨hnoted.1, hnoted.2.mono grows⟩
  fallbackTypes d hd := (hfallback d hd).elim (hs.fallbackTypes d) id

theorem note (hs : s.Sound units) (hunits : units.Apart) (he : e ∈ units.entries)
    (hcomes : Comes units e a)
    (hrecorded : ∀ m ∈ a.members, ∀ name, Mentions m.type name → Recorded units s name)
    (hsettled : ∀ c ∈ e.children, ∀ x, PartLeads units c x → Settled s x)
    (hdefines : ∀ name, e.properName? = some name → e.Defines name) :
    (DebugInfo.note e a s).Sound units := by
  have grows := Grows.note s e a
  -- Two aggregates of one entry are the same, so that no name loses its aggregate.
  have hkept : ∀ e' ∈ units.entries, ∀ b, s.converted.lookup e'.id = some b →
      (DebugInfo.note e a s).converted.lookup e'.id = some b := by
    intro e' he' b hb
    rw [lookup_note]
    split
    · next hid =>
      obtain rfl := hunits.eq_of_id he' he hid
      rw [hcomes.unique (hs.converted e' he' b hb).comes]
    · exact hb
  refine ⟨?_, ?_, ?_, ?_⟩
  · intro e' he' b hb
    rw [lookup_note] at hb
    split at hb
    · next hid =>
      obtain rfl := hunits.eq_of_id he' he hid
      obtain rfl := Option.some.inj hb
      refine ⟨hcomes, fun m hm name hname => (hrecorded m hm name hname).mono grows,
        fun c hc x hx => (hsettled c hc x hx).mono grows, fun name hname => ?_⟩
      have hname' : a.name = name := hcomes.name_of_proper hname
      rw [named_note, hname', Entry.properName_ne_empty hname]
      exact Table.contains_insert.mpr (.inl rfl)
    · exact (hs.converted e' he' b hb).mono grows
  · intro p hp
    rcases mem_named_note hp with hp | ⟨rfl, hempty⟩
    · obtain ⟨e', he', hdefines', hb⟩ := hs.named p hp
      exact ⟨e', he', hdefines', hkept e' he' p.2 hb⟩
    · obtain ⟨name, hname⟩ := hcomes.proper_of_name hempty
      refine ⟨e, he, ?_, ?_⟩
      · rw [hcomes.name_of_proper hname]
        exact hdefines name hname
      · rw [lookup_note, if_pos rfl]
  · intro p hp
    have hnoted := hs.aliases p (aliases_note s e a ▸ hp)
    exact ⟨hnoted.1, hnoted.2.mono grows⟩
  · intro d hd
    exact hs.fallbackTypes d (fallbackTypes_note s e a ▸ hd)

end Findings.Sound

structure After (units : Units) (s s' : Findings) : Prop where
  sound : s'.Sound units
  grows : s.Grows s'

theorem After.trans (h : After units s s') (h' : After units s' s'') : After units s s'' :=
  ⟨h'.sound, h.grows.trans h'.grows⟩

theorem Findings.Sound.after (hs : s.Sound units) : After units s s := ⟨hs, .refl s⟩

end DebugInfo

end AggregateLayout
