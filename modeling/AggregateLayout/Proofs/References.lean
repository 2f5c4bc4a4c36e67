import Mathlib
import AggregateLayout.Proofs.Converting
import AggregateLayout.Proofs.Lookup
import AggregateLayout.Proofs.Missing
import AggregateLayout.Text.Utf8.Encode

namespace AggregateLayout.DebugInfo

variable {units : Units} {names : Option (List String)} {s : Findings} {d : Description}
  {e c t x : Entry} {a : Aggregate Quantity} {name : String} {p : MachineProfile Quantity}

theorem Leads.mem {steps : Nat} (h : Leads units steps t x) (ht : t ∈ units.entries) :
    x ∈ units.entries := by
  induction h with
  | here _ => exact ht
  | on _ ht' _ ih => exact ih (Units.mem_of_type ht')

theorem PartLeads.mem (h : PartLeads units c x) : x ∈ units.entries := by
  cases h with
  | member _ _ ht h => exact h.mem (Units.mem_of_type ht)
  | base _ ht _ _ => exact Units.mem_of_type ht

theorem settled_of_holds (hs : s.Sound units) (he : e ∈ units.entries)
    (hlookup : s.converted.lookup e.id = some a) (h : Holds units e x) : Settled s x := by
  induction h generalizing a with
  | part hc h => exact (hs.converted _ he a hlookup).settled _ hc _ h
  | inside hc h hy _ ih =>
    obtain ⟨b, hb⟩ := Option.isSome_iff_exists.mp
      (((hs.converted _ he a hlookup).settled _ hc _ h).nameless hy)
    exact ih h.mem hb

/-- The aliases of the name lead round in a circle, or to an aggregate that has no definition. -/
def Lacks (units : Units) (c : Catalog Quantity) (name : String) : Prop :=
  c.aliases.contains (c.resolve name) ∨
    ∃ x ∈ units.entries, ∃ other, x.aggregateKind?.isSome ∧ x.properName? = some other ∧
      x.isDefinition = false ∧ TypeName.normalize other = c.resolve name

namespace Loaded

theorem converted (h : Loaded units names d s) (ha : a ∈ d.definitions ++ d.aggregates) :
    ∃ e ∈ units.entries, e.Defines a.name ∧ s.converted.lookup e.id = some a :=
  h.sound.named (a.name, a) (h.found a ha)

theorem name_ne_empty (h : Loaded units names d s) :
    ∀ a ∈ d.definitions ++ d.aggregates, a.name.isEmpty = false := by
  intro a ha
  obtain ⟨e, _, hdefines, _⟩ := h.converted ha
  exact Entry.properName_ne_empty hdefines.named

theorem defined (h : Loaded units names d s) (hname : s.named.contains name) :
    ∃ b ∈ d.definitions ++ d.aggregates, b.name = name ∧
      ∀ p, (d.catalog p).aggregates.contains (TypeName.normalize name) := by
  obtain ⟨b, hb⟩ := Table.exists_mem_of_contains hname
  obtain ⟨a, ha, rfl⟩ := h.named _ hb
  refine ⟨a, ha, rfl, fun p => ?_⟩
  rcases Description.find?_aggregates_catalog (p := p) h.name_ne_empty
    (TypeName.normalize a.name) with ⟨_, _, _, hfind⟩ | ⟨hnone, _⟩
  · exact Option.isSome_of_eq_some hfind
  · exact absurd rfl (hnone a ha)

def Key (units : Units) (s : Findings) (k : String) : Prop :=
  (∃ name, Recorded units s name ∧ TypeName.normalize name = k) ∨
    ∃ spelling ∈ Catalog.spellings, TypeName.normalize spelling.2 = k

theorem key_resolve (h : Loaded units names d s) (hname : Recorded units s name) :
    Key units s ((d.catalog p).resolve name) := by
  refine Catalog.follow_induction (fun k target _ hfind => ?_) _ _ (.inl ⟨name, hname, rfl⟩)
  rcases Description.find?_aliases_catalog d p k with ⟨x, hx, _, hx'⟩ | ⟨_, hprofile⟩
  · obtain rfl := Option.some.inj (hx'.symm.trans hfind)
    rw [h.aliases] at hx
    exact .inl ⟨x.2, (h.sound.aliases x hx).2, rfl⟩
  · obtain ⟨spelling, hspelling, _, htarget⟩ :=
      Catalog.find?_aliases_ofProfile (hprofile.symm.trans hfind)
    exact .inr ⟨spelling, hspelling, htarget⟩

theorem contains_alias (h : Loaded units names d s) (hname : s.aliases.contains name) :
    (d.catalog p).aliases.contains (TypeName.normalize name) := by
  obtain ⟨target, htarget⟩ := Table.exists_mem_of_contains hname
  rw [← h.aliases] at htarget
  rcases Description.find?_aliases_catalog d p (TypeName.normalize name) with
    ⟨_, _, _, hfind⟩ | ⟨hnone, _⟩
  · exact Option.isSome_of_eq_some hfind
  · exact (hnone (name, target) htarget rfl).elim

theorem contains_primitive (h : Loaded units names d s)
    (hname : name ∈ (Catalog.primitives p).map (·.name)) :
    (d.catalog p).types.contains (TypeName.normalize name) := by
  obtain ⟨primitive, hprimitive, rfl⟩ := List.mem_map.mp hname
  rw [Description.types_catalog]
  apply Description.contains_foldl_registerFallback
  rw [Description.types_named h.types]
  exact Catalog.contains_types_ofProfile hprimitive

theorem contains_fallback (h : Loaded units names d s) {fallback : TypeDescriptor Quantity}
    (hfallback : fallback ∈ s.fallbackTypes)
    (halias : (d.catalog p).aliases.contains (TypeName.normalize fallback.name) = false) :
    (d.catalog p).types.contains (TypeName.normalize fallback.name) ∨
      TypeName.isPointer (TypeName.normalize fallback.name) := by
  have hnone : Catalog.next? (d.named p).aliases (TypeName.normalize fallback.name) = none := by
    rw [← Description.aliases_catalog, Catalog.next?,
      Option.not_isSome_iff_eq_none.mp (Bool.eq_false_iff.mp halias), Option.filter_none]
  rw [Description.types_catalog]
  refine (Description.contains_fallback (h.fallbackTypes ▸ hfallback)
    (Catalog.resolve_of_none hnone)).imp_right ?_
  rintro (hfound | hfound)
  · rw [Description.aggregates_named] at hfound
    exact absurd hfound Bool.false_ne_true
  · exact hfound

theorem known (h : Loaded units names d s) (hname : Recorded units s name) :
    (d.catalog p).aliases.contains (TypeName.normalize name) ∨
      (d.catalog p).types.contains (TypeName.normalize name) ∨
      (d.catalog p).aggregates.contains (TypeName.normalize name) ∨
      TypeName.isPointer (TypeName.normalize name) ∨
      ∃ x ∈ units.entries, x.aggregateKind?.isSome ∧ x.properName? = some name ∧
        x.isDefinition = false := by
  cases hname with
  | synonym _ hkey _ => exact .inl (h.contains_alias hkey)
  | base hd =>
    cases halias : (d.catalog p).aliases.contains (TypeName.normalize _) with
    | true => exact .inl rfl
    | false =>
      refine .inr ?_
      rcases h.contains_fallback hd halias with hfound | hfound
      · exact .inl hfound
      · exact .inr (.inr (.inl hfound))
  | @aggregate e _ huse hkind hproper hdefined =>
    refine .inr (.inr ?_)
    cases hdef : e.isDefinition with
    | true =>
      obtain ⟨_, _, _, hcontains⟩ := h.defined (hdefined hdef)
      exact .inl (hcontains p)
    | false => exact .inr (.inr ⟨e, huse.mem, hkind, hproper, hdef⟩)
  | pointer _ => exact .inr (.inr (.inr (.inl (TypeName.isPointer_normalize _))))
  | enumeration _ => exact .inr (.inl (h.contains_primitive (Catalog.enum_mem_primitives p)))

theorem lacks (h : Loaded units names d s) (hname : Recorded units s name)
    (hmissing : (d.catalog p).contains name = false) : Lacks units (d.catalog p) name := by
  have hkey := h.key_resolve (p := p) hname
  unfold Lacks
  unfold Catalog.contains at hmissing
  dsimp only at hmissing
  generalize (d.catalog p).resolve name = k at hkey hmissing ⊢
  rw [Bool.or_eq_false_iff, Bool.or_eq_false_iff] at hmissing
  obtain ⟨⟨htypes, haggregates⟩, hpointer⟩ := hmissing
  rcases hkey with ⟨other, hrecorded, rfl⟩ | ⟨spelling, hspelling, rfl⟩
  · rcases h.known (p := p) hrecorded with halias | hfound | hfound | hfound | hincomplete
    · exact .inl halias
    · exact absurd hfound (Bool.eq_false_iff.mp htypes)
    · exact absurd hfound (Bool.eq_false_iff.mp haggregates)
    · exact absurd hfound (Bool.eq_false_iff.mp hpointer)
    · obtain ⟨x, hx, hkind, hproper, hdef⟩ := hincomplete
      exact .inr ⟨x, hx, other, hkind, hproper, hdef, rfl⟩
  · have hprimitive := Catalog.spelling_mem_primitives p spelling hspelling
    exact absurd (h.contains_primitive hprimitive) (Bool.eq_false_iff.mp htypes)

def Within (units : Units) (s : Findings) (a : Aggregate Quantity) : Prop :=
  ∀ m ∈ a.members, ∀ name, Mentions m.type name → Recorded units s name

theorem within (h : Loaded units names d s) (ha : a ∈ d.definitions ++ d.aggregates) :
    Within units s a := by
  obtain ⟨e, he, _, hlookup⟩ := h.converted ha
  exact (h.sound.converted e he a hlookup).recorded

theorem mem_of_aggregate? {b : Aggregate Quantity} (h : Loaded units names d s)
    (hb : (d.catalog p).aggregate? name = some b) : b ∈ d.definitions ++ d.aggregates := by
  rcases Description.find?_aggregates_catalog (p := p) h.name_ne_empty
    ((d.catalog p).resolve name) with ⟨c, hc, _, hfind⟩ | ⟨_, hnone⟩
  · obtain rfl := Option.some.inj (hfind.symm.trans hb)
    exact hc
  · cases hnone.symm.trans hb

theorem within_nested {t : Target Quantity} {m : Member Quantity} {b : Aggregate Quantity}
    (h : Loaded units names d s) (ht : t.catalog = d.catalog p) (ha : Within units s a)
    (hm : m ∈ a.members) (hb : t.nested? m.type = some b) : Within units s b := by
  cases htype : m.type with
  | descriptor d =>
    rw [htype] at hb
    cases hb
  | inline b' =>
    rw [htype] at hb
    obtain rfl := Option.some.inj hb
    intro m' hm' name hname
    refine ha m hm name ?_
    rw [htype]
    exact .inline hm' hname
  | named name =>
    rw [htype] at hb
    change t.catalog.nested? name = some b at hb
    unfold Catalog.nested? at hb
    split at hb
    · cases hb
    · rw [ht] at hb
      exact h.within (h.mem_of_aggregate? hb)

end Loaded

theorem references_defined {path : String} (hunits : units.Apart)
    (h : (describe path units names).1 = .ok d) :
    ∀ a ∈ d.definitions ++ d.aggregates,
      (∃ e ∈ units.entries, e.Defines a.name ∧ Comes units e a ∧
        ∀ x name, Holds units e x → x.properName? = some name → x.isDefinition →
          ∃ b ∈ d.definitions ++ d.aggregates, b.name = name ∧
            ∀ p, (d.catalog p).aggregates.contains (TypeName.normalize name)) ∧
      ∀ p maxDepth error name,
        ({ catalog := d.catalog p, maxDepth } : Target Quantity).layout a =
          .error (.invalid error) →
        error.cause = .unknownType name → Lacks units (d.catalog p) name := by
  obtain ⟨s, hload⟩ := loaded_of_describe hunits h
  intro a ha
  constructor
  · obtain ⟨e, he, hdefines, hlookup⟩ := hload.converted ha
    refine ⟨e, he, hdefines, (hload.sound.converted e he a hlookup).comes, ?_⟩
    intro x name hx hname hdef
    exact hload.defined ((settled_of_holds hload.sound he hlookup hx).named name hname hdef)
  · intro p maxDepth error name hlayout hcause
    let t : Target Quantity := { catalog := d.catalog p, maxDepth }
    have hmissing : ∀ a, Loaded.Within units s a → ∀ m ∈ a.members, ∀ name,
        m.type = .named name → t.catalog.contains name = false →
        Lacks units (d.catalog p) name := by
      intro a ha m hm name htype hmissing
      refine hload.lacks (ha m hm name ?_) hmissing
      rw [htype]
      exact .named
    have hnested : ∀ a, Loaded.Within units s a → ∀ m ∈ a.members, ∀ b,
        t.nested? m.type = some b → Loaded.Within units s b :=
      fun a ha m hm b hb => hload.within_nested rfl ha hm hb
    exact t.layout_misses hmissing hnested (hload.within ha) hlayout hcause

def nameAttribute (name : String) : String × AttributeValue :=
  ("name", .bytes (Text.Utf8.bytes name))

def numberAttribute (key : String) (n : Int) : String × AttributeValue :=
  (key, .stated (.integer n))

def structEntry (id : Int) (name : String) (size : Int) (children : List Entry) : Entry where
  id
  tag := "DW_TAG_structure_type"
  attributes := [nameAttribute name, numberAttribute "byte_size" size]
  children
  hasChildren := !children.isEmpty

def memberEntry (id : Int) (name : String) (type : Int) : Entry where
  id
  tag := "DW_TAG_member"
  attributes := [nameAttribute name, numberAttribute "type" type]

def baseEntry (id : Int) (name : String) (size : Int) : Entry where
  id
  tag := "DW_TAG_base_type"
  attributes := [nameAttribute name, numberAttribute "byte_size" size]

def charType : TypeDescriptor Quantity :=
  .basic "char" ⟨.whole 1, by decide⟩ .one .scalar true

def intType : TypeDescriptor Quantity :=
  .basic "int" ⟨.whole 4, by decide⟩ .four .scalar true

def parcelUnits : Units :=
  [[structEntry 1 "item" 1 [memberEntry 2 "c" 6],
    structEntry 3 "parcel" 8 [memberEntry 4 "item" 1, memberEntry 5 "n" 7],
    baseEntry 6 "char" 1, baseEntry 7 "int" 4]]

def item : Aggregate Quantity where
  name := "item"
  members := [{ name := "c", type := .named "char" }]

def parcel : Aggregate Quantity where
  name := "parcel"
  members := [{ name := "item", type := .named "item" }, { name := "n", type := .named "int" }]

def parcelDescription : Description where
  aggregates := [parcel]
  definitions := [item]
  fallbackTypes := [charType, intType]
  reportedSizes := [("item", .stated (.integer 1)), ("parcel", .stated (.integer 8))]

theorem references_defined_parcel :
    parcelUnits.Apart ∧
      (describe "app.elf" parcelUnits (some ["parcel"])).1 = .ok parcelDescription ∧
      ∃ e ∈ parcelUnits.entries, e.Defines "parcel" ∧ Comes parcelUnits e parcel ∧
        ∀ x name, Holds parcelUnits e x → x.properName? = some name → x.isDefinition →
          ∃ b ∈ parcelDescription.definitions ++ parcelDescription.aggregates, b.name = name ∧
            ∀ p, (parcelDescription.catalog p).aggregates.contains (TypeName.normalize name) := by
  have hunits : parcelUnits.Apart := by
    unfold Units.Apart
    decide
  have hdescribe :
      (describe "app.elf" parcelUnits (some ["parcel"])).1 = .ok parcelDescription := by
    with_unfolding_all rfl
  have hmem : parcel ∈ parcelDescription.definitions ++ parcelDescription.aggregates :=
    .tail _ (.head _)
  exact ⟨hunits, hdescribe, (references_defined hunits hdescribe parcel hmem).1⟩

def tagUnits : Units :=
  [[structEntry 1 "tag" 0 [],
    structEntry 2 "holder" 4 [memberEntry 3 "t" 1, memberEntry 4 "x" 5],
    baseEntry 5 "int" 4]]

def holder : Aggregate Quantity where
  name := "holder"
  members := [{ name := "t", type := .named "tag" }, { name := "x", type := .named "int" }]

def holderDescription : Description where
  aggregates := [holder]
  fallbackTypes := [intType]
  reportedSizes := [("holder", .stated (.integer 4))]

theorem layout_fails_emptyTag :
    (describe "app.elf" tagUnits (some ["holder"])).1 = .ok holderDescription ∧
      (∃ e ∈ tagUnits.entries, Comes tagUnits e holder ∧
        Holds tagUnits e (structEntry 1 "tag" 0 [])) ∧
      (structEntry 1 "tag" 0 []).has "declaration" = false ∧
      ((structEntry 1 "tag" 0 []).value? "byte_size").isSome ∧
      (holderDescription.catalog .lp64).aggregates.contains "tag" = false ∧
      ({ catalog := holderDescription.catalog .lp64 } : Target Quantity).layout holder =
        .error (.invalid
          { cause := .unknownType "tag", aggregate := some "holder", member := some "t" }) := by
  refine ⟨by with_unfolding_all rfl, ⟨_, .tail _ (.head _), ?_, ?_⟩, rfl, rfl, ?_, ?_⟩
  · refine Filter.eventually_atTop.mpr ⟨1, fun levels hlevels => ?_⟩
    obtain ⟨depth, rfl⟩ := Nat.exists_eq_add_of_le' hlevels
    with_unfolding_all rfl
  · exact .part (.head _) (.member rfl rfl rfl (.here rfl))
  · rfl
  · rfl

end AggregateLayout.DebugInfo
