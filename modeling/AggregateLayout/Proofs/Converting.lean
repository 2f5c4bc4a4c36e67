import Mathlib
import AggregateLayout.Proofs.Findings
import AggregateLayout.Proofs.Layouting

namespace AggregateLayout.DebugInfo

def Yields {α : Type} (x : Conversion α) (s : Findings) (Q : α → Findings → Prop) : Prop :=
  ∀ a s', x.run s = (.ok a, s') → Q a s'

namespace Yields

variable {α β : Type} {x : Conversion α} {f : α → Conversion β} {s : Findings}
  {Q R : α → Findings → Prop}

theorem mono (h : Yields x s Q) (hqr : ∀ a s', Q a s' → R a s') : Yields x s R :=
  fun a s' hx => hqr a s' (h a s' hx)

theorem pure {a : α} (h : Q a s) : Yields (pure a) s Q := by
  rintro a' s' ⟨⟩
  exact h

theorem throw {fault : ConversionFault} : Yields (throw fault) s Q := by
  rintro a s' ⟨⟩

theorem bind {Q : β → Findings → Prop} (h : Yields x s fun a s' => Yields (f a) s' Q) :
    Yields (x >>= f) s Q := by
  intro b s'' hrun
  change (ExceptT.bindCont f (x.run s).1).run (x.run s).2 = _ at hrun
  cases hx : x.run s with
  | mk r s' =>
    rw [hx] at hrun
    cases r with
    | ok a => exact h a s' hx b s'' hrun
    | error fault => cases hrun

theorem get {Q : Findings → Findings → Prop} (h : Q s s) : Yields get s Q := by
  rintro a s' ⟨⟩
  exact h

theorem modify {g : Findings → Findings} {Q : Unit → Findings → Prop} (h : Q () (g s)) :
    Yields (modify g) s Q := by
  rintro a s' ⟨⟩
  exact h

end Yields

variable {units : Units} {s s' : Findings} {e x : Entry} {a : Aggregate Quantity} {name : String}

theorem say_yields (hs : s.Sound units) (line : LogLine) :
    Yields (say line) s fun _ s' => After units s s' := by
  have grows : s.Grows { s with log := s.log ++ [line] } :=
    ⟨fun _ h => h, fun _ h => h, fun _ h => h, fun _ h => h⟩
  exact .modify ⟨hs.of_grows grows rfl rfl (fun _ => .inl) fun _ => .inl, grows⟩

theorem scalarOf_yields {name : String} {size : Quantity} {isInteger : Bool}
    {Q : TypeDescriptor Quantity → Findings → Prop}
    (h : ∀ d, TypeDescriptor.scalar name size none isInteger = .ok d → Q d s) :
    Yields (scalarOf name size isInteger) s Q := by
  unfold scalarOf
  split
  · next d hd => exact .pure (h d hd)
  · exact .throw

theorem noteBase_yields {size : Quantity} (hs : s.Sound units) (he : InUse units e)
    (hrole : e.role = .base) (hname : e.properName? = some name)
    (hsize : e.integer? "byte_size" = some size) :
    Yields (noteBase e name size) s fun _ s' => After units s s' ∧ Recorded units s' name := by
  unfold noteBase
  refine .bind (.get ?_)
  split
  · refine .bind (scalarOf_yields fun d hd => .modify ?_)
    have hd' : d.name = name := TypeDescriptor.name_scalar hd
    have hnoted : Noted units d.name (.base d) := ⟨e, he, hd' ▸ .base hrole hname hsize hd⟩
    have grows : s.Grows { s with fallbackTypes := s.fallbackTypes ++ [d] } :=
      ⟨fun _ h => h, fun _ h => h, fun _ h => h, List.subset_append_left _ _⟩
    refine ⟨⟨hs.of_grows grows rfl rfl (fun _ => .inl) fun d' hd' => ?_, grows⟩, ?_⟩
    · refine (List.mem_append.mp hd').imp_right fun hd' => ?_
      rw [List.mem_singleton.mp hd']
      exact hnoted
    · rw [← hd']
      exact .base (List.mem_append.mpr (.inr (List.mem_singleton.mpr rfl)))
  · next hany =>
    refine .pure ⟨hs.after, ?_⟩
    rw [Bool.not_eq_true, Bool.not_eq_false', List.any_eq_true] at hany
    obtain ⟨d, hd, hd'⟩ := hany
    rw [← beq_iff_eq.mp hd']
    exact .base hd

section Types

variable {f : Entry → Conversion (Aggregate Quantity)} {steps : Nat}

def Converts (units : Units) (f : Entry → Conversion (Aggregate Quantity)) : Prop :=
  ∀ e ∈ units.entries, (∀ name, e.properName? = some name → e.Defines name) →
    ∀ s, s.Sound units → Yields (f e) s fun a s' =>
      After units s s' ∧ s'.converted.lookup e.id = some a

theorem ensureNamed_yields (hf : Converts units f) (hs : s.Sound units) (he : e ∈ units.entries)
    (hkind : e.aggregateKind?.isSome) (hname : e.properName? = some name) :
    Yields (ensureNamed f e) s fun _ s' =>
      After units s s' ∧ (e.isDefinition → s'.named.contains name) := by
  unfold ensureNamed
  rw [hname]
  refine .bind (.get ?_)
  split
  · next hnew =>
    rw [Bool.and_eq_true, Bool.not_eq_true'] at hnew
    have hdefines : ∀ other, e.properName? = some other → e.Defines other :=
      fun other hother => ⟨hkind, hother, hnew.2⟩
    refine .bind ((hf e he hdefines s hs).mono fun a s' h => .pure ⟨h.1, fun _ => ?_⟩)
    exact (h.1.sound.converted e he a h.2).named name hname
  · next hold =>
    refine .pure ⟨hs.after, fun hdef => ?_⟩
    by_contra hmissing
    exact hold (by rw [hdef, Bool.eq_false_iff.mpr hmissing]; rfl)

structure TypeFound (units : Units) (steps : Nat) (e : Entry)
    (r : Option (TypeRef Quantity × List Quantity)) (s : Findings) : Prop where
  reads : ∀ᶠ levels in Filter.atTop, readType units (readAggregate units levels) steps e = r
  recorded : ∀ type dims, r = some (type, dims) → ∀ name, Mentions type name → Recorded units s name
  settled : ∀ x, Leads units steps e x → Settled s x

theorem Leads.eq_of_aggregate (h : Leads units steps e x) (hkind : e.aggregateKind?.isSome) :
    x = e := by
  cases h with
  | here _ => rfl
  | on hpasses _ _ => cases (Entry.passes_of_aggregate hkind).symm.trans hpasses

theorem Leads.next {t : Entry} (h : Leads units (steps + 1) e x) (hpasses : e.passes)
    (ht : units.type? e = some t) : Leads units steps t x := by
  cases h with
  | here hkind => cases (Entry.passes_of_aggregate hkind).symm.trans hpasses
  | on _ ht' h =>
    obtain rfl := Option.some.inj (ht.symm.trans ht')
    exact h

theorem not_leads (hkind : e.aggregateKind? = none)
    (hon : e.passes = false ∨ units.type? e = none) : ¬ Leads units steps e x := by
  rintro (hx | ⟨hpasses, ht, _⟩)
  · rw [hkind] at hx
    cases hx
  · rcases hon with hon | hon
    · rw [hon] at hpasses
      cases hpasses
    · rw [hon] at ht
      cases ht

theorem TypeFound.mono {r : Option (TypeRef Quantity × List Quantity)}
    (h : TypeFound units steps e r s) (grows : s.Grows s') : TypeFound units steps e r s' where
  reads := h.reads
  recorded type dims hr name hname := (h.recorded type dims hr name hname).mono grows
  settled x hx := (h.settled x hx).mono grows

theorem TypeFound.of_name (hreads : ∀ inner, readType units inner steps e = some (.named name, []))
    (hrecorded : Recorded units s name) (hleads : ∀ x, ¬ Leads units steps e x) :
    TypeFound units steps e (some (.named name, [])) s := by
  refine ⟨.of_forall fun _ => hreads _, ?_, fun x hx => absurd hx (hleads x)⟩
  rintro _ _ ⟨⟩ _ ⟨⟩
  exact hrecorded

theorem TypeFound.nothing (hreads : ∀ inner, readType units inner steps e = none)
    (hleads : ∀ x, ¬ Leads units steps e x) : TypeFound units steps e none s :=
  ⟨.of_forall fun _ => hreads _, fun _ _ h => (nomatch h), fun x hx => absurd hx (hleads x)⟩

theorem TypeFound.of_target {t : Entry} {r r' : Option (TypeRef Quantity × List Quantity)}
    (h : TypeFound units steps t r s) (hpasses : e.passes) (ht : units.type? e = some t)
    (hreads : ∀ inner, readType units inner steps t = r →
      readType units inner (steps + 1) e = r')
    (hrecorded : ∀ type dims, r' = some (type, dims) →
      ∀ name, Mentions type name → Recorded units s name) :
    TypeFound units (steps + 1) e r' s where
  reads := h.reads.mono fun _ => hreads _
  recorded := hrecorded
  settled x hx := h.settled x (hx.next hpasses ht)

def FindsType (units : Units) (f : Entry → Conversion (Aggregate Quantity)) (steps : Nat)
    (e : Entry) (s : Findings) : Prop :=
  Yields (typeOf units f steps e) s fun r s' => After units s s' ∧ TypeFound units steps e r s'

theorem typeOf_qualifier (hs : s.Sound units) (hrole : e.role = .qualifier)
    (htarget : ∀ t, e.passes → units.type? e = some t → FindsType units f steps t s) :
    FindsType units f (steps + 1) e s := by
  have hkind : e.aggregateKind? = none := by simp only [Entry.aggregateKind?, hrole]
  have hpasses : e.passes := by simp only [Entry.passes, hrole]
  unfold FindsType typeOf
  simp only [hrole]
  cases ht : units.type? e with
  | none =>
    refine .pure ⟨hs.after, .nothing (fun _ => ?_) fun _ => not_leads hkind (.inr ht)⟩
    simp only [readType, hrole, ht]
  | some t =>
    refine (htarget t hpasses ht).mono ?_
    rintro r s' ⟨hafter, hfound⟩
    refine ⟨hafter, hfound.of_target hpasses ht (fun _ h => ?_) hfound.recorded⟩
    simp only [readType, hrole, ht, h]

theorem typeOf_array (hs : s.Sound units) (hrole : e.role = .array)
    (htarget : ∀ t, e.passes → units.type? e = some t → FindsType units f steps t s) :
    FindsType units f (steps + 1) e s := by
  have hkind : e.aggregateKind? = none := by simp only [Entry.aggregateKind?, hrole]
  have hpasses : e.passes := by simp only [Entry.passes, hrole]
  unfold FindsType typeOf
  simp only [hrole]
  cases ht : units.type? e with
  | none =>
    refine .pure ⟨hs.after, .nothing (fun _ => ?_) fun _ => not_leads hkind (.inr ht)⟩
    simp only [readType, hrole, ht]
  | some t =>
    refine .bind ((htarget t hpasses ht).mono ?_)
    rintro r s' ⟨hafter, hfound⟩
    cases r with
    | none =>
      refine .pure ⟨hafter, hfound.of_target hpasses ht (fun _ h => ?_) hfound.recorded⟩
      simp only [readType, hrole, ht, h, Option.map_none]
    | some r =>
      refine .pure ⟨hafter, hfound.of_target hpasses ht (fun _ h => ?_) ?_⟩
      · simp only [readType, hrole, ht, h, Option.map_some]
      · rintro _ _ ⟨⟩
        exact hfound.recorded _ _ rfl

theorem typeOf_synonym {t : Entry} (he : InUse units e) (hrole : e.role = .typedef)
    (hname : e.properName? = some name) (hpasses : e.passes) (ht : units.type? e = some t)
    (htarget : FindsType units f steps t s) : FindsType units f (steps + 1) e s := by
  have hreads : ∀ inner r, readType units inner steps t = r →
      readType units inner (steps + 1) e = renamed name r := by
    intro inner r h
    simp only [readType, hrole, ht, hname, h]
  unfold FindsType typeOf
  simp only [hrole, ht, hname]
  refine .bind (htarget.mono fun r s' ⟨hafter, hfound⟩ => ?_)
  split
  · next target _ =>
    obtain ⟨_, hread⟩ := hfound.reads.exists
    have hnoted : Noted units name (.synonym target) := ⟨e, he, .synonym hrole hname ht hread⟩
    have hrecorded : Recorded units s' target := hfound.recorded _ _ rfl _ .named
    have grows : s'.Grows { s' with aliases := s'.aliases.insert name target } :=
      ⟨fun _ h => h, fun _ h => h, fun _ h => Table.contains_insert.mpr (.inr h), fun _ h => h⟩
    have hsound := hafter.sound.of_grows grows rfl rfl (fun p hp =>
      (Table.mem_insert hp).symm.imp_right fun h => by
        subst h
        exact ⟨hnoted, hrecorded⟩) fun _ => .inl
    refine .bind (.modify (.pure ⟨hafter.trans ⟨hsound, grows⟩, ?_⟩))
    refine (hfound.mono grows).of_target hpasses ht (fun inner => hreads inner _) ?_
    rintro _ _ ⟨⟩ _ ⟨⟩
    exact .synonym hnoted (Table.contains_insert.mpr (.inl rfl)) (hrecorded.mono grows)
  · next hother =>
    have hrenamed : renamed name r = r := by
      unfold renamed
      split
      · exact absurd rfl (hother _)
      · rfl
    refine .pure ⟨hafter, hfound.of_target hpasses ht (fun inner h => ?_) hfound.recorded⟩
    rw [hreads inner r h, hrenamed]

theorem typeOf_typedef (he : InUse units e) (hs : s.Sound units) (hrole : e.role = .typedef)
    (htarget : ∀ t, e.passes → units.type? e = some t → FindsType units f steps t s) :
    FindsType units f (steps + 1) e s := by
  have hkind : e.aggregateKind? = none := by simp only [Entry.aggregateKind?, hrole]
  cases ht : units.type? e with
  | none =>
    unfold FindsType typeOf
    simp only [hrole, ht]
    refine .pure ⟨hs.after, .nothing (fun _ => ?_) fun _ => not_leads hkind (.inr ht)⟩
    simp only [readType, hrole, ht]
  | some t =>
    cases hname : e.properName? with
    | none =>
      have hpasses : e.passes = false := by simp only [Entry.passes, hrole, hname]; rfl
      unfold FindsType typeOf
      simp only [hrole, ht, hname]
      refine .pure ⟨hs.after, .nothing (fun _ => ?_) fun _ => not_leads hkind (.inl hpasses)⟩
      simp only [readType, hrole, ht, hname]
    | some name =>
      have hpasses : e.passes := by simp only [Entry.passes, hrole, hname]; rfl
      exact typeOf_synonym he hrole hname hpasses ht (htarget t hpasses ht)

theorem typeOf_aggregate (hf : Converts units f) (he : InUse units e) (hs : s.Sound units)
    {kind : AggregateKind} (hrole : e.role = .aggregate kind) :
    FindsType units f (steps + 1) e s := by
  have hkind : e.aggregateKind?.isSome := by
    simp only [Entry.aggregateKind?, hrole, Option.isSome_some]
  unfold FindsType typeOf
  simp only [hrole]
  cases hname : e.properName? with
  | some name =>
    refine .bind ((ensureNamed_yields hf hs he.mem hkind hname).mono fun _ s' ⟨hafter, hdef⟩ => ?_)
    refine .pure ⟨hafter, .of_forall fun _ => ?_, ?_, fun x hx => ?_⟩
    · simp only [readType, hrole, hname]
    · rintro _ _ ⟨⟩ _ ⟨⟩
      exact .aggregate he hkind hname hdef
    · obtain rfl := hx.eq_of_aggregate hkind
      exact .of_named hname hdef
  | none =>
    have hproper : ∀ name, e.properName? = some name → e.Defines name :=
      fun _ h => (nomatch hname.symm.trans h)
    refine .bind ((hf e he.mem hproper s hs).mono fun a s' ⟨hafter, hlookup⟩ => ?_)
    have hconverted := hafter.sound.converted e he.mem a hlookup
    refine .pure ⟨hafter, hconverted.comes.mono fun _ h => ?_, ?_, fun x hx => ?_⟩
    · simp only [readType, hrole, hname, h]
    · rintro _ _ ⟨⟩ _ (_ | ⟨hm, hmentions⟩)
      exact hconverted.recorded _ hm _ hmentions
    · obtain rfl := hx.eq_of_aggregate hkind
      refine ⟨fun _ h => (nomatch hname.symm.trans h), fun _ => ?_⟩
      rw [hlookup]
      rfl

theorem typeOf_base (he : InUse units e) (hs : s.Sound units) (hrole : e.role = .base)
    (hleads : ∀ x, ¬ Leads units (steps + 1) e x) : FindsType units f (steps + 1) e s := by
  unfold FindsType typeOf
  simp only [hrole]
  split
  · next name size hname hsize =>
    have hnote := noteBase_yields hs he hrole hname hsize
    refine .bind (hnote.mono fun _ s' ⟨hafter, hrecorded⟩ => ?_)
    refine .pure ⟨hafter, .of_name (fun _ => ?_) hrecorded hleads⟩
    simp only [readType, hrole, hname, hsize]
  · refine .pure ⟨hs.after, .nothing (fun _ => ?_) hleads⟩
    simp only [readType, hrole]

theorem typeOf_enumeration (he : InUse units e) (hs : s.Sound units)
    (hrole : e.role = .enumeration) (hleads : ∀ x, ¬ Leads units (steps + 1) e x) :
    FindsType units f (steps + 1) e s := by
  unfold FindsType typeOf
  simp only [hrole]
  cases hsize : e.integer? "byte_size" with
  | none =>
    refine .pure ⟨hs.after, .of_name (fun _ => ?_) ?_ hleads⟩
    · simp only [readType, hrole, hsize]
    · exact .enumeration ⟨e, he, .enumeration hrole hsize⟩
  | some size =>
    refine .bind (scalarOf_yields fun d hd => .pure ⟨hs.after, .of_forall fun _ => ?_, ?_, ?_⟩)
    · simp only [readType, hrole, hsize, hd]
    · rintro _ _ ⟨⟩ _ ⟨⟩
    · exact fun x hx => absurd hx (hleads x)

theorem typeOf_yields (hf : Converts units f) (steps : Nat) (e : Entry) (he : InUse units e)
    (hs : s.Sound units) : FindsType units f steps e s := by
  induction steps generalizing e s with
  | zero =>
    refine .bind ((say_yields hs _).mono fun _ s' h => .pure ⟨h, .nothing (fun _ => rfl) ?_⟩)
    exact fun _ h => (nomatch h)
  | succ steps ih =>
    have htarget : ∀ t, e.passes → units.type? e = some t → FindsType units f steps t s :=
      fun t hpasses ht => ih t (he.on hpasses ht) hs
    -- Only aggregates and what passes on to a target leave something for `Leads`.
    have hleads : e.aggregateKind? = none → e.passes = false →
        ∀ x, ¬ Leads units (steps + 1) e x :=
      fun hkind hpasses _ => not_leads hkind (.inl hpasses)
    unfold Entry.aggregateKind? Entry.passes at hleads
    cases hrole : e.role with
    | qualifier => exact typeOf_qualifier hs hrole htarget
    | array => exact typeOf_array hs hrole htarget
    | typedef => exact typeOf_typedef he hs hrole htarget
    | aggregate kind => exact typeOf_aggregate hf he hs hrole
    | base => exact typeOf_base he hs hrole (hleads (by rw [hrole]) (by rw [hrole]))
    | enumeration => exact typeOf_enumeration he hs hrole (hleads (by rw [hrole]) (by rw [hrole]))
    | pointer =>
      rw [hrole] at hleads
      unfold FindsType typeOf
      simp only [hrole]
      refine .pure ⟨hs.after, .of_name (fun _ => ?_) ?_ (hleads rfl rfl)⟩
      · simp only [readType, hrole]
      · exact .pointer ⟨e, he, .pointer hrole⟩
    | _ =>
      rw [hrole] at hleads
      unfold FindsType typeOf
      simp only [hrole]
      refine .pure ⟨hs.after, .nothing (fun _ => ?_) (hleads rfl rfl)⟩
      simp only [readType, hrole]

structure PartFound (units : Units) (index : Nat) (c : Entry) (m : Option (Member Quantity))
    (s : Findings) : Prop where
  reads : ∀ᶠ levels in Filter.atTop, readPart units (readAggregate units levels) index c = m
  recorded : ∀ member ∈ m, ∀ name, Mentions member.type name → Recorded units s name
  settled : ∀ x, PartLeads units c x → Settled s x

theorem PartFound.nothing {index : Nat} {c : Entry}
    (hreads : ∀ inner, readPart units inner index c = none)
    (hleads : ∀ x, ¬ PartLeads units c x) : PartFound units index c none s :=
  ⟨.of_forall fun _ => hreads _, fun _ h => (nomatch h), fun x hx => absurd hx (hleads x)⟩

theorem memberOf_yields {c : Entry} {owner : String} {index : Nat} (hf : Converts units f)
    (hs : s.Sound units) (he : e ∈ units.entries) (hc : c ∈ e.children) (hrole : c.role = .member)
    (hstatic : c.isStatic = false) :
    Yields (memberOf units f owner index c) s fun m s' =>
      After units s s' ∧ PartFound units index c m s' := by
  unfold memberOf
  cases ht : units.type? c with
  | none =>
    refine .bind ((say_yields hs _).mono fun _ s' h => .pure ⟨h, .nothing (fun _ => ?_) ?_⟩)
    · simp only [readPart, hrole, hstatic, readMember, ht]
      rfl
    · rintro x (⟨_, _, ht', _⟩ | ⟨_, ht', _, _⟩) <;> cases ht.symm.trans ht'
  | some t =>
    have huse : InUse units t := .part he hc (.inl ⟨hrole, hstatic⟩) ht
    have hsettled : ∀ {r s'}, TypeFound units (maxChain + 1) t r s' →
        ∀ x, PartLeads units c x → Settled s' x := by
      rintro r s' hfound x (⟨_, _, ht', hleads⟩ | ⟨hrole', _, _, _⟩)
      · obtain rfl := Option.some.inj (ht.symm.trans ht')
        exact hfound.settled x hleads
      · cases hrole.symm.trans hrole'
    have hreads : ∀ {inner r}, readType units inner (maxChain + 1) t = r →
        readPart units inner index c = r.map fun resolved =>
          { name := c.properName?.getD s!"__anon{index}", type := resolved.1, dims := resolved.2,
            bits := c.integer? "bit_size" } := by
      rintro inner r rfl
      simp only [readPart, hrole, hstatic, readMember, ht]
      rfl
    refine .bind ((typeOf_yields hf (maxChain + 1) t huse hs).mono ?_)
    rintro r s' ⟨hafter, hfound⟩
    cases r with
    | some r =>
      refine .pure ⟨hafter, hfound.reads.mono fun _ => hreads, ?_, hsettled hfound⟩
      rintro _ ⟨⟩
      exact hfound.recorded _ _ rfl
    | none =>
      refine .bind ((say_yields hafter.sound _).mono fun _ s'' h => .pure ⟨hafter.trans h, ?_⟩)
      refine ⟨hfound.reads.mono fun _ => hreads, ?_, fun x hx => ?_⟩
      · rintro _ ⟨⟩
      · exact (hsettled hfound x hx).mono h.grows

theorem baseOf_yields {c : Entry} {index : Nat} (hf : Converts units f) (hs : s.Sound units)
    (he : e ∈ units.entries) (hc : c ∈ e.children) (hrole : c.role = .inheritance) :
    Yields (baseOf units f c) s fun m s' =>
      After units s s' ∧ PartFound units index c m s' := by
  have hreads : ∀ inner, readPart units inner index c = readBase units c := by
    intro inner
    simp only [readPart, hrole]
  have hmember : c.role ≠ .member := by
    rw [hrole]
    exact nofun
  unfold baseOf
  cases ht : units.type? c with
  | none =>
    refine .pure ⟨hs.after, .nothing (fun _ => ?_) ?_⟩
    · simp only [hreads, readBase, ht]
    · rintro x (⟨hrole', _, _, _⟩ | ⟨_, ht', _, _⟩)
      · exact hmember hrole'
      · cases ht.symm.trans ht'
  | some base =>
    have huse : InUse units base := .part he hc (.inr hrole) ht
    have hbase : ∀ {x}, PartLeads units c x →
        x = base ∧ base.aggregateKind?.isSome ∧ base.properName?.isSome := by
      rintro x (⟨hrole', _, _, _⟩ | ⟨_, ht', hkind, hname⟩)
      · exact absurd hrole' hmember
      · obtain rfl := Option.some.inj (ht.symm.trans ht')
        exact ⟨rfl, hkind, hname⟩
    dsimp only
    split
    · next kind name hkind hname =>
      have hkind' : base.aggregateKind?.isSome := by rw [hkind]; rfl
      have hensured := ensureNamed_yields hf hs huse.mem hkind' hname
      refine .bind (hensured.mono fun _ s' ⟨hafter, hdef⟩ => .pure ⟨hafter, ?_, ?_, ?_⟩)
      · refine .of_forall fun _ => ?_
        simp only [hreads, readBase, ht, hkind, hname]
      · rintro _ ⟨⟩ _ ⟨⟩
        exact .aggregate huse hkind' hname hdef
      · intro x hx
        obtain ⟨rfl, _, _⟩ := hbase hx
        exact .of_named hname hdef
    · next hnone =>
      refine .pure ⟨hs.after, .nothing (fun _ => ?_) fun x hx => ?_⟩
      · simp only [hreads, readBase, ht]
      · obtain ⟨_, hkind, hname⟩ := hbase hx
        obtain ⟨kind, hkind⟩ := Option.isSome_iff_exists.mp hkind
        obtain ⟨name, hname⟩ := Option.isSome_iff_exists.mp hname
        exact hnone kind name hkind hname

theorem partOf_yields {c : Entry} {owner : String} {index : Nat} (hf : Converts units f)
    (hs : s.Sound units) (he : e ∈ units.entries) (hc : c ∈ e.children) :
    Yields (partOf units f owner index c) s fun m s' =>
      After units s s' ∧ PartFound units index c m s' := by
  unfold partOf
  cases hrole : c.role with
  | inheritance => exact baseOf_yields hf hs he hc hrole
  | member =>
    cases hstatic : c.isStatic with
    | true =>
      refine .pure ⟨hs.after, .nothing (fun _ => ?_) ?_⟩
      · simp only [readPart, hrole, hstatic]
        rfl
      · rintro x (⟨_, hstatic', _, _⟩ | ⟨hrole', _, _, _⟩)
        · cases hstatic.symm.trans hstatic'
        · cases hrole.symm.trans hrole'
    | false => exact memberOf_yields hf hs he hc hrole hstatic
  | _ =>
    refine .pure ⟨hs.after, .nothing (fun _ => ?_) ?_⟩
    · simp only [readPart, hrole]
    · rintro x (⟨hrole', _, _, _⟩ | ⟨hrole', _, _, _⟩) <;> cases hrole.symm.trans hrole'

theorem parts_yield (owner : String) (hf : Converts units f) (he : e ∈ units.entries)
    (children : List Entry) (hchildren : children ⊆ e.children) (hs : s.Sound units)
    (members : List (Member Quantity))
    (hmembers : ∀ m ∈ members, ∀ name, Mentions m.type name → Recorded units s name) :
    Yields (children.foldlM (fun (members : List (Member Quantity)) child => do
      let m ← partOf units f owner members.length child
      return members ++ m.toList) members) s fun ms s' =>
        After units s s' ∧
        (∀ᶠ levels in Filter.atTop,
          readParts units (readAggregate units levels) members children = ms) ∧
        (∀ m ∈ ms, ∀ name, Mentions m.type name → Recorded units s' name) ∧
        ∀ c ∈ children, ∀ x, PartLeads units c x → Settled s' x := by
  -- The place of a member counts those before it, so that these are carried along.
  induction children generalizing s members with
  | nil => exact .pure ⟨hs.after, .of_forall fun _ => rfl, hmembers, fun _ h => (nomatch h)⟩
  | cons c rest ih =>
    obtain ⟨hc, hrest⟩ := List.cons_subset.mp hchildren
    rw [List.foldlM_cons]
    refine .bind (.bind ((partOf_yields hf hs he hc).mono fun m s₁ ⟨hafter, hfound⟩ => .pure ?_))
    have hmembers₁ : ∀ m' ∈ members ++ m.toList, ∀ name, Mentions m'.type name →
        Recorded units s₁ name := by
      intro m' hm' name hname
      rcases List.mem_append.mp hm' with hm' | hm'
      · exact (hmembers m' hm' name hname).mono hafter.grows
      · exact hfound.recorded m' (Option.mem_toList.mp hm') name hname
    refine (ih hrest hafter.sound _ hmembers₁).mono
      fun ms s₂ ⟨hafter₂, hreads, hrecorded, hsettled⟩ => ⟨hafter.trans hafter₂, ?_, hrecorded, ?_⟩
    · filter_upwards [hfound.reads, hreads] with levels hpart hparts
      unfold readParts at hparts ⊢
      rw [List.foldl_cons, hpart]
      exact hparts
    · intro c' hc' x hx
      rcases List.mem_cons.mp hc' with rfl | hc'
      · exact (hfound.settled x hx).mono hafter₂.grows
      · exact hsettled c' hc' x hx

theorem converts_convert (hunits : units.Apart) (levels : Nat) :
    Converts units (convert units levels) := by
  induction levels with
  | zero => exact fun _ _ _ _ _ => .throw
  | succ levels ih =>
    intro e he hproper s hs
    unfold convert
    refine .bind (.get ?_)
    cases hlookup : s.converted.lookup e.id with
    | some a => exact .pure ⟨hs.after, hlookup⟩
    | none =>
      have hparts := parts_yield (e.properName?.getD "") ih he e.children (List.Subset.refl _) hs []
        fun _ h => absurd h List.not_mem_nil
      refine .bind (hparts.mono ?_)
      rintro members s₁ ⟨hafter, hreads, hrecorded, hsettled⟩
      refine .bind (.modify (.pure ?_))
      have hcomes := Comes.of_parts hreads
      refine ⟨hafter.trans ⟨?_, .note _ _ _⟩, ?_⟩
      · exact hafter.sound.note hunits he hcomes hrecorded hsettled hproper
      · rw [lookup_note, if_pos rfl]

end Types

theorem requested_iff {names : Option (List String)} :
    requested? names e = some name ↔ e.Defines name ∧ names.all (·.contains name) := by
  unfold requested?
  constructor
  · intro h
    split at h
    · cases h
    · next hdef =>
      rw [Bool.or_eq_true, not_or, Option.isNone_iff_eq_none, Bool.not_eq_true'] at hdef
      obtain ⟨hname, hall⟩ := Option.filter_eq_some_iff.mp h
      refine ⟨⟨Option.isSome_iff_ne_none.mpr hdef.1, hname, ?_⟩, hall⟩
      exact Bool.not_eq_false _ ▸ hdef.2
  · rintro ⟨⟨hkind, hname, hdef⟩, hall⟩
    rw [if_neg, hname, Option.filter_eq_some_iff]
    · exact ⟨rfl, hall⟩
    · rw [Bool.or_eq_true, not_or, Option.isNone_iff_eq_none, hdef]
      exact ⟨Option.isSome_iff_ne_none.mp hkind, Bool.false_ne_true⟩

structure Listed (names : Option (List String)) (entries seen : List Entry) (done : List String)
    (s : Findings) : Prop where
  named : ∀ name ∈ done, s.named.contains name
  requested : ∀ name ∈ done, ∃ e ∈ entries, requested? names e = some name
  complete : ∀ e ∈ seen, ∀ name, requested? names e = some name → name ∈ done

namespace Listed

variable {names : Option (List String)} {entries seen : List Entry} {done : List String}

theorem skip (h : Listed names entries seen done s)
    (he : ∀ name, requested? names e = some name → name ∈ done) :
    Listed names entries (seen ++ [e]) done s where
  named := h.named
  requested := h.requested
  complete e' he' name hname := by
    rcases List.mem_append.mp he' with he' | he'
    · exact h.complete e' he' name hname
    · obtain rfl := List.mem_singleton.mp he'
      exact he name hname

theorem add (h : Listed names entries seen done s) (he : e ∈ entries)
    (hname : requested? names e = some name) (hgrows : s.Grows s')
    (hnamed : s'.named.contains name) :
    Listed names entries (seen ++ [e]) (done ++ [name]) s' where
  named other hother := by
    rcases List.mem_append.mp hother with hother | hother
    · exact hgrows.named other (h.named other hother)
    · rwa [List.mem_singleton.mp hother]
  requested other hother := by
    rcases List.mem_append.mp hother with hother | hother
    · exact h.requested other hother
    · exact ⟨e, he, List.mem_singleton.mp hother ▸ hname⟩
  complete e' he' other hother := by
    rcases List.mem_append.mp he' with he' | he'
    · exact List.mem_append_left _ (h.complete e' he' other hother)
    · obtain rfl := List.mem_singleton.mp he'
      obtain rfl := Option.some.inj (hname.symm.trans hother)
      exact List.mem_append_right _ (.head _)

end Listed

theorem entries_yield {names : Option (List String)} {levels : Nat} (hunits : units.Apart)
    (entries seen : List Entry) (hentries : entries ⊆ units.entries) (hs : s.Sound units)
    (done : List String) (hdone : Listed names units.entries seen done s) :
    Yields (entries.foldlM (fun done e => do
      match requested? names e with
      | none => return done
      | some name =>
        if done.contains name then return done
        else
          if !(← get).named.contains name then
            let _ ← convert units levels e
          return done ++ [name]) done) s fun done s' =>
        s'.Sound units ∧ Listed names units.entries (seen ++ entries) done s' := by
  induction entries generalizing s seen done with
  | nil =>
    rw [List.append_nil]
    exact .pure ⟨hs, hdone⟩
  | cons e rest ih =>
    obtain ⟨he, hrest⟩ := List.cons_subset.mp hentries
    have hnext : ∀ {done s}, s.Sound units → Listed names units.entries (seen ++ [e]) done s → _ :=
      fun hs hdone => ih (seen ++ [e]) hrest hs _ hdone
    rw [List.append_assoc, List.singleton_append] at hnext
    rw [List.foldlM_cons]
    refine .bind ?_
    cases hname : requested? names e with
    | none => exact .pure (hnext hs (hdone.skip fun _ h => nomatch hname.symm.trans h))
    | some name =>
      dsimp only
      split
      · next hmem =>
        refine .pure (hnext hs (hdone.skip fun other hother => ?_))
        obtain rfl := Option.some.inj (hname.symm.trans hother)
        exact List.contains_iff_mem.mp hmem
      · obtain ⟨hdefines, _⟩ := requested_iff.mp hname
        refine .bind (.get ?_)
        split
        · have hproper : ∀ other, e.properName? = some other → e.Defines other := by
            intro other hother
            obtain rfl := Option.some.inj (hdefines.named.symm.trans hother)
            exact hdefines
          refine .bind ((converts_convert hunits levels e he hproper s hs).mono ?_)
          rintro a s' ⟨hafter, hlookup⟩
          have hnamed := (hafter.sound.converted e he a hlookup).named name hdefines.named
          exact .pure (hnext hafter.sound (hdone.add he hname hafter.grows hnamed))
        · next hold =>
          rw [Bool.not_eq_true, Bool.not_eq_false'] at hold
          exact .pure (hnext hs (hdone.add he hname (.refl s) hold))

structure Loaded (units : Units) (names : Option (List String)) (d : Description) (s : Findings) :
    Prop where
  sound : s.Sound units
  types : d.types = []
  aliases : d.aliases = s.aliases
  fallbackTypes : d.fallbackTypes = s.fallbackTypes
  found : ∀ a ∈ d.definitions ++ d.aggregates, (a.name, a) ∈ s.named
  named : ∀ p ∈ s.named, ∃ a ∈ d.definitions ++ d.aggregates, a.name = p.1
  requested : ∀ a ∈ d.aggregates, ∃ e ∈ units.entries, requested? names e = some a.name
  complete : ∀ e ∈ units.entries, ∀ name, requested? names e = some name →
    ∃ a ∈ d.aggregates, a.name = name

theorem Findings.Sound.name_eq (hs : s.Sound units) {p : String × Aggregate Quantity}
    (hp : p ∈ s.named) : p.2.name = p.1 := by
  obtain ⟨e, he, hdefines, hlookup⟩ := hs.named p hp
  exact (hs.converted e he p.2 hlookup).comes.name_of_proper hdefines.named

theorem namedIn_eq_ok : namedIn s name = .ok a ↔ s.named.find? name = some a := by
  unfold namedIn
  cases s.named.find? name <;> simp

theorem loaded_of_descriptionOf {names : Option (List String)} {done : List String}
    {d : Description} (hs : s.Sound units)
    (hdone : Listed names units.entries units.entries done s) (h : descriptionOf done s = .ok d) :
    Loaded units names d s := by
  obtain ⟨aggregates, haggregates, h⟩ := except_bind_eq_ok.mp h
  obtain rfl := Except.ok.inj h
  have hpairs : done.map (Table.find? · s.named) = aggregates.map some := by
    rw [← List.forall₂_eq_eq_eq, List.forall₂_map_left_iff, List.forall₂_map_right_iff]
    exact (mapM_eq_ok.mp haggregates).imp fun _ _ h => namedIn_eq_ok.mp h
  have hfind : ∀ a ∈ aggregates, a.name ∈ done ∧ (a.name, a) ∈ s.named := by
    intro a ha
    have hmem : some a ∈ done.map (Table.find? · s.named) := hpairs ▸ List.mem_map_of_mem ha
    obtain ⟨name, hname, hfind⟩ := List.mem_map.mp hmem
    have hpair := Table.mem_of_find? hfind
    have heq : a.name = name := hs.name_eq hpair
    rw [heq]
    exact ⟨hname, hpair⟩
  have hlisted : ∀ name ∈ done, ∃ a ∈ aggregates, a.name = name := by
    intro name hname
    have hmem : Table.find? name s.named ∈ aggregates.map some := hpairs ▸ List.mem_map_of_mem hname
    obtain ⟨a, ha, hfind⟩ := List.mem_map.mp hmem
    exact ⟨a, ha, hs.name_eq (Table.mem_of_find? hfind.symm)⟩
  refine ⟨hs, rfl, rfl, rfl, fun a ha => ?_, fun p hp => ?_, fun a ha => ?_,
    fun e he name hname => ?_⟩
  · rcases List.mem_append.mp ha with ha | ha
    · obtain ⟨p, hp, rfl⟩ := List.mem_map.mp ha
      have hmem := List.mem_of_mem_filter hp
      rw [hs.name_eq hmem]
      exact hmem
    · exact (hfind a ha).2
  · by_cases hname : p.1 ∈ done
    · obtain ⟨a, ha, heq⟩ := hlisted p.1 hname
      exact ⟨a, List.mem_append_right _ ha, heq⟩
    · refine ⟨p.2, List.mem_append_left _ (List.mem_map.mpr ⟨p, List.mem_filter.mpr ⟨hp, ?_⟩, rfl⟩),
        hs.name_eq hp⟩
      simpa using hname
  · exact hdone.requested a.name (hfind a ha).1
  · exact hlisted name (hdone.complete e he name hname)

theorem convertAll_yields (names : Option (List String)) (hunits : units.Apart) :
    Yields (convertAll units names) {} fun done s =>
      s.Sound units ∧ Listed names units.entries units.entries done s := by
  refine entries_yield hunits units.entries [] (List.Subset.refl _) (.start units) [] ?_
  exact ⟨fun _ h => absurd h List.not_mem_nil, fun _ h => absurd h List.not_mem_nil,
    fun _ h => absurd h List.not_mem_nil⟩

theorem describe_fst (path : String) (units : Units) (names : Option (List String)) :
    (describe path units names).1 = match (convertAll units names).run {} with
      | (.error fault, _) => .error fault
      | (.ok done, s) => descriptionOf done s := by
  unfold describe
  rcases (convertAll units names).run {} with ⟨_ | done, s⟩
  · rfl
  · dsimp only
    cases descriptionOf done s <;> rfl

theorem loaded_of_describe {path : String} {names : Option (List String)} {d : Description}
    (hunits : units.Apart) (h : (describe path units names).1 = .ok d) :
    ∃ s, Loaded units names d s := by
  rw [describe_fst] at h
  split at h
  · cases h
  · next done s hconvert =>
    obtain ⟨hs, hdone⟩ := convertAll_yields names hunits done s hconvert
    exact ⟨s, loaded_of_descriptionOf hs hdone h⟩

end AggregateLayout.DebugInfo
