import Mathlib
import AggregateLayout.Proofs.Converting

namespace AggregateLayout.DebugInfo

inductive Chain (units : Units) : Nat → Entry → Entry → Prop
  | here {steps : Nat} {e : Entry} : Chain units (steps + 1) e e
  | on {steps : Nat} {e t x : Entry} (he : e.passes) (ht : units.type? e = some t)
    (h : Chain units steps t x) : Chain units (steps + 1) e x

structure HasType (units : Units) (e t : Entry) : Prop where
  member : ∃ c ∈ e.children, c.role = .member ∧ c.isStatic = false ∧
    ∃ first, units.type? c = some first ∧ Chain units (maxChain + 1) first t

/-- The aggregate holds the other one, which is converted along with it. -/
structure Enters (units : Units) (e x : Entry) : Prop where
  part : ∃ c ∈ e.children, PartLeads units c x
  complete : ∀ name, x.properName? = some name → x.isDefinition

/-- A base type or an enumeration of a size that a type of its own alignment cannot have. -/
inductive Entry.Faulty (e : Entry) : TypeFault Quantity → Prop
  | base {name : String} {size : Quantity} {fault : TypeFault Quantity} (hrole : e.role = .base)
    (hname : e.properName? = some name) (hsize : e.integer? "byte_size" = some size)
    (h : TypeDescriptor.scalar name size none e.isInteger = .error fault) : Faulty e fault
  | enumeration {size : Quantity} {fault : TypeFault Quantity} (hrole : e.role = .enumeration)
    (hsize : e.integer? "byte_size" = some size)
    (h : TypeDescriptor.scalar (e.properName?.getD "enum") size none true = .error fault) :
    Faulty e fault

inductive Fails (units : Units) : Nat → Entry → ConversionFault → Prop
  | endless {e : Entry} : Fails units 0 e .endless
  | type {levels : Nat} {e t : Entry} {fault : TypeFault Quantity} (ht : HasType units e t)
    (h : t.Faulty fault) : Fails units (levels + 1) e (.type fault)
  | inside {levels : Nat} {e x : Entry} {fault : ConversionFault} (hx : Enters units e x)
    (h : Fails units levels x fault) : Fails units (levels + 1) e fault

section Entries

variable {units : Units} {steps : Nat} {e t x : Entry}

theorem Leads.kind (h : Leads units steps e x) : x.aggregateKind?.isSome := by
  induction h with
  | here hx => exact hx
  | on _ _ _ ih => exact ih

theorem PartLeads.kind (h : PartLeads units e x) : x.aggregateKind?.isSome := by
  cases h with
  | member _ _ _ h => exact h.kind
  | base _ _ hkind _ => exact hkind

theorem mem_aggregates : e ∈ units.aggregates ↔ e ∈ units.entries ∧ e.aggregateKind?.isSome :=
  List.mem_filter

theorem mem_aggregates_of_requested {names : Option (List String)} (he : e ∈ units.entries)
    (h : (requested? names e).isSome) : e ∈ units.aggregates := by
  obtain ⟨name, hname⟩ := Option.isSome_iff_exists.mp h
  exact mem_aggregates.mpr ⟨he, (requested_iff.mp hname).1.aggregate⟩

end Entries

def Tracks {α : Type} (P : Findings → Prop) (E : ConversionFault → Prop)
    (x y : Conversion α) : Prop :=
  ∀ s, P s → match x.run s with
    | (.ok a, s') => y.run s = (.ok a, s') ∧ P s'
    | (.error fault, s') => E fault ∧ (fault = .endless ∨ y.run s = (.error fault, s'))

def Lasting (P : Findings → Prop) : Prop :=
  ∀ s s', P s → s.Grows s' → s'.converted = s.converted → s'.named = s.named →
    s'.reportedSizes = s.reportedSizes → P s'

theorem lasting_true : Lasting fun _ => True := fun _ _ _ _ _ _ _ => trivial

section Runs

variable {α β : Type} {x y : Conversion α} {f g : α → Conversion β} {s s' : Findings}

theorem run_bind (x : Conversion α) (f : α → Conversion β) (s : Findings) :
    (x >>= f).run s = match x.run s with
      | (.ok a, s') => (f a).run s'
      | (.error fault, s') => (.error fault, s') := by
  change (ExceptT.bindCont f (x.run s).1).run (x.run s).2 = _
  rcases x.run s with ⟨_ | _, _⟩ <;> rfl

namespace Tracks

variable {P Q : Findings → Prop} {E F : ConversionFault → Prop}

theorem ok (h : Tracks P E x y) (hs : P s) {a : α} (hx : x.run s = (.ok a, s')) :
    y.run s = (.ok a, s') ∧ P s' := by
  have hrun := h s hs
  rw [hx] at hrun
  exact hrun

theorem error (h : Tracks P E x y) (hs : P s) {fault : ConversionFault}
    (hx : x.run s = (.error fault, s')) :
    E fault ∧ (fault = .endless ∨ y.run s = (.error fault, s')) := by
  have hrun := h s hs
  rw [hx] at hrun
  exact hrun

theorem fault (h : Tracks P E x y) (hs : P s) {fault : ConversionFault}
    (hx : (x.run s).1 = .error fault) : E fault :=
  (h.error hs (Prod.ext hx rfl)).1

theorem run_eq (h : Tracks P E x y) (hs : P s) (hx : (x.run s).1 ≠ .error .endless) :
    y.run s = x.run s := by
  cases hrun : x.run s with
  | mk r s' =>
    cases r with
    | ok a => exact (h.ok hs hrun).1
    | error fault =>
      rw [hrun] at hx
      exact (h.error hs hrun).2.resolve_left fun heq => hx (congrArg Except.error heq)

theorem congr {z : Conversion α} (h : Tracks P E x y)
    (hz : ∀ s, P s → (x.run s).1 ≠ .error .endless → z.run s = x.run s) : Tracks P E x z := by
  intro s hs
  have hrun := h s hs
  have hz := hz s hs
  split
  · next hx =>
    rw [hx] at hrun hz
    exact ⟨hz (by simp), hrun.2⟩
  · next hx =>
    rw [hx] at hrun hz
    refine ⟨hrun.1, or_iff_not_imp_left.mpr fun hfault => hz ?_⟩
    simpa using hfault

theorem mono (h : Tracks P E x y) (hEF : ∀ fault, E fault → F fault) : Tracks P F x y := by
  intro s hs
  have hrun := h s hs
  split
  · next hx =>
    rw [hx] at hrun
    exact hrun
  · next hx =>
    rw [hx] at hrun
    exact hrun.imp_left (hEF _)

theorem pure (a : α) : Tracks P E (pure a) (pure a) := fun _ hs => ⟨rfl, hs⟩

theorem endless (h : E .endless) : Tracks P E (throw .endless : Conversion α) y :=
  fun _ _ => ⟨h, .inl rfl⟩

theorem throw {fault : ConversionFault} (h : E fault) :
    Tracks P E (throw fault : Conversion α) (throw fault) := fun _ _ => ⟨h, .inr rfl⟩

theorem get : Tracks P E (get : Conversion Findings) get := fun _ hs => ⟨rfl, hs⟩

theorem modify {g : Findings → Findings} (h : ∀ s, P s → P (g s)) :
    Tracks P E (modify g : Conversion PUnit) (modify g) := fun s hs => ⟨rfl, h s hs⟩

theorem bind (hx : Tracks P E x y) (hf : ∀ a, Tracks P E (f a) (g a)) :
    Tracks P E (x >>= f) (y >>= g) := by
  intro s hs
  rw [run_bind, run_bind]
  cases hrun : x.run s with
  | mk r s' =>
    cases r with
    | ok a =>
      obtain ⟨hy, hs'⟩ := hx.ok hs hrun
      rw [hy]
      exact hf a s' hs'
    | error fault =>
      obtain ⟨hE, hend⟩ := hx.error hs hrun
      refine ⟨hE, hend.imp_right fun hy => ?_⟩
      rw [hy]

theorem foldlM {ι : Type} {f g : β → ι → Conversion β} (as : List ι)
    (hf : ∀ a ∈ as, ∀ b, Tracks P E (f b a) (g b a)) (b : β) :
    Tracks P E (as.foldlM f b) (as.foldlM g b) := by
  induction as generalizing b with
  | nil => exact .pure b
  | cons a rest ih =>
    obtain ⟨ha, hrest⟩ := List.forall_mem_cons.mp hf
    rw [List.foldlM_cons, List.foldlM_cons]
    exact .bind (ha b) (ih hrest)

end Tracks

end Runs

section Steps

variable {units : Units} {P : Findings → Prop} {E : ConversionFault → Prop}
  {f g : Entry → Conversion (Aggregate Quantity)} {steps : Nat} {e : Entry} {name : String}

theorem Lasting.log (hP : Lasting P) (s : Findings) (lines : List LogLine) (hs : P s) :
    P { s with log := lines } :=
  hP s _ hs ⟨fun _ h => h, fun _ h => h, fun _ h => h, fun _ h => h⟩ rfl rfl rfl

theorem tracks_say (hP : Lasting P) (line : LogLine) : Tracks P E (say line) (say line) :=
  .modify fun s hs => hP.log s _ hs

theorem tracks_scalarOf {size : Quantity} {isInteger : Bool}
    (h : ∀ fault, TypeDescriptor.scalar name size none isInteger = .error fault →
      E (.type fault)) :
    Tracks P E (scalarOf name size isInteger) (scalarOf name size isInteger) := by
  unfold scalarOf
  split
  · exact .pure _
  · next fault hfault => exact .throw (h fault hfault)

theorem tracks_noteBase {size : Quantity} (hP : Lasting P)
    (h : ∀ fault, TypeDescriptor.scalar name size none e.isInteger = .error fault →
      E (.type fault)) : Tracks P E (noteBase e name size) (noteBase e name size) := by
  refine .bind .get fun found => ?_
  split
  · refine .bind (tracks_scalarOf h) fun d => .modify fun s hs => ?_
    exact hP s _ hs ⟨fun _ h => h, fun _ h => h, fun _ h => h, List.subset_append_left _ _⟩
      rfl rfl rfl
  · exact .pure _

theorem tracks_ensureNamed (h : e.isDefinition → Tracks P E (f e) (g e)) :
    Tracks P E (ensureNamed f e) (ensureNamed g e) := by
  unfold ensureNamed
  split
  · exact .pure _
  · refine .bind .get fun found => ?_
    split
    · next hnew =>
      rw [Bool.and_eq_true] at hnew
      exact .bind (h hnew.2) fun _ => .pure _
    · exact .pure _

theorem tracks_typeOf (hP : Lasting P) (steps : Nat) (e : Entry)
    (hfg : ∀ x, Leads units steps e x →
      (∀ name, x.properName? = some name → x.isDefinition) → Tracks P E (f x) (g x))
    (htype : ∀ t fault, Chain units steps e t → t.Faulty fault → E (.type fault)) :
    Tracks P E (typeOf units f steps e) (typeOf units g steps e) := by
  induction steps generalizing e with
  | zero => exact .bind (tracks_say hP _) fun _ => .pure _
  | succ steps ih =>
    have htarget : e.passes → ∀ t, units.type? e = some t →
        Tracks P E (typeOf units f steps t) (typeOf units g steps t) :=
      fun he t ht => ih t (fun x hx => hfg x (.on he ht hx)) fun t' fault ht' =>
        htype t' fault (.on he ht ht')
    unfold typeOf
    cases hrole : e.role with
    | qualifier =>
      have he : e.passes := by simp only [Entry.passes, hrole]
      dsimp only
      cases ht : units.type? e with
      | none => exact .pure _
      | some t => exact htarget he t ht
    | typedef =>
      dsimp only
      cases ht : units.type? e with
      | none => exact .pure _
      | some t =>
        cases hname : e.properName? with
        | none => exact .pure _
        | some name =>
          have he : e.passes := by simp only [Entry.passes, hrole, hname, Option.isSome_some]
          refine .bind (htarget he t ht) fun r => ?_
          split
          · refine .bind (.modify fun s hs => ?_) fun _ => .pure _
            exact hP s _ hs ⟨fun _ h => h, fun _ h => h,
              fun _ h => Table.contains_insert.mpr (.inr h), fun _ h => h⟩ rfl rfl rfl
          · exact .pure _
    | array =>
      have he : e.passes := by simp only [Entry.passes, hrole]
      dsimp only
      cases ht : units.type? e with
      | none => exact .pure _
      | some t =>
        refine .bind (htarget he t ht) fun r => ?_
        split
        · exact .pure _
        · exact .pure _
    | aggregate kind =>
      have hleads : Leads units (steps + 1) e e := .here (by
        simp only [Entry.aggregateKind?, hrole, Option.isSome_some])
      dsimp only
      cases hname : e.properName? with
      | some name =>
        refine .bind (tracks_ensureNamed fun hdef => hfg e hleads fun _ _ => hdef) fun _ => .pure _
      | none =>
        have hcomplete : ∀ name, e.properName? = some name → e.isDefinition := fun _ h =>
          absurd (h.symm.trans hname) (Option.some_ne_none _)
        exact .bind (hfg e hleads hcomplete) fun _ => .pure _
    | base =>
      dsimp only
      split
      · next name size hname hsize =>
        refine .bind (tracks_noteBase hP fun fault hfault => ?_) fun _ => .pure _
        exact htype e fault .here (.base hrole hname hsize hfault)
      · exact .pure _
    | enumeration =>
      dsimp only
      split
      · next size hsize =>
        refine .bind (tracks_scalarOf fun fault hfault => ?_) fun _ => .pure _
        exact htype e fault .here (.enumeration hrole hsize hfault)
      · exact .pure _
    | _ => exact .pure _

theorem tracks_partOf (hP : Lasting P) {c : Entry} (hc : c ∈ e.children)
    (hfg : ∀ x, Enters units e x → Tracks P E (f x) (g x))
    (htype : ∀ t fault, HasType units e t → t.Faulty fault → E (.type fault))
    (owner : String) (index : Nat) :
    Tracks P E (partOf units f owner index c) (partOf units g owner index c) := by
  unfold partOf
  cases hrole : c.role with
  | inheritance =>
    dsimp only
    unfold baseOf
    cases ht : units.type? c with
    | none => exact .pure _
    | some base =>
      dsimp only
      split
      · next kind name hkind hname =>
        have hpart : PartLeads units c base :=
          .base hrole ht (Option.isSome_of_eq_some hkind) (Option.isSome_of_eq_some hname)
        have hbase (hdef : base.isDefinition) : Tracks P E (f base) (g base) :=
          hfg base ⟨⟨c, hc, hpart⟩, fun _ _ => hdef⟩
        exact .bind (tracks_ensureNamed hbase) fun _ => .pure _
      · exact .pure _
  | member =>
    dsimp only
    cases hstatic : c.isStatic with
    | true => exact .pure _
    | false =>
      unfold memberOf
      cases ht : units.type? c with
      | none => exact .bind (tracks_say hP _) fun _ => .pure _
      | some first =>
        refine .bind (tracks_typeOf hP _ _ (fun x hx hdef => ?_) fun t fault h => ?_) fun r => ?_
        · exact hfg x ⟨⟨c, hc, .member hrole hstatic ht hx⟩, hdef⟩
        · exact htype t fault ⟨⟨c, hc, hrole, hstatic, first, ht, h⟩⟩
        · split
          · exact .pure _
          · exact .bind (tracks_say hP _) fun _ => .pure _
  | _ => exact .pure _

theorem tracks_convert {levels other : Nat} (hP : Lasting P)
    (hnote : ∀ s a, P s → a.name = e.properName?.getD "" → P (note e a s))
    (hfg : ∀ x, Enters units e x →
      Tracks P E (convert units levels x) (convert units other x))
    (htype : ∀ t fault, HasType units e t → t.Faulty fault → E (.type fault)) :
    Tracks P E (convert units (levels + 1) e) (convert units (other + 1) e) := by
  unfold convert
  refine .bind .get fun found => ?_
  cases found.converted.lookup e.id with
  | some a => exact .pure a
  | none =>
    refine .bind (.foldlM _ (fun c hc members => ?_) _) fun members =>
      .bind (.modify fun s hs => hnote s _ hs rfl) fun _ => .pure _
    exact .bind (tracks_partOf hP hc hfg htype _ _) fun _ => .pure _

theorem tracks_fails {levels : Nat} (hP : Lasting P)
    (hnote : ∀ e s a, (∀ name, e.properName? = some name → e.isDefinition) → P s →
      a.name = e.properName?.getD "" → P (note e a s))
    (he : ∀ name, e.properName? = some name → e.isDefinition) :
    Tracks P (Fails units levels e) (convert units levels e) (convert units levels e) := by
  induction levels generalizing e with
  | zero => exact .throw .endless
  | succ levels ih =>
    exact tracks_convert hP (fun s a => hnote e s a he)
      (fun x hx => (ih hx.complete).mono fun _ h => .inside hx h) fun _ _ ht h => .type ht h

theorem tracks_convertWithin {levels other : Nat} {names : Option (List String)}
    (h : ∀ e ∈ units.entries, ∀ name, requested? names e = some name →
      Tracks P E (convert units levels e) (convert units other e)) :
    Tracks P E (convertWithin units levels names) (convertWithin units other names) := by
  refine .foldlM _ (fun e he done => ?_) _
  cases hname : requested? names e with
  | none => exact .pure done
  | some name =>
    dsimp only
    split
    · exact .pure done
    · refine .bind .get fun found => ?_
      split
      · exact .bind (h e he name hname) fun _ => .pure _
      · exact .pure _

theorem tracks_failsWithin (units : Units) (levels : Nat) (names : Option (List String))
    (hP : Lasting P)
    (hnote : ∀ e s a, (∀ name, e.properName? = some name → e.isDefinition) → P s →
      a.name = e.properName?.getD "" → P (note e a s)) :
    Tracks P (fun fault => ∃ e ∈ units.entries, (requested? names e).isSome ∧
        Fails units levels e fault)
      (convertWithin units levels names) (convertWithin units levels names) := by
  refine tracks_convertWithin fun e he name hname => ?_
  obtain ⟨hdefines, _⟩ := requested_iff.mp hname
  refine (tracks_fails hP hnote fun _ _ => hdefines.complete).mono fun _ h => ?_
  exact ⟨e, he, Option.isSome_of_eq_some hname, h⟩

theorem fails_of_run {levels : Nat} {names : Option (List String)} {s : Findings}
    {fault : ConversionFault} (h : ((convertWithin units levels names).run s).1 = .error fault) :
    ∃ e ∈ units.entries, (requested? names e).isSome ∧ Fails units levels e fault :=
  (tracks_failsWithin units levels names lasting_true fun _ _ _ _ _ _ => trivial).fault trivial h

end Steps

end AggregateLayout.DebugInfo
