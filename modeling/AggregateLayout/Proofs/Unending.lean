import Mathlib
import AggregateLayout.Proofs.Entering
import AggregateLayout.Proofs.References

/-!
Which conversions come to an end. Nesting goes on at most until some entry comes again while nothing
has been found in between, and then it goes on for ever. So there are levels enough for every
conversion that has an end, and one that has none goes round in a circle of aggregates that hold
each other by value.
-/

namespace AggregateLayout

theorem eq_of_countP_eq {α : Type} {p q : α → Bool} {l : List α} (hpq : ∀ a, p a → q a)
    (h : l.countP p = l.countP q) : ∀ a ∈ l, p a = q a := by
  have hfilter : l.filter p = l.filter q := by
    refine (List.monotone_filter_right l hpq).eq_of_length ?_
    rw [← List.countP_eq_length_filter, ← List.countP_eq_length_filter, h]
  refine fun a ha => Bool.eq_iff_iff.mpr ⟨hpq a, fun hq => ?_⟩
  have hmem : a ∈ l.filter q := List.mem_filter.mpr ⟨ha, hq⟩
  rw [← hfilter] at hmem
  exact (List.mem_filter.mp hmem).2

namespace DebugInfo

open Relation (ReflTransGen TransGen)

variable {units : Units}

structure Resumes (units : Units) (s s' : Findings) : Prop where
  converted : ∀ e ∈ units.aggregates,
    (s.converted.lookup e.id).isSome = (s'.converted.lookup e.id).isSome
  named : ∀ e ∈ units.aggregates, ∀ name, e.properName? = some name →
    s.named.contains name = s'.named.contains name
  base : ∀ name, s.fallbackTypes.any (·.name == name) → s'.fallbackTypes.any (·.name == name)

def Repeats {α β : Type} (units : Units) (V : α → β → Prop) (x : Conversion α)
    (y : Conversion β) : Prop :=
  ∀ s s', Resumes units s s' → match x.run s with
    | (.ok a, t) => ∃ b t', y.run s' = (.ok b, t') ∧ V a b ∧ Resumes units t t'
    | (.error fault, _) => fault = .endless → (y.run s').1 = .error .endless

abbrev Echoes {α β : Type} (units : Units) (x : Conversion α) (y : Conversion β) : Prop :=
  Repeats units (fun _ _ => True) x y

namespace Repeats

variable {α β γ δ : Type} {V : α → β → Prop} {W : γ → δ → Prop} {x : Conversion α}
  {y : Conversion β}

theorem pure {a : α} {b : β} (h : V a b) : Repeats units V (pure a) (pure b) :=
  fun _ s' hs => ⟨b, s', rfl, h, hs⟩

theorem get : Repeats units (Resumes units) get get := fun _ s' hs => ⟨s', s', rfl, hs, hs⟩

theorem modify {g g' : Findings → Findings}
    (h : ∀ s s', Resumes units s s' → Resumes units (g s) (g' s')) :
    Echoes units (modify g : Conversion PUnit) (modify g' : Conversion PUnit) :=
  fun s s' hs => ⟨_, _, rfl, trivial, h s s' hs⟩

theorem bind {f : α → Conversion γ} {g : β → Conversion δ} (hx : Repeats units V x y)
    (hf : ∀ a b, V a b → Repeats units W (f a) (g b)) : Repeats units W (x >>= f) (y >>= g) := by
  intro s s' hs
  rw [run_bind, run_bind]
  have hrun := hx s s' hs
  cases h : x.run s with
  | mk r t =>
    rw [h] at hrun
    cases r with
    | ok a =>
      obtain ⟨b, t', hy, hab, ht⟩ := hrun
      rw [hy]
      exact hf a b hab t t' ht
    | error fault =>
      intro hfault
      have hend := hrun hfault
      cases hy : y.run s' with
      | mk r' t' =>
        rw [hy] at hend
        obtain rfl := hend
        rfl

theorem foldlM {ι : Type} {f : α → ι → Conversion α} (as : List ι)
    (hf : ∀ i ∈ as, ∀ a b, Echoes units (f a i) (f b i)) (a b : α) :
    Echoes units (as.foldlM f a) (as.foldlM f b) := by
  induction as generalizing a b with
  | nil => exact .pure trivial
  | cons i rest ih =>
    obtain ⟨hi, hrest⟩ := List.forall_mem_cons.mp hf
    rw [List.foldlM_cons, List.foldlM_cons]
    exact .bind (hi a b) fun a' b' _ => ih hrest a' b'

end Repeats

section Steps

variable {f : Entry → Conversion (Aggregate Quantity)} {e : Entry} {name : String}
  {s s' : Findings}

def Light {α : Type} (x : Conversion α) : Prop :=
  ∀ s : Findings, ∃ a aliases log, x.run s = (.ok a, { s with aliases, log })

theorem repeats_of_light {α β : Type} {x : Conversion α} {y : Conversion β} (hx : Light x)
    (hy : Light y) : Echoes units x y := by
  intro s s' hs
  obtain ⟨a, aliases, log, hx⟩ := hx s
  obtain ⟨b, aliases', log', hy⟩ := hy s'
  rw [hx]
  exact ⟨b, _, hy, trivial, hs.converted, hs.named, hs.base⟩

theorem light_say_none {α : Type} (line : LogLine) :
    Light (do say line; return none : Conversion (Option α)) :=
  fun s => ⟨none, s.aliases, _, rfl⟩

theorem repeats_scalarOf (size : Quantity) (isInteger : Bool) :
    Echoes units (scalarOf name size isInteger)
      (scalarOf name size isInteger) := by
  unfold scalarOf
  split
  · exact .pure trivial
  · exact fun _ _ _ => nofun

theorem run_noteBase (e : Entry) (name : String) (size : Quantity) (s : Findings) :
    (noteBase e name size).run s =
      if s.fallbackTypes.any (·.name == name) then (.ok (), s)
      else match TypeDescriptor.scalar name size none e.isInteger with
        | .ok d => (.ok (), { s with fallbackTypes := s.fallbackTypes ++ [d] })
        | .error fault => (.error (.type fault), s) := by
  unfold noteBase scalarOf
  rw [run_bind]
  change (if !s.fallbackTypes.any (·.name == name) then _ else _ : Conversion Unit).run s = _
  cases s.fallbackTypes.any (·.name == name) with
  | true => rfl
  | false =>
    unfold Entry.isInteger
    dsimp only
    cases TypeDescriptor.scalar name size none _ <;> rfl

theorem repeats_noteBase (size : Quantity) :
    Echoes units (noteBase e name size) (noteBase e name size) := by
  intro s s' hs
  rw [run_noteBase, run_noteBase]
  cases hany : s.fallbackTypes.any (·.name == name) with
  | true =>
    rw [if_pos rfl, if_pos (hs.base name hany)]
    exact ⟨_, _, rfl, trivial, hs⟩
  | false =>
    rw [if_neg Bool.false_ne_true]
    cases hd : TypeDescriptor.scalar name size none e.isInteger with
    | error fault => exact nofun
    | ok d =>
      have hname : d.name = name := TypeDescriptor.name_scalar hd
      dsimp only
      split
      · next hmet =>
        refine ⟨_, _, rfl, trivial, hs.converted, hs.named, fun other hother => ?_⟩
        rw [List.any_append, Bool.or_eq_true] at hother
        rcases hother with hother | hother
        · exact hs.base other hother
        · obtain rfl : name = other := by simpa [hname] using hother
          exact hmet
      · refine ⟨_, _, rfl, trivial, hs.converted, hs.named, fun other hother => ?_⟩
        rw [List.any_append, Bool.or_eq_true] at hother ⊢
        exact hother.imp_left (hs.base other)

theorem repeats_ensureNamed (he : e ∈ units.aggregates)
    (hf : Echoes units (f e) (f e)) :
    Echoes units (ensureNamed f e) (ensureNamed f e) := by
  unfold ensureNamed
  cases hname : e.properName? with
  | none => exact .pure trivial
  | some name =>
    refine .bind .get fun found found' hfound => ?_
    rw [hfound.named e he name hname]
    split
    · exact .bind hf fun _ _ _ => .pure trivial
    · exact .pure trivial

theorem repeats_typeOf
    (hf : ∀ x ∈ units.aggregates, Echoes units (f x) (f x)) (steps : Nat)
    (he : e ∈ units.entries) :
    Echoes units (typeOf units f steps e) (typeOf units f steps e) := by
  induction steps generalizing e with
  | zero => exact repeats_of_light (light_say_none _) (light_say_none _)
  | succ steps ih =>
    unfold typeOf
    cases hrole : e.role with
    | qualifier =>
      dsimp only
      cases ht : units.type? e with
      | none => exact .pure trivial
      | some t => exact ih (Units.mem_of_type ht)
    | typedef =>
      dsimp only
      cases ht : units.type? e with
      | none => exact .pure trivial
      | some t =>
        cases e.properName? with
        | none => exact .pure trivial
        | some name =>
          -- Where only one of the two notes an alias, that decides nothing.
          refine .bind (ih (Units.mem_of_type ht)) fun r r' _ => repeats_of_light ?_ ?_
          all_goals
            intro s
            split
            · exact ⟨_, _, s.log, rfl⟩
            · exact ⟨_, s.aliases, s.log, rfl⟩
    | array =>
      dsimp only
      cases ht : units.type? e with
      | none => exact .pure trivial
      | some t =>
        refine .bind (ih (Units.mem_of_type ht)) fun r r' _ => ?_
        cases r <;> cases r' <;> exact .pure trivial
    | aggregate kind =>
      have hmem : e ∈ units.aggregates := mem_aggregates.mpr ⟨he, by
        simp only [Entry.aggregateKind?, hrole, Option.isSome_some]⟩
      dsimp only
      cases e.properName? with
      | some name => exact .bind (repeats_ensureNamed hmem (hf e hmem)) fun _ _ _ => .pure trivial
      | none => exact .bind (hf e hmem) fun _ _ _ => .pure trivial
    | base =>
      dsimp only
      split
      · exact .bind (repeats_noteBase _) fun _ _ _ => .pure trivial
      · exact .pure trivial
    | enumeration =>
      dsimp only
      split
      · exact .bind (repeats_scalarOf _ _) fun _ _ _ => .pure trivial
      · exact .pure trivial
    | _ => exact .pure trivial

theorem repeats_partOf
    (hf : ∀ x ∈ units.aggregates, Echoes units (f x) (f x)) (c : Entry)
    (owner : String) (index index' : Nat) :
    Echoes units (partOf units f owner index c)
      (partOf units f owner index' c) := by
  unfold partOf
  cases c.role with
  | inheritance =>
    dsimp only
    unfold baseOf
    cases ht : units.type? c with
    | none => exact .pure trivial
    | some base =>
      dsimp only
      split
      · next hkind _ =>
        have hbase : base ∈ units.aggregates :=
          mem_aggregates.mpr ⟨Units.mem_of_type ht, Option.isSome_of_eq_some hkind⟩
        exact .bind (repeats_ensureNamed hbase (hf base hbase)) fun _ _ _ => .pure trivial
      · exact .pure trivial
  | member =>
    dsimp only
    split
    · exact .pure trivial
    · unfold memberOf
      cases ht : units.type? c with
      | none => exact repeats_of_light (light_say_none _) (light_say_none _)
      | some first =>
        refine .bind (repeats_typeOf hf _ (Units.mem_of_type ht)) fun r r' _ =>
          repeats_of_light ?_ ?_
        all_goals
          split
          · exact fun s => ⟨_, s.aliases, s.log, rfl⟩
          · exact light_say_none _
  | _ => exact .pure trivial

theorem Resumes.note {a b : Aggregate Quantity} (h : Resumes units s s') (hab : a.name = b.name) :
    Resumes units (note e a s) (note e b s') := by
  refine ⟨fun e' he' => ?_, fun e' he' name hname => ?_, fun name hname => ?_⟩
  · rw [lookup_note, lookup_note]
    split
    · rfl
    · exact h.converted e' he'
  · rw [named_note, named_note, hab]
    split
    · exact h.named e' he' name hname
    · rw [Bool.eq_iff_iff, Table.contains_insert, Table.contains_insert,
        h.named e' he' name hname]
  · rw [fallbackTypes_note] at hname ⊢
    exact h.base name hname

theorem repeats_convert (levels : Nat) (he : e ∈ units.aggregates) :
    Echoes units (convert units levels e) (convert units levels e) := by
  induction levels generalizing e with
  | zero => exact fun _ _ _ _ => rfl
  | succ levels ih =>
    unfold convert
    refine .bind .get fun found found' hfound => ?_
    have hknown := hfound.converted e he
    cases hlookup : found.converted.lookup e.id with
    | some a =>
      rw [hlookup, Option.isSome_some, eq_comm, Option.isSome_iff_exists] at hknown
      obtain ⟨b, hb⟩ := hknown
      rw [hb]
      exact .pure trivial
    | none =>
      rw [hlookup, Option.isSome_none, eq_comm, Option.isSome_eq_false_iff,
        Option.isNone_iff_eq_none] at hknown
      rw [hknown]
      refine .bind (.foldlM _ (fun c _ members members' => ?_) _ _) fun members members' _ =>
        .bind (.modify fun s s' hs => hs.note rfl) fun _ _ _ => .pure trivial
      exact .bind (repeats_partOf (fun x hx => ih hx) c _ _ _) fun _ _ _ => .pure trivial

end Steps

section Levels

variable {names : Option (List String)} {levels : Nat} {e x : Entry} {s s' : Findings}

theorem Enters.mem (h : Enters units e x) : x ∈ units.aggregates := by
  obtain ⟨c, _, hc⟩ := h.part
  exact mem_aggregates.mpr ⟨hc.mem, hc.kind⟩

theorem Findings.Grows.lasting (s : Findings) : Lasting s.Grows :=
  fun _ _ h h' _ _ _ => h.trans h'

theorem tracks_more (levels extra : Nat) (e : Entry) :
    Tracks (fun _ => True) (fun _ => True) (convert units levels e)
      (convert units (levels + extra) e) := by
  induction levels generalizing e with
  | zero => exact .endless trivial
  | succ levels ih =>
    rw [Nat.add_right_comm]
    exact tracks_convert lasting_true (fun _ _ _ _ => trivial)
      (fun x _ => ih x) fun _ _ _ _ => trivial

theorem grows_convert (levels : Nat) (s : Findings)
    (he : ∀ name, e.properName? = some name → e.isDefinition) :
    Tracks s.Grows (Fails units levels e) (convert units levels e) (convert units levels e) :=
  tracks_fails (.lasting s) (fun e s' a _ h _ => h.trans (.note s' e a)) he

def Ends (units : Units) (levels : Nat) (e : Entry) (s : Findings) : Prop :=
  ((convert units levels e).run s).1 ≠ .error .endless

theorem Ends.run_eq (h : Ends units levels e s) (extra : Nat) :
    (convert units (levels + extra) e).run s = (convert units levels e).run s :=
  (tracks_more levels extra e).run_eq trivial h

theorem Ends.mono {more : Nat} (h : Ends units levels e s) (hmore : levels ≤ more) :
    Ends units more e s := by
  obtain ⟨extra, rfl⟩ := Nat.exists_eq_add_of_le hmore
  unfold Ends
  rw [h.run_eq extra]
  exact h

theorem Ends.run_congr {other : Nat} (h : Ends units levels e s) (h' : Ends units other e s) :
    (convert units levels e).run s = (convert units other e).run s := by
  rw [← h.run_eq other, ← h'.run_eq levels, Nat.add_comm]

theorem not_ends_zero : ¬ Ends units 0 e s := fun h => h rfl

theorem Ends.resumes (hs : Resumes units s s') (he : e ∈ units.aggregates)
    (h : Ends units levels e s') : Ends units levels e s := by
  intro hrun
  refine h ?_
  have hrepeats := repeats_convert levels he s s' hs
  cases hx : (convert units levels e).run s with
  | mk r t =>
    rw [hx] at hrepeats hrun
    obtain rfl := hrun
    exact hrepeats rfl

theorem exists_deeper (h : Ends units (levels + 2) e s) (hless : ¬ Ends units (levels + 1) e s) :
    ∃ x t, Enters units e x ∧ s.Grows t ∧ Ends units (levels + 1) x t ∧
      ¬ Ends units levels x t := by
  by_contra hall
  have hentered : ∀ x t, Enters units e x → s.Grows t → Ends units (levels + 1) x t →
      Ends units levels x t := fun x t hx ht hmore => by
    by_contra hend
    exact hall ⟨x, t, hx, ht, hmore, hend⟩
  have htracks : Tracks s.Grows (fun _ => True) (convert units (levels + 2) e)
      (convert units (levels + 1) e) := by
    refine tracks_convert (.lasting s) (fun s' a h _ => h.trans (.note s' e a)) (fun x hx => ?_)
      fun _ _ _ _ => trivial
    refine ((grows_convert (levels + 1) s hx.complete).mono fun _ _ => trivial).congr ?_
    exact fun t ht hmore => (hentered x t hx ht hmore).run_congr hmore
  refine hless ?_
  unfold Ends
  rw [htracks.run_eq (.refl s) h]
  exact h

def known (units : Units) (s : Findings) : Nat :=
  units.aggregates.countP (fun e => (s.converted.lookup e.id).isSome) +
    units.aggregates.countP fun e => e.properName?.any s.named.contains

theorem known_le (units : Units) (s : Findings) : known units s ≤ 2 * units.aggregates.length := by
  rw [Nat.two_mul]
  exact Nat.add_le_add List.countP_le_length List.countP_le_length

theorem Resumes.of_known (h : s.Grows s') (hknown : known units s = known units s') :
    Resumes units s s' := by
  have hconverted : ∀ e : Entry, (s.converted.lookup e.id).isSome →
      (s'.converted.lookup e.id).isSome := fun e => h.converted e.id
  have hnamed : ∀ e : Entry, e.properName?.any s.named.contains →
      e.properName?.any s'.named.contains := by
    intro e he
    obtain ⟨name, hname, hcontains⟩ := (Option.any_eq_true _ _).mp he
    exact (Option.any_eq_true _ _).mpr ⟨name, hname, h.named name hcontains⟩
  have hle := List.countP_mono_left fun e (_ : e ∈ units.aggregates) => hconverted e
  have hle' := List.countP_mono_left fun e (_ : e ∈ units.aggregates) => hnamed e
  unfold known at hknown
  refine ⟨eq_of_countP_eq hconverted (by omega), fun e he name hname => ?_, fun name hany => ?_⟩
  · have heq := eq_of_countP_eq hnamed (by omega) e he
    rwa [hname, Option.any_some, Option.any_some] at heq
  · obtain ⟨d, hd, heq⟩ := List.any_eq_true.mp hany
    exact List.any_eq_true.mpr ⟨d, h.fallbackTypes hd, heq⟩

theorem exists_descent (he : e ∈ units.aggregates) (h : Ends units (levels + 1) e s)
    (hless : ¬ Ends units levels e s) :
    ∃ path : List (Entry × Nat), path.length = levels + 1 ∧ path.Nodup ∧
      ∀ p ∈ path, p.1 ∈ units.aggregates ∧
        ∃ t, s.Grows t ∧ p.2 = known units t ∧ Ends units (levels + 1) p.1 t := by
  induction levels generalizing e s with
  | zero =>
    refine ⟨[(e, known units s)], rfl, List.nodup_singleton _, fun p hp => ?_⟩
    rw [List.mem_singleton.mp hp]
    exact ⟨he, s, .refl s, rfl, h⟩
  | succ levels ih =>
    obtain ⟨x, t, hx, ht, hmore, hend⟩ := exists_deeper h hless
    obtain ⟨path, hlength, hnodup, hpath⟩ := ih hx.mem hmore hend
    refine ⟨(e, known units s) :: path, by rw [List.length_cons, hlength],
      List.nodup_cons.mpr ⟨fun hmem => ?_, hnodup⟩, fun p hp => ?_⟩
    · -- What has no end with so many levels would have one further on.
      obtain ⟨_, t', ht', hknown, hmore'⟩ := hpath _ hmem
      exact hless (hmore'.resumes (.of_known (ht.trans ht') hknown) he)
    · rcases List.mem_cons.mp hp with rfl | hp
      · exact ⟨he, s, .refl s, rfl, h⟩
      · obtain ⟨hmem, t', ht', hknown, hmore'⟩ := hpath p hp
        exact ⟨hmem, t', ht.trans ht', hknown, hmore'.mono (Nat.le_succ _)⟩

theorem needed_le_maxLevels (he : e ∈ units.aggregates) (h : Ends units (levels + 1) e s)
    (hless : ¬ Ends units levels e s) : levels + 1 ≤ maxLevels units := by
  obtain ⟨path, hlength, hnodup, hpath⟩ := exists_descent he h hless
  have hsub : path ⊆ units.aggregates ×ˢ List.range (2 * units.aggregates.length + 1) := by
    rintro ⟨x, n⟩ hp
    obtain ⟨hx, t, _, rfl, _⟩ := hpath _ hp
    exact List.mem_product.mpr ⟨hx, List.mem_range.mpr (Nat.lt_succ_of_le (known_le units t))⟩
  calc levels + 1 = path.length := hlength.symm
    _ ≤ (units.aggregates ×ˢ List.range (2 * units.aggregates.length + 1)).length :=
      (hnodup.subperm hsub).length_le
    _ = maxLevels units := by rw [List.length_product, List.length_range, maxLevels]

theorem Ends.of_maxLevels (he : e ∈ units.aggregates) (h : Ends units levels e s) :
    Ends units (maxLevels units) e s := by
  induction levels with
  | zero => exact absurd h not_ends_zero
  | succ levels ih =>
    by_cases hless : Ends units levels e s
    · exact ih hless
    · exact h.mono (needed_le_maxLevels he h hless)

theorem tracks_maxLevels (levels : Nat) (he : e ∈ units.aggregates) :
    Tracks (fun _ => True) (fun _ => True) (convert units levels e)
      (convert units (maxLevels units) e) :=
  (tracks_more levels 0 e).congr fun _ _ (h : Ends units levels e _) =>
    (h.of_maxLevels he).run_congr h

theorem tracks_convertAll (units : Units) (levels : Nat) (names : Option (List String)) :
    Tracks (fun _ => True) (fun _ => True) (convertWithin units levels names)
      (convertAll units names) :=
  tracks_convertWithin fun _ he _ hname =>
    tracks_maxLevels levels (mem_aggregates_of_requested he (Option.isSome_of_eq_some hname))

theorem tracks_moreWithin (units : Units) (levels extra : Nat) (names : Option (List String)) :
    Tracks (fun _ => True) (fun _ => True) (convertWithin units levels names)
      (convertWithin units (levels + extra) names) :=
  tracks_convertWithin fun e _ _ _ => tracks_more levels extra e

theorem convertWithin_endless (h : ((convertAll units names).run {}).1 = .error .endless)
    (levels : Nat) : ((convertWithin units levels names).run {}).1 = .error .endless := by
  by_contra hend
  rw [(tracks_convertAll units levels names).run_eq trivial hend] at h
  exact hend h

theorem convertWithin_eq (h : ((convertAll units names).run {}).1 ≠ .error .endless)
    (hlevels : maxLevels units ≤ levels) :
    (convertWithin units levels names).run {} = (convertAll units names).run {} := by
  obtain ⟨extra, rfl⟩ := Nat.exists_eq_add_of_le hlevels
  exact (tracks_moreWithin units (maxLevels units) extra names).run_eq trivial h

end Levels

section Circles

variable {names : Option (List String)} {levels : Nat} {e x : Entry} {fault : ConversionFault}

theorem exists_chain (h : Fails units levels e .endless) :
    ∃ path : List Entry, path.length = levels ∧ (e :: path).IsChain (Enters units) ∧
      path ⊆ units.aggregates := by
  generalize hfault : ConversionFault.endless = fault at h
  induction h with
  | endless => exact ⟨[], rfl, .singleton _, List.nil_subset _⟩
  | type _ _ => cases hfault
  | @inside levels e x fault hx _ ih =>
    obtain ⟨path, hlength, hchain, hpath⟩ := ih hfault
    exact ⟨x :: path, congrArg (· + 1) hlength, .cons_cons hx hchain,
      List.cons_subset.mpr ⟨hx.mem, hpath⟩⟩

theorem exists_circle (he : e ∈ units.aggregates)
    (h : Fails units units.aggregates.length e .endless) :
    ∃ x, ReflTransGen (Enters units) e x ∧ TransGen (Enters units) x x := by
  obtain ⟨path, hlength, hchain, hpath⟩ := exists_chain h
  have hpairwise : (e :: path).Pairwise (TransGen (Enters units)) :=
    List.isChain_iff_pairwise.mp (hchain.imp fun _ _ => .single)
  -- There are more places on the path than aggregates.
  have hrepeated : ¬ (e :: path).Nodup := by
    intro hnodup
    have hle := (hnodup.subperm (List.cons_subset.mpr ⟨he, hpath⟩)).length_le
    rw [List.length_cons, hlength] at hle
    exact Nat.not_succ_le_self _ hle
  obtain ⟨x, hx⟩ := List.exists_duplicate_iff_not_nodup.mpr hrepeated
  refine ⟨x, ?_, ?_⟩
  · rcases List.mem_cons.mp hx.mem with rfl | hmem
    · exact .refl
    · exact (List.rel_of_pairwise_cons hpairwise hmem).to_reflTransGen
  · exact List.pairwise_pair.mp (hpairwise.sublist (List.duplicate_iff_sublist.mp hx))

theorem nameTaken_of_descriptionOf {done : List String} {s : Findings}
    (h : descriptionOf done s = .error fault) :
    ∃ name ∈ done, s.named.find? name = none ∧ fault = .nameTaken name := by
  unfold descriptionOf at h
  cases hnames : done.mapM (namedIn s) with
  | ok aggregates =>
    rw [hnames] at h
    cases h
  | error fault' =>
    rw [hnames] at h
    obtain rfl := Except.error.inj h
    obtain ⟨earlier, name, later, rfl, _, hname⟩ := mapM_eq_error.mp hnames
    unfold namedIn at hname
    split at hname
    · cases hname
    · next hnone => exact ⟨name, by simp, hnone, (Except.error.inj hname).symm⟩

theorem describe_eq_endless {path : String} :
    (describe path units names).1 = .error .endless ↔
      ((convertAll units names).run {}).1 = .error .endless := by
  rw [describe_fst]
  split
  · next hrun =>
    rw [hrun, Except.error.injEq, Except.error.injEq]
  · next done s hrun =>
    rw [hrun]
    refine iff_of_false (fun h => ?_) (by simp)
    obtain ⟨name, _, _, hfault⟩ := nameTaken_of_descriptionOf h
    cases hfault

end Circles

/-- Chains of types of all kinds come to an end, and so does all nesting, with levels that hang on
the number of aggregates only, unless an aggregate that is asked for leads to one that holds itself
by value. -/
theorem conversion_ends_or_circles (path : String) (units : Units)
    (names : Option (List String)) :
    ((describe path units names).1 ≠ .error .endless ∧
      ∀ levels, maxLevels units ≤ levels →
        (convertWithin units levels names).run {} = (convertAll units names).run {}) ∨
    ((describe path units names).1 = .error .endless ∧
      (∀ levels, ((convertWithin units levels names).run {}).1 = .error .endless) ∧
      ∃ e ∈ units.entries, ∃ x, (requested? names e).isSome ∧
        ReflTransGen (Enters units) e x ∧ TransGen (Enters units) x x) := by
  rw [Ne, describe_eq_endless]
  by_cases h : ((convertAll units names).run {}).1 = .error .endless
  · obtain ⟨e, he, hrequested, hfails⟩ :=
      fails_of_run (convertWithin_endless h units.aggregates.length)
    obtain ⟨x, hreaches, hcircle⟩ :=
      exists_circle (mem_aggregates_of_requested he hrequested) hfails
    exact .inr ⟨h, convertWithin_endless h, e, he, x, hrequested, hreaches, hcircle⟩
  · exact .inl ⟨h, fun levels => convertWithin_eq h⟩

def ouroborosUnits : Units := [[structEntry 1 "ouroboros" 4 [memberEntry 2 "tail" 1]]]

theorem ouroboros_endless :
    (describe "app.elf" ouroborosUnits none).1 = .error .endless ∧
      ∀ levels, ((convertWithin ouroborosUnits levels none).run {}).1 = .error .endless := by
  have hdescribe : (describe "app.elf" ouroborosUnits none).1 = .error .endless := by
    with_unfolding_all rfl
  exact ⟨hdescribe, convertWithin_endless (describe_eq_endless.mp hdescribe)⟩

end DebugInfo

end AggregateLayout
