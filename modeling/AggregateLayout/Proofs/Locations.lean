import Mathlib
import AggregateLayout.Proofs.Expansion

namespace AggregateLayout

open Relation (ReflTransGen)
open Layouting (Fails)

def LayoutFailure.AtMember (f : LayoutFailure Int) (m : Member Int) : Prop :=
  ∃ e, f = .invalid e ∧ e.aggregate = none ∧ (e.member = none ∨ e.member = some m.name)

section Steps

variable {p : MachineProfile Int} {packed : Bool} {m : Member Int} {d : TypeDescriptor Int}
  {f : LayoutFailure Int}

theorem atMember_withDims (h : withDims m d = .error f) : f.AtMember m := by
  obtain ⟨_, rfl⟩ := withDims_error h
  exact ⟨_, rfl, rfl, .inr rfl⟩

theorem atMember_checkBitfield {width : Int} (h : checkBitfield m width d = .error f) :
    f.AtMember m := by
  rcases checkBitfield_cases m width d with ⟨hok, _⟩ | ⟨_, cause, _, herror⟩
  · exact (nomatch h.symm.trans hok)
  · obtain rfl := Except.error.inj (h.symm.trans herror)
    exact ⟨_, rfl, rfl, .inr rfl⟩

theorem atMember_add {s : PartialStruct Int} (h : s.add p packed m d = .error f) :
    f.AtMember m := by
  obtain ⟨_, _, h⟩ := PartialStruct.add_error h
  exact atMember_checkBitfield h

theorem atMember_overlay (h : overlay p m d = .error f) : f.AtMember m := by
  obtain ⟨_, _, h⟩ := overlay_error h
  exact atMember_checkBitfield h

end Steps

theorem LayoutError.located_of_place {e : LayoutError Int} {x y : String} {a m : Option String}
    (ha : e.aggregate = some x) (hm : e.member = some y) : e.located a m = e := by
  obtain ⟨cause, _, _⟩ := e
  subst ha hm
  rfl

namespace Target

variable {t : Target Int} {nested : Aggregate Int → Layouting Int (TypeDescriptor Int)}
  {a b c : Aggregate Int} {m : Member Int} {path : List String} {e : LayoutError Int}
  {f : LayoutFailure Int}

inductive Entry (t : Target Int) (path : List String) (a : Aggregate Int) : LayoutError Int → Prop
  | cycle (closed : List String) :
    Entry t path a { cause := .cycle closed, aggregate := path.getLast? }
  | deep :
    Entry t path a
      { cause := .invalidMember (.tooDeep t.maxDepth), aggregate := some (orAnonymous a.name) }
  | unnamed : Entry t path a { cause := .invalidMember .unnamed, aggregate := some a.name }

/-- The place names a member of an aggregate, but not that aggregate. It names the one behind the
member instead, or has the placeholder for one without a name. -/
inductive Astray (t : Target Int) (a : Aggregate Int) (m : Member Int) (e : LayoutError Int) : Prop
  | cycle {closed : List String} (hcause : e.cause = .cycle closed) (ha : a.name = "")
    (hplace : e.aggregate = some anonymous) : Astray t a m e
  | deep {b : Aggregate Int} (hcause : e.cause = .invalidMember (.tooDeep t.maxDepth))
    (hb : t.nested? m.type = some b) (hplace : e.aggregate = some (orAnonymous b.name)) :
    Astray t a m e
  | unnamed {b : Aggregate Int} (hcause : e.cause = .invalidMember .unnamed)
    (hb : t.nested? m.type = some b) (hplace : e.aggregate = some b.name) : Astray t a m e

structure Blames (t : Target Int) (a : Aggregate Int) (m : Member Int) (e : LayoutError Int) :
    Prop where
  aggregate : e.aggregate = some a.name ∨ t.Astray a m e
  member : e.member = some m.name

def Places (t : Target Int) (a : Aggregate Int) (e : LayoutError Int) : Prop :=
  ∃ b, ReflTransGen t.Nests a b ∧ ∃ m ∈ b.members, t.Blames b m e

def Leaves (t : Target Int) (path : List String) (a : Aggregate Int) (f : LayoutFailure Int) :
    Prop :=
  ∃ e, f = .invalid e ∧ (t.Places a e ∨ t.Entry path a e)

theorem Blames.located {x y : Option String} (h : t.Blames a m e) : e.located x y = e := by
  obtain ⟨z, hz⟩ : ∃ z, e.aggregate = some z := by
    rcases h.aggregate with hown | ⟨_, _, hplace⟩ | ⟨_, _, hplace⟩ | ⟨_, _, hplace⟩
    · exact ⟨_, hown⟩
    all_goals exact ⟨_, hplace⟩
  exact LayoutError.located_of_place hz h.member

theorem blames_of_atMember (h : f.AtMember m) :
    ∃ e, f.located a.name m.name = .invalid e ∧ t.Blames a m e := by
  obtain ⟨⟨cause, _, _⟩, rfl, rfl, rfl | rfl⟩ := h
  · exact ⟨_, rfl, .inl rfl, rfl⟩
  · exact ⟨_, rfl, .inl rfl, rfl⟩

theorem Entry.blames (h : t.Entry (path ++ [orAnonymous a.name]) b e)
    (hb : t.nested? m.type = some b) : t.Blames a m (e.located a.name m.name) := by
  cases h with
  | cycle closed =>
    refine ⟨?_, rfl⟩
    have hplace : (LayoutError.located
        { cause := .cycle closed, aggregate := (path ++ [orAnonymous a.name]).getLast? }
        (some a.name) (some m.name) : LayoutError Int).aggregate = some (orAnonymous a.name) := by
      rw [List.getLast?_concat]
      rfl
    by_cases ha : a.name = ""
    · refine .inr (.cycle rfl ha ?_)
      rw [hplace, ha]
      rfl
    · rw [hplace]
      simp [orAnonymous, ha]
  | deep => exact ⟨.inr (.deep rfl hb rfl), rfl⟩
  | unnamed => exact ⟨.inr (.unnamed rfl hb rfl), rfl⟩

theorem places_located (hm : m ∈ a.members) (hb : t.nested? m.type = some b)
    (h : t.Places b e ∨ t.Entry (path ++ [orAnonymous a.name]) b e) :
    t.Places a (e.located a.name m.name) := by
  rcases h with ⟨c, hbc, n, hn, hblames⟩ | hentry
  · rw [hblames.located]
    exact ⟨c, .head ⟨m, hm, hb⟩ hbc, n, hn, hblames⟩
  · exact ⟨a, .refl, m, hm, hentry.blames hb⟩

theorem leaves_of_checkCycle (h : checkCycle path a = .error f) : t.Leaves path a f := by
  unfold checkCycle at h
  split at h
  · obtain rfl := Except.error.inj h
    exact ⟨_, rfl, .inr (.cycle _)⟩
  · cases h

theorem leaves_of_checkNames {seen : List String} {members : List (Member Int)}
    (hmembers : members ⊆ a.members) (h : checkNames a seen members = .error f) :
    t.Leaves path a f := by
  induction members generalizing seen with
  | nil => cases h
  | cons m rest ih =>
    obtain ⟨hm, hrest⟩ := List.cons_subset.mp hmembers
    unfold checkNames at h
    split at h
    · obtain rfl := Except.error.inj h
      exact ⟨_, rfl, .inr .unnamed⟩
    · split at h
      · obtain rfl := Except.error.inj h
        exact ⟨_, rfl, .inl ⟨a, .refl, m, hm, .inl rfl, rfl⟩⟩
      · exact ih hrest h

theorem places_layoutWith
    (hn : ∀ b, Fails (t.Leaves (path ++ [orAnonymous a.name]) b) (nested b)) :
    Fails (fun f => ∃ e, f = .invalid e ∧ t.Places a e) (t.layoutWith nested a) := by
  have own {m : Member Int} {f : LayoutFailure Int} (hm : m ∈ a.members) (h : f.AtMember m) :
      ∃ e, f.located a.name m.name = .invalid e ∧ t.Places a e := by
    obtain ⟨e, he, hblames⟩ := blames_of_atMember h
    exact ⟨e, he, a, .refl, m, hm, hblames⟩
  apply fails_layoutWith
  · intro m hm
    apply fails_typeWith
    · intro d f hf
      exact own hm (atMember_withDims hf)
    · intro name _ _
      exact own hm ⟨_, rfl, rfl, .inl rfl⟩
    · intro b hb
      refine (hn b).imp ?_
      rintro _ ⟨e, rfl, h⟩
      exact ⟨_, rfl, places_located hm hb h⟩
  · intro m hm d _ _ _ s f hf
    exact own hm (atMember_add hf)
  · intro m hm d _ _ _ f hf
    exact own hm (atMember_overlay hf)
  · intro l f hf
    cases hf

theorem leaves_layoutAt (keep : Bool) (levels : Nat) (path : List String) (a : Aggregate Int) :
    Fails (t.Leaves path a) (t.layoutAt keep levels path a) := by
  induction levels generalizing path a with
  | zero =>
    unfold layoutAt
    refine (Fails.lift fun _ => leaves_of_checkCycle).bind fun _ _ _ _ => ?_
    intro memo f h
    obtain rfl := Except.error.inj h
    exact ⟨_, rfl, .inr .deep⟩
  | succ levels ih =>
    unfold layoutAt
    refine (Fails.lift fun _ => leaves_of_checkCycle).bind fun _ _ _ _ => ?_
    refine (Fails.lift fun _ => leaves_of_checkNames (List.Subset.refl _)).bind fun _ _ _ _ => ?_
    refine (places_layoutWith fun b => fails_nestedAt (ih _ b)).imp ?_
    rintro _ ⟨e, rfl, h⟩
    exact ⟨e, rfl, .inl h⟩

end Target

/-- An error that tells an aggregate and a member tells a member of the outermost aggregate or of
one that is nested in it, and the aggregate is the one that the member is of. Only where an
aggregate is nested too deep or has a member without a name may it be the one behind the member, and
only where aggregates make a cycle may it be the placeholder for one without a name. -/
theorem layout_locates (t : Target Int) (a : Aggregate Int) (e : LayoutError Int) (x y : String)
    (h : t.layout a = .error (.invalid e)) (hx : e.aggregate = some x) (hy : e.member = some y) :
    ∃ b, ReflTransGen t.Nests a b ∧ ∃ m ∈ b.members, m.name = y ∧
      (b.name = x ∨ t.Astray b m e) := by
  obtain ⟨_, heq, hplace⟩ :=
    Target.leaves_layoutAt true t.levels [] a [] _ (Target.noted_eq_error.mp h)
  obtain rfl := LayoutFailure.invalid.inj heq
  rcases hplace with ⟨b, hab, m, hm, hblames⟩ | hentry
  · refine ⟨b, hab, m, hm, Option.some.inj (hblames.member.symm.trans hy), ?_⟩
    exact hblames.aggregate.imp_left fun hown => Option.some.inj (hown.symm.trans hx)
  · cases hentry <;> cases hy

def widgetBox : Aggregate Int where
  name := "inner"
  members := [{ name := "w", type := .named "widget" }]

def aroundWidgetBox : Aggregate Int where
  name := "outer"
  members := [{ name := "i", type := .inline widgetBox }]

theorem layout_locates_widgetBox : ∃ e,
    (Target.ofProfile .lp64).layout aroundWidgetBox = .error (.invalid e) ∧
    e.aggregate = some "inner" ∧ e.member = some "w" ∧
    ∃ b, ReflTransGen (Target.ofProfile .lp64).Nests aroundWidgetBox b ∧ ∃ m ∈ b.members,
      m.name = "w" ∧ b.name = "inner" := by
  refine ⟨_, rfl, rfl, rfl, ?_⟩
  obtain ⟨b, hb, m, hm, hname, howner⟩ :=
    layout_locates (.ofProfile .lp64) aroundWidgetBox _ _ _ rfl rfl rfl
  refine ⟨b, hb, m, hm, hname, ?_⟩
  rcases howner with howner | ⟨⟨⟩, _, _⟩ | ⟨⟨⟩, _, _⟩ | ⟨⟨⟩, _, _⟩
  exact howner

def oneLevel : Target Int := { Target.ofProfile .lp64 with maxDepth := 1 }

theorem layout_misplaces_header : ∃ e, oneLevel.layout headers = .error (.invalid e) ∧
    e.aggregate = some "header" ∧ e.member = some "all" ∧
    ∀ b, ReflTransGen oneLevel.Nests headers b → b.name = "header" →
      ∀ m ∈ b.members, m.name ≠ "all" := by
  refine ⟨_, rfl, rfl, rfl, fun b hb hname => ?_⟩
  rcases below_headers hb with rfl | rfl
  · exact absurd hname (by decide)
  · decide

end AggregateLayout
