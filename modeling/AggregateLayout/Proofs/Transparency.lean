import Mathlib
import AggregateLayout.Proofs.Expansion
import AggregateLayout.Proofs.Chains

/-!
A layout that remembers nested aggregates beside one that lays out each of them afresh. Both take
the same steps, and what is remembered is what would come out again. The memo only spares the look
at the chain that leads to an aggregate, so that nothing but the fault of a chain can tell the two
apart.
-/

namespace AggregateLayout

namespace Target

/-- A run that remembers follows one that does not: both fail alike or come to results that agree,
unless the one that does not remember fails for a chain. -/
def Follows (t : Target Int) {α β : Type} (R : α → β → Prop) (x : Layouting Int α)
    (y : Layouting Int β) : Prop :=
  ∀ memo, t.Remembers memo →
    (∃ e, y [] = .error (.invalid e) ∧ e.cause.OfChain) ∨
    (∃ f, x memo = .error f ∧ y [] = .error f) ∨
    ∃ a memo' b, x memo = .ok (a, memo') ∧ t.Remembers memo' ∧ y [] = .ok (b, []) ∧ R a b

namespace Follows

variable {t : Target Int} {α β γ δ : Type} {R : α → β → Prop} {S : γ → δ → Prop}
  {x : Layouting Int α} {y : Layouting Int β}

protected theorem pure {a : α} {b : β} (h : R a b) : t.Follows R (pure a) (pure b) :=
  fun memo hmemo => .inr (.inr ⟨a, memo, b, rfl, hmemo, rfl, h⟩)

theorem lift {u : Except (LayoutFailure Int) α} {v : Except (LayoutFailure Int) β} {p : α → γ}
    {q : β → γ} (h : u.map p = v.map q) :
    t.Follows (fun a b => p a = q b) (liftM u : Layouting Int α) (liftM v : Layouting Int β) := by
  intro memo hmemo
  cases u <;> cases v <;> try cases h
  · exact .inr (.inl ⟨_, rfl, rfl⟩)
  · exact .inr (.inr ⟨_, memo, _, rfl, hmemo, rfl, Except.ok.inj h⟩)

theorem bind {f : α → Layouting Int γ} {g : β → Layouting Int δ} (hxy : t.Follows R x y)
    (hfg : ∀ a b, R a b → t.Follows S (f a) (g b)) : t.Follows S (x >>= f) (y >>= g) := by
  intro memo hmemo
  change (∃ e, (y [] >>= fun r => g r.1 r.2) = _ ∧ _) ∨
    (∃ e, (x memo >>= fun r => f r.1 r.2) = _ ∧ (y [] >>= fun r => g r.1 r.2) = _) ∨
    ∃ a memo' b, (x memo >>= fun r => f r.1 r.2) = _ ∧ _ ∧ (y [] >>= fun r => g r.1 r.2) = _ ∧ _
  rcases hxy memo hmemo with ⟨e, hy, he⟩ | ⟨e, hx, hy⟩ | ⟨a, memo', b, hx, hmemo', hy, hab⟩
  · rw [hy]
    exact .inl ⟨e, rfl, he⟩
  · rw [hx, hy]
    exact .inr (.inl ⟨e, rfl, rfl⟩)
  · rw [hx, hy]
    exact hfg a b hab memo' hmemo'

theorem foldlM {ι : Type} {f : α → ι → Layouting Int α} {g : β → ι → Layouting Int β}
    (hfg : ∀ i a b, R a b → t.Follows R (f a i) (g b i)) (is : List ι) {a : α} {b : β}
    (hab : R a b) : t.Follows R (is.foldlM f a) (is.foldlM g b) := by
  induction is generalizing a b with
  | nil => exact .pure hab
  | cons i rest ih =>
    rw [List.foldlM_cons, List.foldlM_cons]
    exact (hfg i a b hab).bind fun _ _ => ih

theorem mapM {ι : Type} {f : ι → Layouting Int α} {g : ι → Layouting Int β}
    (hfg : ∀ i, t.Follows R (f i) (g i)) (is : List ι) :
    t.Follows (List.Forall₂ R) (is.mapM f) (is.mapM g) := by
  induction is with
  | nil =>
    rw [List.mapM_nil, List.mapM_nil]
    exact .pure .nil
  | cons i rest ih =>
    rw [List.mapM_cons, List.mapM_cons]
    exact (hfg i).bind fun a b hab => ih.bind fun as bs hrest => .pure (.cons hab hrest)

theorem placing (hxy : t.Follows R x y) (a : Aggregate Int) (m : Member Int) :
    t.Follows R (Target.placing a m x) (Target.placing a m y) := by
  intro memo hmemo
  unfold Target.placing
  rcases hxy memo hmemo with ⟨e, hy, he⟩ | ⟨f, hx, hy⟩ | ⟨r, memo', r', hx, hmemo', hy, hr⟩
  · rw [hy]
    exact .inl ⟨_, rfl, he⟩
  · rw [hx, hy]
    exact .inr (.inl ⟨_, rfl, rfl⟩)
  · rw [hx, hy]
    exact .inr (.inr ⟨r, memo', r', rfl, hmemo', rfl, hr⟩)

end Follows

abbrev Agree (d e : TypeDescriptor Int) : Prop := d.plain = e.plain

variable {t : Target Int} {nested nested' : Aggregate Int → Layouting Int (TypeDescriptor Int)}
  {a b : Aggregate Int} {levels : Nat} {path : List String}

theorem follows_typeWith (hn : ∀ b, t.Follows Agree (nested b) (nested' b)) (m : Member Int) :
    t.Follows Agree (t.typeWith nested m) (t.typeWith nested' m) := by
  have dims (d e : TypeDescriptor Int) (h : Agree d e) :
      t.Follows Agree (liftM (withDims m d) : Layouting Int _) (liftM (withDims m e)) := by
    apply Follows.lift
    rw [← plain_withDims, h, plain_withDims]
  unfold typeWith
  cases m.type with
  | descriptor d => exact (Follows.pure (R := Agree) rfl).bind dims
  | inline b => exact (hn b).bind dims
  | named name =>
    dsimp only
    cases t.catalog.nested? name with
    | some b => exact (hn b).bind dims
    | none =>
      refine Follows.bind (Follows.lift (p := TypeDescriptor.plain) (q := TypeDescriptor.plain) ?_)
        dims
      rfl

theorem plain_add_congr {packed : Bool} {m : Member Int} {q q' : PartialStruct Int}
    {d d' : TypeDescriptor Int} (p : MachineProfile Int) (hq : q.plain = q'.plain)
    (hd : d.plain = d'.plain) :
    (q.add p packed m d).map PartialStruct.plain =
      (q'.add p packed m d').map PartialStruct.plain := by
  have h := PartialStruct.plain_add p packed q (m, d)
  have h' := PartialStruct.plain_add p packed q' (m, d')
  rw [← h, ← h', hq, bareTyped, bareTyped, hd]

theorem plain_overlay_congr {m : Member Int} {d d' : TypeDescriptor Int} (p : MachineProfile Int)
    (hd : d.plain = d'.plain) :
    (overlay p m d).map Placement.plain = (overlay p m d').map Placement.plain := by
  have h := plain_overlay p (m, d)
  have h' := plain_overlay p (m, d')
  rw [← h, ← h', bareTyped, bareTyped, hd]

theorem follows_layoutWith (hn : ∀ b, t.Follows Agree (nested b) (nested' b)) :
    t.Follows (fun l l' => l.plain = l'.plain) (t.layoutWith nested a)
      (t.layoutWith nested' a) := by
  unfold layoutWith
  cases a.kind with
  | struct =>
    refine Follows.bind (R := fun q q' => q.plain = q'.plain)
      (Follows.foldlM (fun m q q' hq => ?_) a.members rfl) fun q q' hq => ?_
    · refine Follows.placing ((follows_typeWith hn m).bind fun d d' hd => ?_) a m
      exact Follows.lift (plain_add_congr t.profile hq hd)
    · apply Follows.lift
      rw [← plain_computed, ← plain_computed, ← PartialStruct.plain_finish,
        ← PartialStruct.plain_finish, hq]
  | union =>
    refine Follows.bind (Follows.mapM (R := fun x y => x.plain = y.plain) (fun m => ?_) a.members)
      fun ps ps' hps => ?_
    · refine Follows.placing ((follows_typeWith hn m).bind fun d d' hd => ?_) a m
      exact Follows.lift (plain_overlay_congr t.profile hd)
    · have hplain : ps.map Placement.plain = ps'.map Placement.plain := by
        rw [← List.forall₂_eq_eq_eq]
        exact List.forall₂_map_left_iff.mpr (List.forall₂_map_right_iff.mpr hps)
      apply Follows.lift
      rw [← plain_computed, ← plain_computed, ← plain_finishUnion, ← plain_finishUnion, hplain]

theorem Remembers.afresh {memo : Memo Int} {d : TypeDescriptor Int} (h : t.Remembers memo)
    (hd : memo.find? b = some d) :
    (∃ e, t.layoutAt false levels path b [] = .error (.invalid e) ∧ e.cause.OfChain) ∨
      ∃ l, t.layoutAt false levels path b [] = .ok (l, []) ∧ d.plain = l.descriptor.plain := by
  obtain ⟨l, hl, hld⟩ := h.find? hd
  cases hfresh : t.layoutAt false levels path b [] with
  | error f =>
    obtain ⟨e, rfl, hfault⟩ := raises_layoutAt false levels path b [] f hfresh
    exact .inl ⟨e, rfl, hfault.ofChain fun c hc => hl.sound_below hc⟩
  | ok r =>
    obtain ⟨l', memo'⟩ := r
    obtain rfl := layoutAt_afresh hfresh
    cases levels with
    | zero => exact absurd hfresh layoutAt_zero_ne_ok
    | succ levels =>
      have hl' := (Finds.layoutAt (finds_nestedAt false levels) remembers_nil hfresh).1
      exact .inr ⟨l', rfl, hld.symm.trans (descriptor_plain_eq (hl.unique hl'))⟩

theorem follows_nestedAt
    (h : t.Follows (fun l l' => l.plain = l'.plain) (t.layoutAt true levels path b)
      (t.layoutAt false levels path b)) :
    t.Follows Agree (t.nestedAt true levels path b) (t.nestedAt false levels path b) := by
  intro memo hmemo
  have failed (f : LayoutFailure Int) (hf : t.layoutAt false levels path b [] = .error f) :
      t.nestedAt false levels path b [] = .error f := nestedAt_eq_error.mpr ⟨rfl, hf⟩
  have done (l : Layout Int) (hl : t.layoutAt false levels path b [] = .ok (l, [])) :
      t.nestedAt false levels path b [] = .ok (l.descriptor, []) :=
    nestedAt_eq_ok.mpr (.inr ⟨rfl, l, [], hl, rfl, rfl⟩)
  cases hfind : memo.find? b with
  | some d =>
    -- Only here do the two part: one run takes what it knows, the other one looks at the chain.
    have hd : t.nestedAt true levels path b memo = .ok (d, memo) :=
      nestedAt_eq_ok.mpr (.inl ⟨hfind, rfl⟩)
    rcases hmemo.afresh hfind with ⟨e, he, hcause⟩ | ⟨l, hl, hdl⟩
    · exact .inl ⟨e, failed _ he, hcause⟩
    · exact .inr (.inr ⟨d, memo, l.descriptor, hd, hmemo, done l hl, hdl⟩)
  | none =>
    rcases h memo hmemo with ⟨e, he, hcause⟩ | ⟨f, hx, hy⟩ | ⟨l, memo₁, l', hx, _, hy, hll'⟩
    · exact .inl ⟨e, failed _ he, hcause⟩
    · exact .inr (.inl ⟨f, nestedAt_eq_error.mpr ⟨hfind, hx⟩, failed f hy⟩)
    · have hd : t.nestedAt true levels path b memo =
          .ok (l.descriptor, (b, l.descriptor) :: memo₁) :=
        nestedAt_eq_ok.mpr (.inr ⟨hfind, l, memo₁, hx, rfl, rfl⟩)
      have hmemo' := (finds_nestedAt true levels path b memo _ _ hmemo hd).2
      exact .inr (.inr ⟨_, _, _, hd, hmemo', done l' hy, descriptor_plain_eq hll'⟩)

theorem follows_layoutAt (levels : Nat) (path : List String) (a : Aggregate Int) :
    t.Follows (fun l l' => l.plain = l'.plain) (t.layoutAt true levels path a)
      (t.layoutAt false levels path a) := by
  have same {α : Type} (x : Except (LayoutFailure Int) α) :
      t.Follows (fun a b => id a = id b) (liftM x : Layouting Int α) (liftM x) :=
    Follows.lift rfl
  induction levels generalizing path a with
  | zero =>
    unfold layoutAt
    exact (same _).bind fun _ _ _ memo _ => .inr (.inl ⟨_, rfl, rfl⟩)
  | succ levels ih =>
    unfold layoutAt
    refine (same _).bind fun _ _ _ => (same _).bind fun _ _ _ => ?_
    exact follows_layoutWith fun b => follows_nestedAt (ih _ b)

end Target

theorem layout_transparent (t : Target Int) (a : Aggregate Int) :
    (t.layout a).map Layout.plain = (t.layoutAfresh a).map Layout.plain ∨
      ∃ e, t.layoutAfresh a = .error (.invalid e) ∧ e.cause.OfChain := by
  rcases Target.follows_layoutAt t.levels [] a [] Target.remembers_nil with
    ⟨e, hy, he⟩ | ⟨f, hx, hy⟩ | ⟨l, memo, l', hx, _, hy, hll'⟩
  · exact .inr ⟨e, Target.noted_eq_error.mpr hy, he⟩
  · left
    have h : t.layout a = .error f := Target.noted_eq_error.mpr hx
    have hfresh : t.layoutAfresh a = .error f := Target.noted_eq_error.mpr hy
    rw [h, hfresh]
  · left
    have h : t.layout a = .ok l := Target.noted_eq_ok.mpr ⟨⟨memo, hx⟩, rfl⟩
    have hfresh : t.layoutAfresh a = .ok l' := Target.noted_eq_ok.mpr ⟨⟨[], hy⟩, rfl⟩
    rw [h, hfresh]
    exact congrArg Except.ok hll'

def twoLevels : Target Int := { Target.ofProfile .lp64 with maxDepth := 2 }

def mark : Aggregate Int where
  name := "mark"
  members := [{ name := "c", type := .descriptor byte }]

def marked : Aggregate Int where
  name := "marked"
  members :=
    [{ name := "word",
       type := .descriptor (.basic "u64" (.of 8) .eight .scalar true) },
      { name := "mark", type := .inline mark }]

def markFirst : Aggregate Int where
  name := "outer"
  members :=
    [{ name := "first", type := .inline mark }, { name := "second", type := .inline marked }]

theorem layout_remembers_markFirst : ∃ l e, twoLevels.layout markFirst = .ok l ∧
    twoLevels.layoutAfresh markFirst = .error (.invalid e) ∧
    e.cause = .invalidMember (.tooDeep 2) := ⟨_, _, rfl, rfl, rfl⟩

end AggregateLayout
