import Mathlib
import AggregateLayout.Proofs.Layouting

/-!
Two computations abreast, in one measure or in two. Both come to results that are related, or they
fail in ways that are put up with: one of them by itself, or both together.
-/

namespace AggregateLayout

variable {μ ν : Type} [Measure μ] [Measure ν]

theorem LayoutFailure.located_number {μ : Type} {fault : NumberFault} {f : LayoutFailure μ}
    (aggregate member : Option String) (h : f = .number fault) :
    f.located aggregate member = .number fault := by
  rw [h]
  rfl

/-- Failures that are put up with, wherever they get their place. -/
structure Tolerance (μ ν : Type) [Measure μ] [Measure ν] where
  left : LayoutFailure μ → Prop
  right : LayoutFailure ν → Prop
  both : LayoutFailure μ → LayoutFailure ν → Prop
  located_left : ∀ {f} a m, left f → left (f.located a m)
  located_right : ∀ {g} a m, right g → right (g.located a m)
  located_both : ∀ {f g} a m, both f g → both (f.located a m) (g.located a m)

namespace Tolerance

inductive Abreast (T : Tolerance μ ν) {α β : Type} (R : α → β → Prop) :
    Except (LayoutFailure μ) α → Except (LayoutFailure ν) β → Prop
  | left {f : LayoutFailure μ} {y : Except (LayoutFailure ν) β} (hf : T.left f) :
    Abreast T R (.error f) y
  | right {x : Except (LayoutFailure μ) α} {g : LayoutFailure ν} (hg : T.right g) :
    Abreast T R x (.error g)
  | both {f : LayoutFailure μ} {g : LayoutFailure ν} (hfg : T.both f g) :
    Abreast T R (.error f) (.error g)
  | done {a : α} {b : β} (hab : R a b) : Abreast T R (.ok a) (.ok b)

variable {T : Tolerance μ ν} {α β γ δ ι κ : Type} {R : α → β → Prop} {S : γ → δ → Prop}
  {I : ι → κ → Prop}

namespace Abreast

variable {x : Except (LayoutFailure μ) α} {y : Except (LayoutFailure ν) β}

theorem bind {f : α → Except (LayoutFailure μ) γ} {g : β → Except (LayoutFailure ν) δ}
    (hxy : T.Abreast R x y) (hfg : ∀ a b, R a b → T.Abreast S (f a) (g b)) :
    T.Abreast S (x >>= f) (y >>= g) := by
  cases hxy with
  | left hf => exact .left hf
  | right hg => exact .right hg
  | both hfg => exact .both hfg
  | done hab => exact hfg _ _ hab

theorem foldlM {f : α → ι → Except (LayoutFailure μ) α} {g : β → κ → Except (LayoutFailure ν) β}
    (hfg : ∀ i j a b, I i j → R a b → T.Abreast R (f a i) (g b j)) {is : List ι} {js : List κ}
    (hij : List.Forall₂ I is js) {a : α} {b : β} (hab : R a b) :
    T.Abreast R (is.foldlM f a) (js.foldlM g b) := by
  induction hij generalizing a b with
  | nil => exact .done hab
  | cons h _ ih =>
    rw [List.foldlM_cons, List.foldlM_cons]
    exact (hfg _ _ a b h hab).bind fun _ _ => ih

theorem located (hxy : T.Abreast R x y) (a m : Option String) :
    T.Abreast R (x.mapError (·.located a m)) (y.mapError (·.located a m)) := by
  cases hxy with
  | left hf => exact .left (T.located_left a m hf)
  | right hg => exact .right (T.located_right a m hg)
  | both hfg => exact .both (T.located_both a m hfg)
  | done hab => exact .done hab

end Abreast

/-- From related memos the two go on with related memos. -/
def Run (T : Tolerance μ ν) (M : Memo μ → Memo ν → Prop) (R : α → β → Prop) (x : Layouting μ α)
    (y : Layouting ν β) : Prop :=
  ∀ memo memo', M memo memo' →
    T.Abreast (fun r r' => R r.1 r'.1 ∧ M r.2 r'.2) (x memo) (y memo')

namespace Run

variable {M : Memo μ → Memo ν → Prop} {x : Layouting μ α} {y : Layouting ν β}

protected theorem pure {a : α} {b : β} (hab : R a b) : T.Run M R (pure a) (pure b) :=
  fun _ _ hmemo => .done ⟨hab, hmemo⟩

theorem lift {u : Except (LayoutFailure μ) α} {v : Except (LayoutFailure ν) β}
    (huv : T.Abreast R u v) : T.Run M R (liftM u : Layouting μ α) (liftM v : Layouting ν β) :=
  fun _ _ hmemo => huv.bind fun _ _ hab => .done ⟨hab, hmemo⟩

theorem bind {f : α → Layouting μ γ} {g : β → Layouting ν δ} (hxy : T.Run M R x y)
    (hfg : ∀ a b, R a b → T.Run M S (f a) (g b)) : T.Run M S (x >>= f) (y >>= g) :=
  fun memo memo' hmemo =>
    (hxy memo memo' hmemo).bind fun r r' h => hfg r.1 r'.1 h.1 r.2 r'.2 h.2

theorem foldlM {f : α → ι → Layouting μ α} {g : β → κ → Layouting ν β}
    (hfg : ∀ i j a b, I i j → R a b → T.Run M R (f a i) (g b j)) {is : List ι} {js : List κ}
    (hij : List.Forall₂ I is js) {a : α} {b : β} (hab : R a b) :
    T.Run M R (is.foldlM f a) (js.foldlM g b) := by
  induction hij generalizing a b with
  | nil => exact .pure hab
  | cons h _ ih =>
    rw [List.foldlM_cons, List.foldlM_cons]
    exact (hfg _ _ a b h hab).bind fun _ _ => ih

theorem mapM {f : ι → Layouting μ α} {g : κ → Layouting ν β}
    (hfg : ∀ i j, I i j → T.Run M R (f i) (g j)) {is : List ι} {js : List κ}
    (hij : List.Forall₂ I is js) : T.Run M (List.Forall₂ R) (is.mapM f) (js.mapM g) := by
  induction hij with
  | nil =>
    rw [List.mapM_nil, List.mapM_nil]
    exact .pure .nil
  | cons h _ ih =>
    rw [List.mapM_cons, List.mapM_cons]
    exact (hfg _ _ h).bind fun _ _ hab => ih.bind fun _ _ hrest => .pure (.cons hab hrest)

theorem placing {a : Aggregate μ} {a' : Aggregate ν} {m : Member μ} {m' : Member ν}
    (hxy : T.Run M R x y) (ha : a.name = a'.name) (hm : m.name = m'.name) :
    T.Run M R (Target.placing a m x) (Target.placing a' m' y) := by
  intro memo memo' hmemo
  unfold Target.placing
  rw [ha, hm]
  exact (hxy memo memo' hmemo).located _ _

theorem run' {memo : Memo μ} {memo' : Memo ν} (hxy : T.Run M R x y) (hmemo : M memo memo') :
    T.Abreast R (x.run' memo) (y.run' memo') := by
  have h := hxy memo memo' hmemo
  change T.Abreast R ((·.1) <$> x memo) ((·.1) <$> y memo')
  generalize x memo = u, y memo' = v at h
  cases h with
  | left hf => exact .left hf
  | right hg => exact .right hg
  | both hfg => exact .both hfg
  | done hab => exact .done hab.1

end Run

section Layouts

variable {M : Memo μ → Memo ν → Prop} {D : TypeDescriptor μ → TypeDescriptor ν → Prop}
  {P : PartialStruct μ → PartialStruct ν → Prop} {Q : Placement μ → Placement ν → Prop}
  {L : Layout μ → Layout ν → Prop} {N : Member μ → Member ν → Prop} {t : Target μ} {t' : Target ν}
  {a : Aggregate μ} {a' : Aggregate ν}

theorem Run.remembered {x : Layouting μ (TypeDescriptor μ)} {y : Layouting ν (TypeDescriptor ν)}
    (hxy : T.Run M D x y) (keep : Bool)
    (hfind : ∀ memo memo', M memo memo' → Option.Rel D (memo.find? a) (memo'.find? a'))
    (hkeep : ∀ memo memo' d d', M memo memo' → D d d' → M ((a, d) :: memo) ((a', d') :: memo')) :
    T.Run M D (Target.remembered keep a x) (Target.remembered keep a' y) := by
  intro memo memo' hmemo
  rw [Target.remembered_apply, Target.remembered_apply]
  have hfound := hfind memo memo' hmemo
  generalize memo.find? a = found, memo'.find? a' = found' at hfound
  cases hfound with
  | some hd => exact .done ⟨hd, hmemo⟩
  | none =>
    refine (hxy memo memo' hmemo).bind ?_
    rintro ⟨d, memo₁⟩ ⟨d', memo₁'⟩ ⟨hd, hmemo₁⟩
    refine .done ⟨hd, ?_⟩
    cases keep with
    | false => exact hmemo₁
    | true => exact hkeep _ _ _ _ hmemo₁ hd

/-- Layouts go abreast where the types of the members, their places and what is made of these do. -/
theorem Run.layoutWith {nested : Aggregate μ → Layouting μ (TypeDescriptor μ)}
    {nested' : Aggregate ν → Layouting ν (TypeDescriptor ν)} (hname : a.name = a'.name)
    (hkind : a.kind = a'.kind) (hmembers : List.Forall₂ N a.members a'.members)
    (hnames : ∀ m m', N m m' → m.name = m'.name)
    (htype : ∀ m m', N m m' → T.Run M D (t.typeWith nested m) (t'.typeWith nested' m'))
    (hstart : P {} {})
    (hadd : ∀ m m' d d' s s', N m m' → D d d' → P s s' →
      T.Abreast P (s.add t.profile a.packed m d) (s'.add t'.profile a'.packed m' d'))
    (hfinish : ∀ s s', P s s' →
      T.Abreast L (s.finish t.profile a).computed (s'.finish t'.profile a').computed)
    (hoverlay : ∀ m m' d d', N m m' → D d d' →
      T.Abreast Q (overlay t.profile m d) (overlay t'.profile m' d'))
    (hunion : ∀ ps ps', List.Forall₂ Q ps ps' →
      T.Abreast L (finishUnion a ps).computed (finishUnion a' ps').computed) :
    T.Run M L (t.layoutWith nested a) (t'.layoutWith nested' a') := by
  unfold Target.layoutWith
  rw [← hkind]
  cases a.kind with
  | struct =>
    refine .bind (.foldlM (fun m m' s s' hm hs => ?_) hmembers hstart) fun s s' hs =>
      .lift (hfinish s s' hs)
    refine .placing (.bind (htype m m' hm) fun d d' hd => .lift ?_) hname (hnames m m' hm)
    exact hadd m m' d d' s s' hm hd hs
  | union =>
    refine .bind (.mapM (fun m m' hm => ?_) hmembers) fun ps ps' hps => .lift (hunion ps ps' hps)
    refine .placing (.bind (htype m m' hm) fun d d' hd => .lift ?_) hname (hnames m m' hm)
    exact hoverlay m m' d d' hm hd

end Layouts

end Tolerance

end AggregateLayout
