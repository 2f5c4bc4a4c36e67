import Mathlib
import AggregateLayout.Proofs.Nesting

namespace AggregateLayout

theorem foldlM_congr {m : Type → Type} [Monad m] {α β : Type} {f g : β → α → m β} {as : List α}
    (h : ∀ a ∈ as, ∀ b, f b a = g b a) (b : β) : as.foldlM f b = as.foldlM g b := by
  induction as generalizing b with
  | nil => rfl
  | cons a rest ih =>
    obtain ⟨ha, hrest⟩ := List.forall_mem_cons.mp h
    rw [List.foldlM_cons, List.foldlM_cons, ha b]
    exact congrArg _ (funext (ih hrest))

theorem mapM_congr {m : Type → Type} [Monad m] [LawfulMonad m] {α β : Type} {f g : α → m β}
    {as : List α} (h : ∀ a ∈ as, f a = g a) : as.mapM f = as.mapM g := by
  induction as with
  | nil => rw [List.mapM_nil, List.mapM_nil]
  | cons a rest ih =>
    obtain ⟨ha, hrest⟩ := List.forall_mem_cons.mp h
    rw [List.mapM_cons, List.mapM_cons, ha, ih hrest]

variable {μ : Type} [Measure μ]

namespace Target

structure AgreeOn (G : Aggregate μ → Prop) (t t' : Target μ) : Prop where
  profile : t.profile = t'.profile
  maxDepth : t.maxDepth = t'.maxDepth
  nested : ∀ a, G a → ∀ m ∈ a.members, ∀ name, m.type = .named name →
    t.catalog.nested? name = t'.catalog.nested? name
  described : ∀ a, G a → ∀ m ∈ a.members, ∀ name, m.type = .named name →
    t.catalog.describe name = t'.catalog.describe name
  closed : ∀ a, G a → ∀ m ∈ a.members, ∀ b, t.nested? m.type = some b → G b

variable {G : Aggregate μ → Prop} {t t' : Target μ} {a : Aggregate μ} {m : Member μ}
  {f g : Aggregate μ → Layouting μ (TypeDescriptor μ)}

namespace AgreeOn

theorem typeWith_eq (h : AgreeOn G t t') (ha : G a) (hm : m ∈ a.members)
    (hfg : ∀ b, G b → f b = g b) : t.typeWith f m = t'.typeWith g m := by
  have hclosed := h.closed a ha m hm
  unfold typeWith
  cases htype : m.type with
  | descriptor d => rfl
  | inline b =>
    have hb : f b = g b := hfg b (hclosed b (by rw [htype]; rfl))
    dsimp only
    rw [hb]
  | named name =>
    dsimp only
    rw [← h.nested a ha m hm name htype, ← h.described a ha m hm name htype]
    cases hnested : t.catalog.nested? name with
    | none => rfl
    | some b =>
      have hb : f b = g b := hfg b (hclosed b (by rw [htype]; exact hnested))
      dsimp only
      rw [hb]

theorem layoutWith_eq (h : AgreeOn G t t') (ha : G a) (hfg : ∀ b, G b → f b = g b) :
    t.layoutWith f a = t'.layoutWith g a := by
  unfold layoutWith
  rw [h.profile]
  cases a.kind with
  | struct =>
    refine congrArg (· >>= _) (foldlM_congr (fun m hm s => ?_) _)
    rw [h.typeWith_eq ha hm hfg]
  | union =>
    refine congrArg (· >>= _) (mapM_congr fun m hm => ?_)
    rw [h.typeWith_eq ha hm hfg]

theorem layoutAt_eq (h : AgreeOn G t t') (keep : Bool) (levels : Nat) (path : List String)
    (ha : G a) : t.layoutAt keep levels path a = t'.layoutAt keep levels path a := by
  induction levels generalizing path a with
  | zero =>
    unfold layoutAt tooDeep
    rw [h.maxDepth]
  | succ levels ih =>
    unfold layoutAt
    refine congrArg (_ >>= ·) (funext fun _ => congrArg (_ >>= ·) (funext fun _ => ?_))
    refine h.layoutWith_eq ha fun b hb => ?_
    rw [ih _ hb]

theorem layout_eq (h : AgreeOn G t t') (ha : G a) : t.layout a = t'.layout a := by
  unfold layout levels
  rw [h.maxDepth, h.layoutAt_eq true _ [] ha]

end AgreeOn

end Target

end AggregateLayout
