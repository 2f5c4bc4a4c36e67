import Mathlib
import AggregateLayout.Proofs.Sound

namespace AggregateLayout

variable {μ : Type} [Measure μ]

namespace Layouting

def Fails {α : Type} (P : LayoutFailure μ → Prop) (x : Layouting μ α) : Prop :=
  ∀ memo f, x memo = .error f → P f

namespace Fails

variable {α β : Type} {P Q : LayoutFailure μ → Prop} {x : Layouting μ α}

theorem imp (hx : Fails P x) (h : ∀ f, P f → Q f) : Fails Q x :=
  fun memo f hf => h f (hx memo f hf)

protected theorem pure (a : α) : Fails P (pure a : Layouting μ α) :=
  fun _ _ h => (nomatch h)

theorem lift {x : Except (LayoutFailure μ) α} (hx : ∀ f, x = .error f → P f) :
    Fails P (liftM x : Layouting μ α) := by
  intro memo f h
  cases x with
  | error f' =>
    obtain rfl := Except.error.inj h
    exact hx f' rfl
  | ok a => cases h

theorem bind {f : α → Layouting μ β} (hx : Fails P x)
    (hf : ∀ a memo memo', x memo = .ok (a, memo') → Fails P (f a)) : Fails P (x >>= f) := by
  intro memo e h
  change (x memo >>= fun r => f r.1 r.2) = _ at h
  cases hm : x memo with
  | error e' =>
    rw [hm] at h
    obtain rfl := Except.error.inj h
    exact hx memo e' hm
  | ok r =>
    rw [hm] at h
    exact hf r.1 memo r.2 hm r.2 e h

theorem foldlM {f : β → α → Layouting μ β} {as : List α} (hf : ∀ b, ∀ a ∈ as, Fails P (f b a))
    (b : β) : Fails P (as.foldlM f b) := by
  induction as generalizing b with
  | nil => exact .pure b
  | cons a rest ih =>
    rw [List.foldlM_cons]
    exact (hf b a (.head _)).bind fun b' _ _ _ => ih (fun b a ha => hf b a (.tail _ ha)) b'

theorem mapM {f : α → Layouting μ β} {as : List α} (hf : ∀ a ∈ as, Fails P (f a)) :
    Fails P (as.mapM f) := by
  induction as with
  | nil =>
    rw [List.mapM_nil]
    exact .pure []
  | cons a rest ih =>
    rw [List.mapM_cons]
    rw [List.forall_mem_cons] at hf
    exact hf.1.bind fun b _ _ _ => (ih hf.2).bind fun bs _ _ _ => .pure (b :: bs)

theorem placing {a : Aggregate μ} {m : Member μ}
    (hx : Fails (fun f => P (f.located a.name m.name)) x) : Fails P (Target.placing a m x) := by
  intro memo f h
  unfold Target.placing at h
  cases hm : x memo with
  | ok r =>
    rw [hm] at h
    cases h
  | error f' =>
    rw [hm] at h
    obtain rfl := Except.error.inj h
    exact hx memo f' hm

theorem remembered {x : Layouting μ (TypeDescriptor μ)} (hx : Fails P x) (keep : Bool)
    (a : Aggregate μ) : Fails P (Target.remembered keep a x) := by
  intro memo f h
  rw [Target.remembered_apply] at h
  cases hf : memo.find? a with
  | some d =>
    rw [hf] at h
    cases h
  | none =>
    rw [hf] at h
    cases hm : x memo with
    | ok r =>
      rw [hm] at h
      cases h
    | error f' =>
      rw [hm] at h
      obtain rfl := Except.error.inj h
      exact hx memo f' hm

end Fails

end Layouting

open Layouting (Fails)

theorem Catalog.describe_error {c : Catalog μ} {name : String}
    {e : LayoutError μ} (h : c.describe name = .error e) : e = { cause := .unknownType name } := by
  unfold describe at h
  dsimp only at h
  split at h
  · cases h
  · split at h
    · cases h
    · exact (Except.error.inj h).symm

namespace Target

variable {t : Target μ} {nested : Aggregate μ → Layouting μ (TypeDescriptor μ)} {a : Aggregate μ}
  {m : Member μ} {P : LayoutFailure μ → Prop}

theorem fails_typeWith (hdims : ∀ d f, withDims m d = .error f → P f)
    (hname : ∀ name, m.type = .named name → t.catalog.contains name = false →
      P (.invalid { cause := .unknownType name }))
    (hn : ∀ b, t.nested? m.type = some b → Fails P (nested b)) :
    Fails P (t.typeWith nested m) := by
  have dims (d : TypeDescriptor μ) : Fails P (liftM (withDims m d) : Layouting μ _) :=
    Fails.lift (hdims d)
  unfold typeWith
  cases htype : m.type with
  | descriptor d => exact (Fails.pure d).bind fun d _ _ _ => dims d
  | inline b => exact (hn b (by rw [htype]; rfl)).bind fun d _ _ _ => dims d
  | named name =>
    dsimp only
    cases hnested : t.catalog.nested? name with
    | some b => exact (hn b (by rw [htype]; exact hnested)).bind fun d _ _ _ => dims d
    | none =>
      refine Fails.bind (Fails.lift fun f hf => ?_) fun d _ _ _ => dims d
      cases hd : t.catalog.describe name with
      | ok d =>
        rw [hd] at hf
        cases hf
      | error e =>
        rw [hd] at hf
        obtain rfl := Catalog.describe_error hd
        obtain rfl := Except.error.inj hf
        refine hname name htype ?_
        rw [← Bool.not_eq_true, Catalog.contains_iff, hnested, hd]
        simp

theorem fails_layoutWith
    (htype : ∀ m ∈ a.members, Fails (fun f => P (f.located a.name m.name)) (t.typeWith nested m))
    (hadd : ∀ m ∈ a.members, ∀ d memo memo', t.typeWith nested m memo = .ok (d, memo') →
      ∀ (s : PartialStruct μ) f, s.add t.profile a.packed m d = .error f →
        P (f.located a.name m.name))
    (hoverlay : ∀ m ∈ a.members, ∀ d memo memo', t.typeWith nested m memo = .ok (d, memo') →
      ∀ f, overlay t.profile m d = .error f → P (f.located a.name m.name))
    (hcomputed : ∀ (l : Layout μ) f, l.computed = .error f → P f) :
    Fails P (t.layoutWith nested a) := by
  have computed (l : Layout μ) : Fails P (liftM l.computed : Layouting μ (Layout μ)) :=
    Fails.lift (hcomputed l)
  unfold layoutWith
  cases a.kind with
  | struct =>
    refine Fails.bind (Fails.foldlM (fun s m hm => Fails.placing ?_) _) fun _ _ _ _ => computed _
    exact (htype m hm).bind fun d _ _ hd => Fails.lift (hadd m hm d _ _ hd s)
  | union =>
    refine Fails.bind (Fails.mapM fun m hm => Fails.placing ?_) fun _ _ _ _ => computed _
    exact (htype m hm).bind fun d _ _ hd => Fails.lift (hoverlay m hm d _ _ hd)

theorem fails_nestedAt {keep : Bool} {levels : Nat} {path : List String}
    (h : Fails P (t.layoutAt keep levels path a)) : Fails P (t.nestedAt keep levels path a) :=
  Fails.remembered (h.bind fun _ _ _ _ => .pure _) keep a

end Target

end AggregateLayout
