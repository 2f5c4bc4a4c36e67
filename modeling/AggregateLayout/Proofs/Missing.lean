import Mathlib
import AggregateLayout.Proofs.Failing

namespace AggregateLayout

variable {μ : Type}

def MissesOnly {α : Type} (P : String → Prop) (x : Except (LayoutFailure μ) α) : Prop :=
  ∀ e name, x = .error (.invalid e) → e.cause = .unknownType name → P name

namespace MissesOnly

variable {α β : Type} {P : String → Prop} {x : Except (LayoutFailure μ) α}

theorem ok (a : α) : MissesOnly P (.ok a : Except (LayoutFailure μ) α) :=
  fun _ _ h => (nomatch h)

theorem error {e : LayoutError μ} (h : ∀ name, e.cause = .unknownType name → P name) :
    MissesOnly P (.error (.invalid e) : Except (LayoutFailure μ) α) := by
  rintro _ name ⟨⟩ hcause
  exact h name hcause

theorem number (x : Except NumberFault α) :
    MissesOnly P (x.mapError LayoutFailure.number : Except (LayoutFailure μ) α) := by
  intro e name h
  cases x <;> cases h

theorem bind {f : α → Except (LayoutFailure μ) β} (hx : MissesOnly P x)
    (hf : ∀ a, x = .ok a → MissesOnly P (f a)) : MissesOnly P (x >>= f) := by
  intro e name h
  rcases except_bind_eq_error.mp h with h | ⟨a, ha, h⟩
  · exact hx e name h
  · exact hf a ha e name h

theorem foldlM {f : β → α → Except (LayoutFailure μ) β} (hf : ∀ b a, MissesOnly P (f b a))
    (as : List α) (b : β) : MissesOnly P (as.foldlM f b) := by
  intro e name h
  obtain ⟨a, _, b', _, h⟩ :=
    foldlM_eq_error (P := fun _ => True) (fun _ _ _ _ _ => trivial) trivial h
  exact hf b' a e name h

end MissesOnly

def LayoutFailure.Misses (P : String → Prop) (f : LayoutFailure μ) : Prop :=
  ∀ e name, f = .invalid e → e.cause = .unknownType name → P name

section Failures

variable {P : String → Prop} {f : LayoutFailure μ}

theorem MissesOnly.misses {α : Type} {x : Except (LayoutFailure μ) α} (hx : MissesOnly P x)
    (h : x = .error f) : f.Misses P := by
  rintro e name rfl hcause
  exact hx e name h hcause

theorem LayoutFailure.Misses.located {a m : Option String} (h : f.Misses P) :
    (f.located a m).Misses P := by
  intro e name he hcause
  cases f with
  | number fault => cases he
  | invalid e' =>
    obtain rfl := LayoutFailure.invalid.inj he
    exact h e' name rfl hcause

end Failures

variable [Measure μ]

section Steps

variable {p : MachineProfile μ} {packed : Bool} {a : Aggregate μ} {P : String → Prop}

theorem missesOnly_checkBitfield (m : Member μ) (width : μ) (d : TypeDescriptor μ) :
    MissesOnly P (checkBitfield m width d) := by
  unfold checkBitfield
  dsimp only
  split
  · exact .error fun _ h => by cases h
  · split
    · exact .error fun _ h => by cases h
    · split
      · refine (MissesOnly.number _).bind fun _ _ => (MissesOnly.number _).bind fun _ _ => ?_
        exact .error fun _ h => by cases h
      · exact .ok ()

theorem missesOnly_add (s : PartialStruct μ) (m : Member μ) (d : TypeDescriptor μ) :
    MissesOnly P (s.add p packed m d) := by
  have hplace : MissesOnly P (s.placer.place p packed m d) := by
    unfold Placer.place
    split
    · exact (missesOnly_checkBitfield m _ d).bind fun _ _ => .ok _
    · exact .ok _
  exact hplace.bind fun _ _ => (MissesOnly.number _).bind fun _ _ =>
    (MissesOnly.number _).bind fun _ _ => .ok _

theorem missesOnly_overlay (m : Member μ) (d : TypeDescriptor μ) :
    MissesOnly P (overlay p m d) := by
  unfold overlay
  dsimp only
  split
  · exact .ok _
  · exact (missesOnly_checkBitfield m _ d).bind fun _ _ => .ok _

theorem missesOnly_withDims (m : Member μ) (d : TypeDescriptor μ) :
    MissesOnly P (withDims m d) := by
  refine .foldlM (fun element count => ?_) _ d
  intro e name h hcause
  cases hx : TypeDescriptor.arrayOf element count with
  | ok d' =>
    rw [hx] at h
    cases h
  | error fault =>
    rw [hx] at h
    change Except.error (m.lengthFailure fault) = _ at h
    unfold Member.lengthFailure at h
    split at h
    · cases h
    · obtain rfl := LayoutFailure.invalid.inj (Except.error.inj h)
      cases hcause

theorem missesOnly_checkNames (seen : List String) (members : List (Member μ)) :
    MissesOnly P (checkNames a seen members) := by
  induction members generalizing seen with
  | nil => exact .ok ()
  | cons m rest ih =>
    unfold checkNames
    split
    · exact .error fun _ h => by cases h
    · split
      · exact .error fun _ h => by cases h
      · exact ih _

theorem missesOnly_checkCycle (path : List String) : MissesOnly P (checkCycle path a) := by
  unfold checkCycle
  split
  · exact .error fun _ h => by cases h
  · exact .ok ()

end Steps

namespace Target

open Layouting (Fails)

variable {t : Target μ} {nested : Aggregate μ → Layouting μ (TypeDescriptor μ)} {a : Aggregate μ}
  {P : String → Prop}

theorem misses_typeWith {m : Member μ}
    (hname : ∀ name, m.type = .named name → t.catalog.contains name = false → P name)
    (hnested : ∀ b, t.nested? m.type = some b → Fails (LayoutFailure.Misses P) (nested b)) :
    Fails (LayoutFailure.Misses P) (t.typeWith nested m) := by
  apply fails_typeWith
  · intro d f hf
    exact (missesOnly_withDims m d).misses hf
  · rintro name htype hmissing _ _ ⟨⟩ ⟨⟩
    exact hname name htype hmissing
  · exact hnested

theorem misses_layoutWith
    (h : ∀ m ∈ a.members, Fails (LayoutFailure.Misses P) (t.typeWith nested m)) :
    Fails (LayoutFailure.Misses P) (t.layoutWith nested a) := by
  apply fails_layoutWith
  · intro m hm
    exact (h m hm).imp fun _ => LayoutFailure.Misses.located
  · intro m _ d _ _ _ s f hf
    exact ((missesOnly_add s m d).misses hf).located
  · intro m _ d _ _ _ f hf
    exact ((missesOnly_overlay m d).misses hf).located
  · intro l f hf
    exact (MissesOnly.number _).misses hf

theorem misses_layoutAt {G : Aggregate μ → Prop} (keep : Bool) (levels : Nat)
    (hname : ∀ a, G a → ∀ m ∈ a.members, ∀ name, m.type = .named name →
      t.catalog.contains name = false → P name)
    (hnested : ∀ a, G a → ∀ m ∈ a.members, ∀ b, t.nested? m.type = some b → G b)
    (path : List String) (ha : G a) :
    Fails (LayoutFailure.Misses P) (t.layoutAt keep levels path a) := by
  have clear (path : List String) (a : Aggregate μ) :
      Fails (LayoutFailure.Misses P) (liftM (checkCycle path a) : Layouting μ Unit) :=
    .lift fun _ => (missesOnly_checkCycle path).misses
  induction levels generalizing path a with
  | zero =>
    unfold layoutAt
    refine (clear path a).bind fun _ _ _ _ => ?_
    rintro _ _ ⟨⟩
    unfold tooDeep
    split <;> rintro _ _ ⟨⟩ ⟨⟩
  | succ levels ih =>
    unfold layoutAt
    refine (clear path a).bind fun _ _ _ _ => ?_
    refine (Fails.lift fun _ => (missesOnly_checkNames [] a.members).misses).bind fun _ _ _ _ => ?_
    refine misses_layoutWith fun m hm => misses_typeWith (hname a ha m hm) fun b hb => ?_
    exact fails_nestedAt (ih _ (hnested a ha m hm b hb))

theorem layout_misses {G : Aggregate μ → Prop}
    (hname : ∀ a, G a → ∀ m ∈ a.members, ∀ name, m.type = .named name →
      t.catalog.contains name = false → P name)
    (hnested : ∀ a, G a → ∀ m ∈ a.members, ∀ b, t.nested? m.type = some b → G b) (ha : G a)
    {e : LayoutError μ} {name : String} (h : t.layout a = .error (.invalid e))
    (hcause : e.cause = .unknownType name) : P name := by
  have hrun : MissesOnly P (t.layout a) := by
    unfold layout noted
    refine .bind ?_ fun l _ => (MissesOnly.number _).bind fun _ _ => .ok l
    have hat : MissesOnly P (t.layoutAt true t.levels [] a []) :=
      fun e name h => misses_layoutAt true t.levels hname hnested [] ha [] _ h e name rfl
    exact hat.bind fun r _ => .ok r.1
  exact hrun e name h hcause

end Target

end AggregateLayout
