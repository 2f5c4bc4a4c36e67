import Mathlib
import AggregateLayout.Proofs.Failing

namespace AggregateLayout

namespace Layouting

def Raises {α : Type} (P : LayoutCause Int → Prop) (x : Layouting Int α) : Prop :=
  ∀ memo f, x memo = .error f → ∃ e, f = .invalid e ∧ P e.cause

namespace Raises

variable {α β : Type} {P Q : LayoutCause Int → Prop} {x : Layouting Int α}

theorem imp (hx : Raises P x) (h : ∀ cause, P cause → Q cause) : Raises Q x :=
  Fails.imp hx fun _ ⟨e, hf, he⟩ => ⟨e, hf, h _ he⟩

theorem lift {x : Except (LayoutFailure Int) α}
    (hx : ∀ f, x = .error f → ∃ e, f = .invalid e ∧ P e.cause) :
    Raises P (liftM x : Layouting Int α) := Fails.lift hx

theorem bind {f : α → Layouting Int β} (hx : Raises P x)
    (hf : ∀ a memo memo', x memo = .ok (a, memo') → Raises P (f a)) : Raises P (x >>= f) :=
  Fails.bind hx hf

theorem located {f : LayoutFailure Int} {a m : Option String}
    (h : ∃ e, f = .invalid e ∧ P e.cause) : ∃ e, f.located a m = .invalid e ∧ P e.cause := by
  obtain ⟨e, rfl, he⟩ := h
  exact ⟨e.located a m, rfl, he⟩

end Raises

end Layouting

open Layouting

theorem checkCycle_error {path : List String} {a : Aggregate Int} {f : LayoutFailure Int}
    (h : checkCycle path a = .error f) :
    a.name ≠ "" ∧ a.name ∈ path ∧ ∃ e, f = .invalid e ∧ e.cause = .cycle (path ++ [a.name]) := by
  unfold checkCycle at h
  split at h
  · next hc =>
    simp only [Bool.and_eq_true, Bool.not_eq_eq_eq_not, Bool.not_true, String.isEmpty_eq_false_iff,
      List.contains_iff_mem] at hc
    exact ⟨hc.1, hc.2, _, (Except.error.inj h).symm, rfl⟩
  · cases h

theorem checkCycle_eq_ok {path : List String} {a : Aggregate Int} :
    checkCycle path a = .ok () ↔ (a.name ≠ "" → a.name ∉ path) := by
  unfold checkCycle
  split <;> simp_all

theorem checkNames_error {a : Aggregate Int} {seen : List String} {members : List (Member Int)}
    {f : LayoutFailure Int} (h : checkNames a seen members = .error f) :
    ∃ e, f = .invalid e ∧ ¬ e.cause.OfChain := by
  induction members generalizing seen with
  | nil => cases h
  | cons m rest ih =>
    unfold checkNames at h
    split at h
    · exact ⟨_, (Except.error.inj h).symm, id⟩
    · split at h
      · exact ⟨_, (Except.error.inj h).symm, id⟩
      · exact ih h

namespace Target

variable {t : Target Int} {nested : Aggregate Int → Layouting Int (TypeDescriptor Int)}
  {a b : Aggregate Int} {m : Member Int} {d : TypeDescriptor Int} {memo memo' : Memo Int}
  {Q : Aggregate Int → LayoutCause Int → Prop} {levels : Nat} {path : List String}

theorem Sound.fits (h : t.Sound a) (hm : m ∈ a.members)
    (hd : t.typeWith nested m memo = .ok (d, memo')) : m.Fits d := by
  intro width hw
  obtain ⟨f, hf, fits⟩ := h.bitfields m hm width hw
  obtain ⟨d₀, hd, ⟨hf', _⟩ | ⟨b, hb, _⟩⟩ := typeWith_eq_ok.mp hd
  · obtain rfl := Option.some.inj (hf.symm.trans hf')
    obtain rfl := Except.ok.inj ((withDims_nil fits.single).symm.trans hd)
    exact fits
  · exact absurd hb (nested?_ne_some_of_flat? hf)

section Traversal

variable {P : LayoutCause Int → Prop}

theorem raises_typeWith
    (hdims : ∀ d f, withDims m d = .error f → ∃ e, f = .invalid e ∧ P e.cause)
    (hname : ∀ name, m.type = .named name → t.catalog.contains name = false → P (.unknownType name))
    (hn : ∀ b, t.nested? m.type = some b → Raises P (nested b)) :
    Raises P (t.typeWith nested m) :=
  fails_typeWith hdims (fun name htype h => ⟨_, rfl, hname name htype h⟩) hn

theorem raises_layoutWith (htype : ∀ m ∈ a.members, Raises P (t.typeWith nested m))
    (hadd : ∀ m ∈ a.members, ∀ d memo memo', t.typeWith nested m memo = .ok (d, memo') →
      ∀ (s : PartialStruct Int) f, s.add t.profile a.packed m d = .error f →
        ∃ e, f = .invalid e ∧ P e.cause)
    (hoverlay : ∀ m ∈ a.members, ∀ d memo memo', t.typeWith nested m memo = .ok (d, memo') →
      ∀ f, overlay t.profile m d = .error f → ∃ e, f = .invalid e ∧ P e.cause) :
    Raises P (t.layoutWith nested a) := by
  apply fails_layoutWith
  · intro m hm
    exact Fails.imp (htype m hm) fun _ => Raises.located
  · intro m hm d memo memo' hd s f hf
    exact Raises.located (hadd m hm d memo memo' hd s f hf)
  · intro m hm d memo memo' hd f hf
    exact Raises.located (hoverlay m hm d memo memo' hd f hf)
  · intro l f hf
    cases hf

end Traversal

def Inside (t : Target Int) (a : Aggregate Int) (Q : Aggregate Int → LayoutCause Int → Prop)
    (cause : LayoutCause Int) : Prop :=
  (¬ t.Sound a ∧ ¬ cause.OfChain) ∨ ∃ b, t.Nests a b ∧ Q b cause

theorem raises_inside_typeWith (hm : m ∈ a.members)
    (hn : ∀ b, t.Nests a b → Raises (Q b) (nested b)) :
    Raises (t.Inside a Q) (t.typeWith nested m) := by
  apply raises_typeWith
  · intro d f hf
    rcases withDims_cases m d with ⟨_, e, h⟩ | ⟨hneg, e, h, hcause⟩ <;> rw [h] at hf
    · cases hf
    · exact ⟨e, (Except.error.inj hf).symm, .inl ⟨fun hs => hneg (hs.lengths m hm), hcause⟩⟩
  · intro name htype hmissing
    refine .inl ⟨fun hs => ?_, id⟩
    rw [hs.resolves m hm name htype] at hmissing
    cases hmissing
  · intro b hb
    exact (hn b ⟨m, hm, hb⟩).imp fun _ h => .inr ⟨b, ⟨m, hm, hb⟩, h⟩

theorem raises_inside_layoutWith (hn : ∀ b, t.Nests a b → Raises (Q b) (nested b)) :
    Raises (t.Inside a Q) (t.layoutWith nested a) := by
  -- What cannot be placed is a bitfield, and its type tells that the aggregate is not sound.
  apply raises_layoutWith
  · intro m hm
    exact raises_inside_typeWith hm hn
  · intro m hm d _ _ hd s f hf
    rcases s.add_cases t.profile a.packed m d with ⟨_, _, h⟩ | ⟨fits, e, h, hcause⟩ <;> rw [h] at hf
    · cases hf
    · exact ⟨e, (Except.error.inj hf).symm, .inl ⟨fun hs => fits (hs.fits hm hd), hcause⟩⟩
  · intro m hm d _ _ hd f hf
    rcases overlay_cases t.profile m d with ⟨_, _, h⟩ | ⟨fits, e, h, hcause⟩ <;> rw [h] at hf
    · cases hf
    · exact ⟨e, (Except.error.inj hf).symm, .inl ⟨fun hs => fits (hs.fits hm hd), hcause⟩⟩

inductive Fault (t : Target Int) : Nat → List String → Aggregate Int → LayoutCause Int → Prop
  | cycle {levels : Nat} {path : List String} {a : Aggregate Int} (hname : a.name ≠ "")
    (hpath : a.name ∈ path) : Fault t levels path a (.cycle (path ++ [a.name]))
  | deep {path : List String} {a : Aggregate Int} (hclear : checkCycle path a = .ok ()) :
    Fault t 0 path a (.invalidMember (.tooDeep t.maxDepth))
  | unsound {levels : Nat} {path : List String} {a : Aggregate Int} {cause : LayoutCause Int}
    (h : ¬ t.Sound a) (hcause : ¬ cause.OfChain) : Fault t (levels + 1) path a cause
  | nested {levels : Nat} {path : List String} {a b : Aggregate Int} {cause : LayoutCause Int}
    (hclear : checkCycle path a = .ok ()) (hb : t.Nests a b)
    (h : Fault t levels (path ++ [orAnonymous a.name]) b cause) :
    Fault t (levels + 1) path a cause

theorem raises_nestedAt {keep : Bool} {P : LayoutCause Int → Prop}
    (h : Raises P (t.layoutAt keep levels path b)) : Raises P (t.nestedAt keep levels path b) :=
  fails_nestedAt h

theorem raises_layoutAt (keep : Bool) (levels : Nat) (path : List String) (a : Aggregate Int) :
    Raises (t.Fault levels path a) (t.layoutAt keep levels path a) := by
  have closed (levels : Nat) (path : List String) (a : Aggregate Int) :
      Raises (t.Fault levels path a) (liftM (checkCycle path a) : Layouting Int Unit) := by
    apply Raises.lift
    intro f hf
    obtain ⟨hname, hpath, e, rfl, hcause⟩ := checkCycle_error hf
    exact ⟨e, rfl, hcause ▸ .cycle hname hpath⟩
  induction levels generalizing path a with
  | zero =>
    unfold layoutAt
    refine (closed 0 path a).bind fun _ _ _ hclear => ?_
    intro memo f h
    exact ⟨_, (Except.error.inj h).symm, .deep (lift_eq_ok.mp hclear).1⟩
  | succ levels ih =>
    unfold layoutAt
    refine (closed _ path a).bind fun _ _ _ hclear => ?_
    have hclear := (lift_eq_ok.mp hclear).1
    refine (Raises.lift fun f hf => ?_).bind fun _ _ _ _ => ?_
    · obtain ⟨e, rfl, hcause⟩ := checkNames_error hf
      refine ⟨e, rfl, .unsound (fun hs => ?_) hcause⟩
      rw [checkNames_nil_eq_ok.mpr ⟨hs.named, hs.distinct⟩] at hf
      cases hf
    · refine (raises_inside_layoutWith fun b _ => raises_nestedAt (ih _ b)).imp fun cause h => ?_
      rcases h with ⟨hs, hcause⟩ | ⟨b, hb, h⟩
      · exact .unsound hs hcause
      · exact .nested hclear hb h

theorem noted_eq_error {x : Layouting Int (Layout Int)} {f : LayoutFailure Int} :
    noted x = .error f ↔ x [] = .error f := by
  rw [← run'_eq_error]
  unfold noted
  cases x.run' [] with
  | ok l => exact iff_of_false (fun h => nomatch h) (fun h => nomatch h)
  | error f' => exact Iff.rfl

theorem layout_fault {f : LayoutFailure Int} (h : t.layout a = .error f) :
    ∃ e, f = .invalid e ∧ t.Fault t.levels [] a e.cause :=
  raises_layoutAt true t.levels [] a [] f (noted_eq_error.mp h)

theorem layoutAfresh_fault {f : LayoutFailure Int} (h : t.layoutAfresh a = .error f) :
    ∃ e, f = .invalid e ∧ t.Fault t.levels [] a e.cause :=
  raises_layoutAt false t.levels [] a [] f (noted_eq_error.mp h)

end Target

end AggregateLayout
