import Mathlib
import AggregateLayout.Layout.Target

namespace AggregateLayout

variable {μ : Type} [Measure μ]

theorem mapError_eq_ok {ε δ α : Type} {x : Except ε α} {f : ε → δ} {a : α} :
    x.mapError f = .ok a ↔ x = .ok a := by
  cases x <;> simp [Except.mapError]

theorem except_bind_eq_ok {ε α β : Type} {x : Except ε α} {f : α → Except ε β} {b : β} :
    x >>= f = .ok b ↔ ∃ a, x = .ok a ∧ f a = .ok b := by
  cases x <;> simp [bind, Except.bind]

theorem except_bind_eq_error {ε α β : Type} {x : Except ε α} {f : α → Except ε β} {e : ε} :
    x >>= f = .error e ↔ x = .error e ∨ ∃ a, x = .ok a ∧ f a = .error e := by
  cases x <;> simp [bind, Except.bind]

instance decidableExistsOk {ε α : Type} (x : Except ε α) : Decidable (∃ a, x = .ok a) :=
  match x with
  | .ok a => isTrue ⟨a, rfl⟩
  | .error _ => isFalse nofun

instance decidableExistsOkAnd {ε α : Type} {P : α → Prop} [DecidablePred P] (x : Except ε α) :
    Decidable (∃ a, x = .ok a ∧ P a) :=
  match x with
  | .ok a => decidable_of_iff (P a) ⟨fun h => ⟨a, rfl, h⟩, by rintro ⟨_, ⟨⟩, h⟩; exact h⟩
  | .error _ => isFalse nofun

instance decidableNumber {α : Type} (x : Except (LayoutFailure μ) α) (fault : NumberFault) :
    Decidable (x = .error (.number fault)) :=
  match x with
  | .ok _ => isFalse nofun
  | .error (.invalid _) => isFalse nofun
  | .error (.number found) =>
    decidable_of_iff (found = fault) ⟨by rintro rfl; rfl, by rintro ⟨⟩; rfl⟩

theorem foldlM_invariant {ε α β : Type} {f : β → α → Except ε β} {P : β → Prop}
    (step : ∀ a b b', P b → f b a = .ok b' → P b') {as : List α} {b b' : β} (hb : P b)
    (h : as.foldlM f b = .ok b') : P b' := by
  induction as generalizing b with
  | nil =>
    obtain rfl := Except.ok.inj h
    exact hb
  | cons a rest ih =>
    rw [List.foldlM_cons, except_bind_eq_ok] at h
    obtain ⟨b₁, hstep, h⟩ := h
    exact ih (step a b b₁ hb hstep) h

theorem foldlM_eq_error {ε α β : Type} {f : β → α → Except ε β} {P : β → Prop}
    (step : ∀ a b b', P b → f b a = .ok b' → P b') {as : List α} {b : β} {e : ε} (hb : P b)
    (h : as.foldlM f b = .error e) : ∃ a ∈ as, ∃ b, P b ∧ f b a = .error e := by
  induction as generalizing b with
  | nil => cases h
  | cons a rest ih =>
    rw [List.foldlM_cons, except_bind_eq_error] at h
    rcases h with h | ⟨b', hstep, h⟩
    · exact ⟨a, .head _, b, hb, h⟩
    · obtain ⟨a', ha', hfail⟩ := ih (step a b b' hb hstep) h
      exact ⟨a', .tail _ ha', hfail⟩

theorem mapM_eq_ok {ε α β : Type} {f : α → Except ε β} {as : List α} {bs : List β} :
    as.mapM f = .ok bs ↔ List.Forall₂ (fun a b => f a = .ok b) as bs := by
  induction as generalizing bs with
  | nil =>
    rw [List.forall₂_nil_left_iff]
    exact ⟨fun h => (Except.ok.inj h).symm, fun h => congrArg Except.ok h.symm⟩
  | cons a rest ih =>
    simp only [List.mapM_cons, except_bind_eq_ok, ih, List.forall₂_cons_left_iff]
    constructor
    · rintro ⟨b, hb, bs', hrest, h⟩
      exact ⟨b, bs', hb, hrest, (Except.ok.inj h).symm⟩
    · rintro ⟨b, bs', hb, hrest, rfl⟩
      exact ⟨b, hb, bs', hrest, rfl⟩

theorem exists_of_forall₂ {α β : Type} {R : α → β → Prop} {as : List α} {bs : List β} {a : α}
    (h : List.Forall₂ R as bs) (ha : a ∈ as) : ∃ b ∈ bs, R a b := by
  induction h with
  | nil => cases ha
  | cons hxy _ ih =>
    rcases List.mem_cons.mp ha with rfl | ha
    · exact ⟨_, .head _, hxy⟩
    · obtain ⟨b, hb, hab⟩ := ih ha
      exact ⟨b, .tail _ hb, hab⟩

theorem mapM_eq_error {ε α β : Type} {f : α → Except ε β} {as : List α} {e : ε} :
    as.mapM f = .error e ↔ ∃ earlier a later, as = earlier ++ a :: later ∧
      (∀ b ∈ earlier, ∃ x, f b = .ok x) ∧ f a = .error e := by
  induction as with
  | nil =>
    refine iff_of_false nofun ?_
    rintro ⟨earlier, a, later, h, _⟩
    exact absurd h.symm (by simp)
  | cons a rest ih =>
    simp only [List.mapM_cons, except_bind_eq_error, ih]
    constructor
    · rintro (h | ⟨b, hb, ⟨earlier, c, later, rfl, hearlier, hc⟩ | ⟨bs, _, h⟩⟩)
      · exact ⟨[], a, rest, rfl, fun b hb => (nomatch hb), h⟩
      · exact ⟨a :: earlier, c, later, rfl, List.forall_mem_cons.mpr ⟨⟨b, hb⟩, hearlier⟩, hc⟩
      · cases h
    · rintro ⟨earlier, c, later, hsplit, hearlier, hc⟩
      cases earlier with
      | nil =>
        obtain ⟨rfl, _⟩ := List.cons.inj hsplit
        exact .inl hc
      | cons b earlier =>
        obtain ⟨rfl, rfl⟩ := List.cons.inj hsplit
        obtain ⟨⟨x, hx⟩, hearlier⟩ := List.forall_mem_cons.mp hearlier
        exact .inr ⟨x, hx, .inl ⟨earlier, c, later, rfl, hearlier, hc⟩⟩

namespace Layouting

variable {α β : Type} {memo memo' : Memo μ}

theorem bind_eq_ok {x : Layouting μ α} {f : α → Layouting μ β} {b : β} :
    (x >>= f) memo = .ok (b, memo') ↔
      ∃ a memo₁, x memo = .ok (a, memo₁) ∧ f a memo₁ = .ok (b, memo') := by
  change (x memo >>= fun r => f r.1 r.2) = _ ↔ _
  rw [except_bind_eq_ok]
  constructor
  · rintro ⟨⟨a, memo₁⟩, hx, hf⟩
    exact ⟨a, memo₁, hx, hf⟩
  · rintro ⟨a, memo₁, hx, hf⟩
    exact ⟨(a, memo₁), hx, hf⟩

theorem pure_eq_ok {a b : α} :
    (pure a : Layouting μ α) memo = .ok (b, memo') ↔ a = b ∧ memo = memo' := by
  change Except.ok (a, memo) = _ ↔ _
  rw [Except.ok.injEq, Prod.mk.injEq]

theorem lift_eq_ok {x : Except (LayoutFailure μ) α} {a : α} :
    (liftM x : Layouting μ α) memo = .ok (a, memo') ↔ x = .ok a ∧ memo = memo' := by
  change (x >>= fun a => Except.ok (a, memo)) = _ ↔ _
  rw [except_bind_eq_ok]
  simp

end Layouting

def Layout.ofTypes (p : MachineProfile μ) (a : Aggregate μ)
    (typed : List (Member μ × TypeDescriptor μ)) : Except (LayoutFailure μ) (Layout μ) :=
  match a.kind with
  | .struct => do
    let s ← typed.foldlM (fun (s : PartialStruct μ) x => s.add p a.packed x.1 x.2) {}
    (s.finish p a).computed
  | .union => do
    let placements ← typed.mapM fun x => overlay p x.1 x.2
    (finishUnion a placements).computed

namespace Target

variable (t : Target μ) (nested : Aggregate μ → Layouting μ (TypeDescriptor μ))

inductive Typing : Memo μ → List (Member μ × TypeDescriptor μ) → Memo μ → Prop
  | nil (memo : Memo μ) : Typing memo [] memo
  | cons {memo memo₁ memo₂ : Memo μ} {m : Member μ} {d : TypeDescriptor μ}
    {rest : List (Member μ × TypeDescriptor μ)} (hd : t.typeWith nested m memo = .ok (d, memo₁))
    (hrest : Typing memo₁ rest memo₂) : Typing memo ((m, d) :: rest) memo₂

variable {t nested} {a : Aggregate μ} {memo memo' : Memo μ}

theorem placing_eq_ok {α : Type} {m : Member μ} {x : Layouting μ α} {r : α × Memo μ} :
    placing a m x memo = .ok r ↔ x memo = .ok r := mapError_eq_ok

theorem foldlM_add_eq_ok {members : List (Member μ)} {s s' : PartialStruct μ} :
    (members.foldlM (fun (s : PartialStruct μ) m => placing a m do
        let d ← t.typeWith nested m
        s.add t.profile a.packed m d) s : Layouting μ _) memo = .ok (s', memo') ↔
      ∃ typed : List (Member μ × TypeDescriptor μ), typed.map Prod.fst = members ∧
        t.Typing nested memo typed memo' ∧
        typed.foldlM (fun (s : PartialStruct μ) x => s.add t.profile a.packed x.1 x.2) s =
          .ok s' := by
  induction members generalizing s memo with
  | nil =>
    rw [List.foldlM_nil, Layouting.pure_eq_ok]
    constructor
    · rintro ⟨rfl, rfl⟩
      exact ⟨[], rfl, .nil memo, rfl⟩
    · rintro ⟨typed, hm, htyping, hs⟩
      obtain rfl := List.map_eq_nil_iff.mp hm
      cases htyping
      exact ⟨Except.ok.inj hs, rfl⟩
  | cons m rest ih =>
    simp only [List.foldlM_cons, Layouting.bind_eq_ok, placing_eq_ok, Layouting.lift_eq_ok, ih]
    constructor
    · rintro ⟨s₁, _, ⟨d, memo₁, hd, hadd, rfl⟩, typed, rfl, htyping, hs⟩
      refine ⟨(m, d) :: typed, rfl, .cons hd htyping, ?_⟩
      rw [List.foldlM_cons, except_bind_eq_ok]
      exact ⟨s₁, hadd, hs⟩
    · rintro ⟨typed, hm, htyping, hs⟩
      cases htyping with
      | nil => cases hm
      | cons hd htyping =>
        obtain ⟨rfl, rfl⟩ := List.cons.inj hm
        rw [List.foldlM_cons, except_bind_eq_ok] at hs
        obtain ⟨s₁, hadd, hs⟩ := hs
        exact ⟨s₁, _, ⟨_, _, hd, hadd, rfl⟩, _, rfl, htyping, hs⟩

theorem mapM_overlay_eq_ok {members : List (Member μ)} {placements : List (Placement μ)} :
    (members.mapM (fun m => placing a m do
        let d ← t.typeWith nested m
        overlay t.profile m d) : Layouting μ _) memo = .ok (placements, memo') ↔
      ∃ typed : List (Member μ × TypeDescriptor μ), typed.map Prod.fst = members ∧
        t.Typing nested memo typed memo' ∧
        typed.mapM (fun x => overlay t.profile x.1 x.2) = .ok placements := by
  induction members generalizing placements memo memo' with
  | nil =>
    rw [List.mapM_nil, Layouting.pure_eq_ok]
    constructor
    · rintro ⟨rfl, rfl⟩
      exact ⟨[], rfl, .nil memo, rfl⟩
    · rintro ⟨typed, hm, htyping, hs⟩
      obtain rfl := List.map_eq_nil_iff.mp hm
      cases htyping
      exact ⟨Except.ok.inj hs, rfl⟩
  | cons m rest ih =>
    simp only [List.mapM_cons, Layouting.bind_eq_ok, placing_eq_ok, Layouting.lift_eq_ok,
      Layouting.pure_eq_ok, ih]
    constructor
    · rintro ⟨p, _, ⟨d, memo₁, hd, hp, rfl⟩, ps, _, ⟨typed, rfl, htyping, hps⟩, rfl, rfl⟩
      refine ⟨(m, d) :: typed, rfl, .cons hd htyping, ?_⟩
      rw [List.mapM_cons, except_bind_eq_ok]
      refine ⟨p, hp, except_bind_eq_ok.mpr ⟨ps, hps, rfl⟩⟩
    · rintro ⟨typed, hm, htyping, hs⟩
      cases htyping with
      | nil => cases hm
      | cons hd htyping =>
        obtain ⟨rfl, rfl⟩ := List.cons.inj hm
        rw [List.mapM_cons, except_bind_eq_ok] at hs
        obtain ⟨p, hp, hs⟩ := hs
        obtain ⟨ps, hps, hs⟩ := except_bind_eq_ok.mp hs
        obtain rfl := Except.ok.inj hs
        exact ⟨p, _, ⟨_, _, hd, hp, rfl⟩, ps, _, ⟨_, rfl, htyping, hps⟩, rfl, rfl⟩

theorem layoutWith_eq_ok {l : Layout μ} :
    t.layoutWith nested a memo = .ok (l, memo') ↔
      ∃ typed : List (Member μ × TypeDescriptor μ), typed.map Prod.fst = a.members ∧
        t.Typing nested memo typed memo' ∧ Layout.ofTypes t.profile a typed = .ok l := by
  unfold layoutWith Layout.ofTypes
  cases a.kind with
  | struct =>
    simp only [Layouting.bind_eq_ok, foldlM_add_eq_ok, Layouting.lift_eq_ok, except_bind_eq_ok]
    constructor
    · rintro ⟨s, _, ⟨typed, hm, htyping, hs⟩, hl, rfl⟩
      exact ⟨typed, hm, htyping, s, hs, hl⟩
    · rintro ⟨typed, hm, htyping, s, hs, hl⟩
      exact ⟨s, memo', ⟨typed, hm, htyping, hs⟩, hl, rfl⟩
  | union =>
    simp only [Layouting.bind_eq_ok, mapM_overlay_eq_ok, Layouting.lift_eq_ok, except_bind_eq_ok]
    constructor
    · rintro ⟨placements, _, ⟨typed, hm, htyping, hs⟩, hl, rfl⟩
      exact ⟨typed, hm, htyping, placements, hs, hl⟩
    · rintro ⟨typed, hm, htyping, placements, hs, hl⟩
      exact ⟨placements, memo', ⟨typed, hm, htyping, hs⟩, hl, rfl⟩

def nestedAt (t : Target μ) (keep : Bool) (levels : Nat) (path : List String) (a : Aggregate μ) :
    Layouting μ (TypeDescriptor μ) :=
  remembered keep a do
    let l ← t.layoutAt keep levels path a
    return l.descriptor

theorem remembered_apply (keep : Bool) (a : Aggregate μ)
    (compute : Layouting μ (TypeDescriptor μ)) (memo : Memo μ) :
    remembered keep a compute memo = match memo.find? a with
      | some d => .ok (d, memo)
      | none => compute memo >>= fun r => .ok (r.1, if keep then (a, r.1) :: r.2 else r.2) := by
  unfold remembered
  change (match memo.find? a with | some d => pure d | none => _ : Layouting μ _) memo = _
  cases memo.find? a with
  | some d => rfl
  | none => cases keep <;> rfl

theorem remembered_eq_ok {keep : Bool} {compute : Layouting μ (TypeDescriptor μ)}
    {d : TypeDescriptor μ} :
    remembered keep a compute memo = .ok (d, memo') ↔
      (memo.find? a = some d ∧ memo = memo') ∨
      memo.find? a = none ∧ ∃ memo₁, compute memo = .ok (d, memo₁) ∧
        (if keep then (a, d) :: memo₁ else memo₁) = memo' := by
  rw [remembered_apply]
  cases memo.find? a with
  | some d' => simp
  | none =>
    simp only [reduceCtorEq, false_and, false_or, true_and, except_bind_eq_ok, Except.ok.injEq,
      Prod.mk.injEq, Prod.exists]
    constructor
    · rintro ⟨d', memo₁, hd, rfl, hm⟩
      exact ⟨memo₁, hd, hm⟩
    · rintro ⟨memo₁, hd, hm⟩
      exact ⟨d, memo₁, hd, rfl, hm⟩

theorem nestedAt_eq_ok {keep : Bool} {levels : Nat} {path : List String} {d : TypeDescriptor μ} :
    t.nestedAt keep levels path a memo = .ok (d, memo') ↔
      (memo.find? a = some d ∧ memo = memo') ∨
      memo.find? a = none ∧ ∃ l memo₁, t.layoutAt keep levels path a memo = .ok (l, memo₁) ∧
        l.descriptor = d ∧ (if keep then (a, d) :: memo₁ else memo₁) = memo' := by
  unfold nestedAt
  rw [remembered_eq_ok]
  simp only [Layouting.bind_eq_ok, Layouting.pure_eq_ok]
  constructor
  · rintro (hd | ⟨hf, memo₁, ⟨l, _, hl, rfl, rfl⟩, hm⟩)
    · exact .inl hd
    · exact .inr ⟨hf, l, _, hl, rfl, hm⟩
  · rintro (hd | ⟨hf, l, memo₁, hl, rfl, hm⟩)
    · exact .inl hd
    · exact .inr ⟨hf, memo₁, ⟨l, _, hl, rfl, rfl⟩, hm⟩

theorem nestedAt_eq_error {keep : Bool} {levels : Nat} {path : List String}
    {f : LayoutFailure μ} :
    t.nestedAt keep levels path a memo = .error f ↔
      memo.find? a = none ∧ t.layoutAt keep levels path a memo = .error f := by
  unfold nestedAt
  rw [remembered_apply]
  cases memo.find? a with
  | some d => simp
  | none =>
    change ((t.layoutAt keep levels path a memo >>= fun r => _) >>= fun r => _) = _ ↔ _
    cases t.layoutAt keep levels path a memo <;> simp [bind, Except.bind, pure, StateT.pure,
      Except.pure]

theorem layoutAt_zero_ne_ok {keep : Bool} {path : List String} {r : Layout μ × Memo μ} :
    t.layoutAt keep 0 path a memo ≠ .ok r := by
  obtain ⟨l, memo₁⟩ := r
  unfold layoutAt
  rw [Ne, Layouting.bind_eq_ok]
  rintro ⟨_, _, _, h⟩
  cases h

theorem layoutAt_succ_eq_ok {keep : Bool} {levels : Nat} {path : List String} {l : Layout μ} :
    t.layoutAt keep (levels + 1) path a memo = .ok (l, memo') ↔
      checkCycle path a = .ok () ∧ checkNames a [] a.members = .ok () ∧
      t.layoutWith (t.nestedAt keep levels (path ++ [orAnonymous a.name])) a memo =
        .ok (l, memo') := by
  conv_lhs => unfold layoutAt
  simp only [Layouting.bind_eq_ok, Layouting.lift_eq_ok]
  constructor
  · rintro ⟨_, _, ⟨hc, rfl⟩, _, _, ⟨hn, rfl⟩, hl⟩
    exact ⟨hc, hn, hl⟩
  · rintro ⟨hc, hn, hl⟩
    exact ⟨_, _, ⟨hc, rfl⟩, _, _, ⟨hn, rfl⟩, hl⟩

theorem run'_eq_ok {α : Type} {x : Layouting μ α} {b : α} :
    x.run' memo = .ok b ↔ ∃ memo₁, x memo = .ok (b, memo₁) := by
  change ((·.1) <$> x memo) = _ ↔ _
  cases x memo with
  | error f => simp [Functor.map, Except.map]
  | ok r => simp [Functor.map, Except.map, Prod.ext_iff]

theorem run'_eq_error {α : Type} {x : Layouting μ α} {f : LayoutFailure μ} :
    x.run' memo = .error f ↔ x memo = .error f := by
  change ((·.1) <$> x memo) = _ ↔ _
  cases x memo <;> simp [Functor.map, Except.map]

theorem noted_eq_ok {x : Layouting μ (Layout μ)} {l : Layout μ} :
    noted x = .ok l ↔ (∃ memo', x [] = .ok (l, memo')) ∧ l.written = .ok () := by
  unfold noted
  simp only [except_bind_eq_ok, run'_eq_ok, mapError_eq_ok]
  constructor
  · rintro ⟨_, hl, _, hw, he⟩
    obtain rfl := Except.ok.inj he
    exact ⟨hl, hw⟩
  · rintro ⟨hl, hw⟩
    exact ⟨l, hl, (), hw, rfl⟩

theorem layout_eq_ok {l : Layout μ} :
    t.layout a = .ok l ↔
      (∃ memo', t.layoutAt true t.levels [] a [] = .ok (l, memo')) ∧ l.written = .ok () :=
  noted_eq_ok

theorem memberType_eq_ok {m : Member μ} {d : TypeDescriptor μ} :
    t.memberType m = .ok d ↔
      ∃ memo', t.typeWith (t.nestedAt true t.levels []) m [] = .ok (d, memo') := run'_eq_ok

theorem layout_typed {l : Layout μ} (h : t.layout a = .ok l) :
    ∃ typed : List (Member μ × TypeDescriptor μ), typed.map Prod.fst = a.members ∧
      Layout.ofTypes t.profile a typed = .ok l := by
  obtain ⟨⟨memo', hl⟩, _⟩ := layout_eq_ok.mp h
  cases hn : t.levels with
  | zero => exact absurd (hn ▸ hl) layoutAt_zero_ne_ok
  | succ levels =>
    obtain ⟨_, _, hw⟩ := layoutAt_succ_eq_ok.mp (hn ▸ hl)
    obtain ⟨typed, hm, _, hl⟩ := layoutWith_eq_ok.mp hw
    exact ⟨typed, hm, hl⟩

end Target

end AggregateLayout
