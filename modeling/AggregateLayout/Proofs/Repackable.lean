import Mathlib
import AggregateLayout.Proofs.Infallible
import AggregateLayout.Proofs.IntegerPackings
import AggregateLayout.Proofs.Repacking

/-!
When packing fails. It asks for the types of the members one by one and for layouts of other orders.
All of these are there where a layout that remembers nothing is. A layout that remembers does not
meet every chain of nested aggregates, and another order can come to one that it passed over. It can
also come to a number that has too many digits to be written.
-/

namespace AggregateLayout

open Relation (ReflTransGen)

namespace Target

section Failing

variable {μ : Type} [Measure μ] {t : Target μ} {rules : PackingRules} {a : Aggregate μ}
  {units : List (PackingUnit μ)} {s : Arrangement μ} {f : LayoutFailure μ}

theorem units_eq_error (h : t.units rules a = .error f) :
    ∃ m ∈ a.members, t.memberType m = .error f := by
  obtain ⟨x, hx, _, _, h⟩ :=
    foldlM_eq_error (P := fun _ => True) (fun _ _ _ _ _ => trivial) trivial h
  rcases except_bind_eq_error.mp h with h | ⟨d, _, h⟩
  · exact ⟨x.1, List.fst_mem_of_mem_zipIdx hx, h⟩
  · cases h

def FailsReordered (t : Target μ) (a : Aggregate μ) (f : LayoutFailure μ) : Prop :=
  ∃ ms : List (Member μ), ms.Perm a.members ∧ t.layout { a with members := ms } = .error f

theorem arrange_eq_error (hunits : (units.flatMap (·.members)).Perm a.members)
    (h : t.arrange a units = .error f) : t.FailsReordered a f := by
  rcases except_bind_eq_error.mp h with h | ⟨l, _, h⟩
  · exact ⟨_, hunits, h⟩
  · cases h

theorem exchange_eq_error {n : Nat} (hs : s.Of t a) (h : t.exchange s n = .error f) :
    t.FailsReordered a f := by
  have hperm : ((swapAt n s.units).flatMap (·.members)).Perm a.members :=
    ((swapAt_perm n s.units).flatMap_right _).trans hs.complete
  have hsame : t.arrange s.aggregate (swapAt n s.units) = t.arrange a (swapAt n s.units) := by
    rw [hs.ordered]
    rfl
  unfold exchange at h
  split at h
  · split at h
    · cases h
    · rcases except_bind_eq_error.mp h with h | ⟨trial, _, h⟩
      · exact arrange_eq_error hperm (hsame ▸ h)
      · split at h <;> cases h
  · cases h

theorem settle_eq_error {passes : Nat} (hs : s.Of t a) (h : t.settle passes s = .error f) :
    t.FailsReordered a f := by
  induction passes generalizing s with
  | zero => cases h
  | succ passes ih =>
    have step (n : Nat) (s s' : Arrangement μ) (hs : s.Of t a) (h : t.exchange s n = .ok s') :
        s'.Of t a := exchange_of hs h
    unfold settle at h
    split at h
    · cases h
    · rcases except_bind_eq_error.mp h with h | ⟨next, hnext, h⟩
      · obtain ⟨n, _, s', hs', h⟩ := foldlM_eq_error step hs h
        exact exchange_eq_error hs' h
      · split at h
        · exact ih (foldlM_invariant step hs hnext) h
        · cases h

theorem pack_eq_error (h : t.pack rules a = .error f) :
    (∃ m ∈ a.members, t.memberType m = .error f) ∨ t.FailsReordered a f := by
  rcases except_bind_eq_error.mp h with h | ⟨units, hunits, h⟩
  · exact .inl (units_eq_error h)
  · have complete := ((PackingUnit.sort_perm rules units).flatMap_right _).trans (units_perm hunits)
    rcases except_bind_eq_error.mp h with h | ⟨sorted, hsorted, h⟩
    · exact .inr (arrange_eq_error complete h)
    · split at h
      · exact .inr (settle_eq_error (arrange_of complete hsorted) h)
      · cases h

theorem repack_eq_error (h : t.repack rules a = .error f) :
    (∃ m ∈ a.members, t.memberType m = .error f) ∨ t.FailsReordered a f := by
  rcases except_bind_eq_error.mp h with h | ⟨l, _, h⟩
  · exact .inr ⟨a.members, .refl _, by cases a; exact h⟩
  · split at h
    · cases h
    · rcases except_bind_eq_error.mp h with h | ⟨best, _, h⟩
      · exact pack_eq_error h
      · split at h <;> cases h

end Failing

section Integers

variable {t : Target Int} {a : Aggregate Int} {l : Layout Int} {f : LayoutFailure Int}

theorem sound_of_layout (hl : t.layout a = .ok l) (b : Aggregate Int)
    (hb : ReflTransGen t.Nests a b) : t.Sound b :=
  (lays_of_layout hl).sound_below hb

theorem memberType_fault (hl : t.layout a = .ok l) {m : Member Int} (hm : m ∈ a.members)
    (h : t.memberType m = .error f) :
    ∃ e, f = .invalid e ∧ e.cause.OfChain ∧ t.Faulty t.levels [] a := by
  have hsound := sound_of_layout hl
  obtain ⟨e, rfl, ⟨hnot, _⟩ | ⟨b, hb, hfault⟩⟩ := raises_inside_typeWith hm
    (fun b _ => raises_nestedAt (raises_layoutAt true t.levels [] b)) [] f (run'_eq_error.mp h)
  · exact absurd (hsound a .refl) hnot
  · refine ⟨e, rfl, hfault.ofChain fun c hc => hsound c (.head hb hc), ?_⟩
    obtain ⟨⟨memo, hl⟩, _⟩ := layout_eq_ok.mp hl
    -- A member is asked for with all levels and no path, which is no less than it has inside.
    cases hn : t.levels with
    | zero => exact absurd (hn ▸ hl) layoutAt_zero_ne_ok
    | succ levels =>
      rw [hn] at hfault
      exact faulty_of_nests hb (hfault.mono levels.le_succ (List.nil_subset _))

theorem reordered_fault (hl : t.layout a = .ok l) (h : t.FailsReordered a f) :
    ∃ e, f = .invalid e ∧ e.cause.OfChain ∧ t.Faulty t.levels [] a := by
  obtain ⟨ms, hp, h⟩ := h
  obtain ⟨e, rfl, hfault⟩ := layout_fault h
  have hfault := hfault.perm hp
  exact ⟨e, rfl, hfault.ofChain (sound_of_layout hl), _, hfault⟩

theorem Faulty.layoutAfresh (h : t.Faulty t.levels [] a) (hl : t.layout a = .ok l) :
    ∃ e, t.layoutAfresh a = .error (.invalid e) ∧ e.cause.OfChain := by
  obtain ⟨cause, hfault⟩ := h
  cases hfresh : t.layoutAfresh a with
  | ok l' =>
    obtain ⟨memo, hl'⟩ := (noted_eq_ok.mp hfresh).1
    exact absurd hl' hfault.not_layoutAt_afresh
  | error f =>
    obtain ⟨e, rfl, hfault⟩ := layoutAfresh_fault hfresh
    exact ⟨e, rfl, hfault.ofChain (sound_of_layout hl)⟩

end Integers

variable {t : Target Quantity} {rules : PackingRules} {a : Aggregate Quantity}
  {l : Layout Quantity} {m : Member Quantity} {ms : List (Member Quantity)}
  {e : LayoutError Quantity} {fault : NumberFault}

/-- A number that is too long comes up with a member that is looked at by itself, or in some order
of the members. -/
inductive FailsOnDigits (t : Target Quantity) (a : Aggregate Quantity) : Prop
  | member {b : Aggregate Quantity} {n : Quantity} (hb : t.Nests a b)
    (hn : t.Writes t.levels [] [] b n) (hlong : n.IsTooLong) : FailsOnDigits t a
  | reordered {ms : List (Member Quantity)} {n : Quantity} (hms : ms.Perm a.members)
    (hn : t.Notes { a with members := ms } n) (hlong : n.IsTooLong) : FailsOnDigits t a

theorem memberType_number (ht : t.IsWhole) (ha : a.IsWhole) (hm : m ∈ a.members)
    (h : t.memberType m = .error (.number fault)) : fault = .tooManyDigits ∧ t.FailsOnDigits a := by
  have hkeeps := keepsWhole_nestedAt ht.catalog true t.levels []
  obtain ⟨b, hb, hfails⟩ := (hkeeps.typeWith_number ht.catalog (ha.member hm)
    Memo.isWhole_nil).mp (run'_eq_error.mp h)
  have hnests : t.Nests a b := ⟨m, hm, hb⟩
  have hwhole := isWhole_nests ht.catalog ha hnests
  obtain ⟨_, hfails⟩ := nestedAt_eq_error.mp hfails
  obtain ⟨rfl, n, hn, hlong⟩ := (layoutAt_number ht hwhole Memo.isWhole_nil).mp hfails
  exact ⟨rfl, .member hnests hn hlong⟩

theorem reordered_number (ht : t.IsWhole) (ha : a.IsWhole)
    (h : t.FailsReordered a (.number fault)) : fault = .tooManyDigits ∧ t.FailsOnDigits a := by
  obtain ⟨ms, hms, h⟩ := h
  obtain ⟨rfl, n, hn, hlong⟩ := (layout_number ht (isWhole_of_members ha hms.subset)).mp h
  exact ⟨rfl, .reordered hms hn hlong⟩

theorem integer_error {α β : Type} {R : α → β → Prop} {x : Except (LayoutFailure Quantity) α}
    {y : Except (LayoutFailure Int) β} (hxy : digits.Abreast R x y) (hx : x = .error (.invalid e)) :
    ∃ e', y = .error (.invalid e') ∧ (e.cause.OfChain ↔ e'.cause.OfChain) := by
  subst hx
  cases hxy with
  | left hf => cases hf
  | right hg => exact hg.elim
  | both hfg =>
    cases hfg with
    | invalid h => exact ⟨_, rfl, h.ofChain_iff⟩

theorem repack_fault (ht : t.IsWhole) (ha : a.IsWhole) (hl : t.layout a = .ok l)
    (h : t.repack rules a = .error (.invalid e)) :
    e.cause.OfChain ∧ ∃ e', t.integral.layoutAfresh a.integral = .error (.invalid e') ∧
      e'.cause.OfChain := by
  obtain ⟨l', hl', _⟩ := exists_integral_layout ht ha hl
  obtain ⟨e', he', hchain⟩ :=
    integer_error (abreast_repack ht ha (shortBelow_of_layout ht.catalog ha hl) rules) h
  rw [hchain]
  rcases repack_eq_error he' with ⟨m, hm, h⟩ | h
  · obtain ⟨_, ⟨⟩, hcause, hfault⟩ := memberType_fault hl' hm h
    exact ⟨hcause, hfault.layoutAfresh hl'⟩
  · obtain ⟨_, ⟨⟩, hcause, hfault⟩ := reordered_fault hl' h
    exact ⟨hcause, hfault.layoutAfresh hl'⟩

theorem layoutAfresh_fault_of_integral (ht : t.IsWhole) (ha : a.IsWhole) (hshort : t.ShortBelow a)
    {e' : LayoutError Int} (h : t.integral.layoutAfresh a.integral = .error (.invalid e'))
    (hcause : e'.cause.OfChain) :
    (∃ e, t.layoutAfresh a = .error (.invalid e) ∧ e.cause.OfChain) ∨
      t.layoutAfresh a = .error (.number .tooManyDigits) := by
  have habreast := abreast_layoutAfresh ht ha hshort
  rw [h] at habreast
  generalize t.layoutAfresh a = x at habreast
  cases habreast with
  | left hf => exact .inr (congrArg Except.error hf)
  | right hg => exact hg.elim
  | both hfg =>
    cases hfg with
    | invalid hstands => exact .inl ⟨_, rfl, hstands.ofChain_iff.mpr hcause⟩

end Target

/-- What has a layout can be packed, unless a chain of nested aggregates is too long or closed where
it is met from the outside, or a number comes up that has too many digits. In the first case there
is no layout either that remembers nothing. -/
theorem repack_returns (t : Target Quantity) (rules : PackingRules) (a : Aggregate Quantity)
    (l : Layout Quantity) (ht : t.IsWhole) (ha : a.IsWhole) (h : t.layout a = .ok l) :
    (∃ r, t.repack rules a = .ok r) ∨
      (∃ e, t.repack rules a = .error (.invalid e) ∧ e.cause.OfChain ∧
        ((∃ e', t.layoutAfresh a = .error (.invalid e') ∧ e'.cause.OfChain) ∨
          t.layoutAfresh a = .error (.number .tooManyDigits))) ∨
      t.repack rules a = .error (.number .tooManyDigits) ∧ t.FailsOnDigits a := by
  cases hr : t.repack rules a with
  | ok r => exact .inl ⟨r, rfl⟩
  | error f =>
    right
    cases f with
    | invalid e =>
      obtain ⟨hcause, e', hfresh, hcause'⟩ := Target.repack_fault ht ha h hr
      have hshort := Target.shortBelow_of_layout ht.catalog ha h
      exact .inl ⟨e, rfl, hcause,
        Target.layoutAfresh_fault_of_integral ht ha hshort hfresh hcause'⟩
    | number fault =>
      right
      rcases Target.repack_eq_error hr with ⟨m, hm, hfails⟩ | hfails
      · obtain ⟨rfl, hdigits⟩ := Target.memberType_number ht ha hm hfails
        exact ⟨rfl, hdigits⟩
      · obtain ⟨rfl, hdigits⟩ := Target.reordered_number ht ha hfails
        exact ⟨rfl, hdigits⟩

def spot : Aggregate Quantity where
  name := "spot"
  members := [{ name := "c", type := .descriptor byte }]

def spotted : Aggregate Quantity where
  name := "spotted"
  members :=
    [{ name := "word", type := .descriptor (.basic "u64" (.of (.whole 8)) .eight .scalar true) },
      { name := "spot", type := .inline spot }]

def spotFirst : Aggregate Quantity where
  name := "outer"
  members :=
    [{ name := "first", type := .inline spot }, { name := "second", type := .inline spotted }]

theorem isWhole_spot : spot.IsWhole :=
  .mk (List.forall_mem_singleton.mpr
    (.mk (.descriptor (Quantity.isWhole_whole 1)) nofun nofun))

theorem repack_returns_spot : (Target.ofProfile .lp64).IsWhole ∧ spot.IsWhole ∧
    (∃ l, (Target.ofProfile .lp64).layout spot = .ok l) ∧
    ∃ r, (Target.ofProfile .lp64).repack {} spot = .ok r := by
  have htarget : (Target.ofProfile .lp64).IsWhole := Target.isWhole_ofProfile ⟨16, rfl⟩
  obtain ⟨l, hl⟩ : ∃ l, (Target.ofProfile .lp64).layout spot = .ok l := by decide +kernel
  obtain ⟨fresh, hfresh⟩ : ∃ l, (Target.ofProfile .lp64).layoutAfresh spot = .ok l := by
    decide +kernel
  refine ⟨htarget, isWhole_spot, ⟨l, hl⟩, ?_⟩
  rcases repack_returns _ {} _ l htarget isWhole_spot hl with
    hr | ⟨_, _, _, ⟨_, h, _⟩ | h⟩ | ⟨_, hdigits⟩
  · exact hr
  · cases hfresh.symm.trans h
  · cases hfresh.symm.trans h
  · cases hdigits with
    | member hb _ _ =>
      obtain ⟨m, hm, hb⟩ := hb
      cases List.mem_singleton.mp hm
      cases hb
    | reordered hms hn hlong =>
      cases List.perm_singleton.mp hms
      have hfails := (Target.layout_number htarget isWhole_spot).mpr ⟨rfl, _, hn, hlong⟩
      cases hl.symm.trans hfails

def twoDeep : Target Quantity := { Target.ofProfile .lp64 with maxDepth := .whole 2 }

def spotUnit : PackingUnit Quantity :=
  { members := spotFirst.members.take 1, alignment := .one, position := 0 }

def spottedUnit : PackingUnit Quantity :=
  { members := spotFirst.members.drop 1, alignment := .eight, position := 1 }

theorem units_spotFirst : twoDeep.units {} spotFirst = .ok [spotUnit, spottedUnit] := by
  obtain ⟨d, hd, hone⟩ : ∃ d, twoDeep.memberType { name := "first", type := .inline spot } = .ok d ∧
      d.alignment = .one := by decide +kernel
  obtain ⟨d', hd', height⟩ : ∃ d,
      twoDeep.memberType { name := "second", type := .inline spotted } = .ok d ∧
        d.alignment = .eight := by decide +kernel
  simp only [Target.units, spotFirst, List.zipIdx_cons, List.zipIdx_nil, List.foldlM_cons,
    List.foldlM_nil, hd, hd']
  change Except.ok [{ spotUnit with alignment := d.alignment },
    { spottedUnit with alignment := d'.alignment }] = _
  rw [hone, height]
  rfl

theorem sort_spotFirst :
    PackingUnit.sort {} [spotUnit, spottedUnit] = [spottedUnit, spotUnit] := by
  simp [PackingUnit.sort, List.mergeSort, PackingUnit.precedes, spotUnit, spottedUnit,
    PowerOfTwo.one, PowerOfTwo.eight]

def deepLevels? {α : Type} : Except (LayoutFailure Quantity) α → Option Int
  | .error (.invalid { cause := .invalidMember (.tooDeep (.whole n)), .. }) => some n
  | _ => none

theorem exists_tooDeep {α : Type} {x : Except (LayoutFailure Quantity) α} {n : Int}
    (h : deepLevels? x = some n) :
    ∃ e, x = .error (.invalid e) ∧ e.cause = .invalidMember (.tooDeep (.whole n)) := by
  unfold deepLevels? at h
  split at h
  · cases h
    exact ⟨_, rfl, rfl⟩
  · cases h

theorem arrange_spotFirst :
    ∃ e, twoDeep.arrange spotFirst [spottedUnit, spotUnit] = .error (.invalid e) ∧
      e.cause = .invalidMember (.tooDeep (.whole 2)) := by
  have hdeep : deepLevels? (twoDeep.arrange spotFirst [spottedUnit, spotUnit]) = some 2 := by
    decide +kernel
  exact exists_tooDeep hdeep

theorem repack_fails_spotFirst : ∃ l e, twoDeep.layout spotFirst = .ok l ∧
    twoDeep.repack {} spotFirst = .error (.invalid e) ∧
    e.cause = .invalidMember (.tooDeep (.whole 2)) := by
  obtain ⟨l, hl⟩ : ∃ l, twoDeep.layout spotFirst = .ok l := by decide +kernel
  obtain ⟨e, he, hcause⟩ := arrange_spotFirst
  have packed : twoDeep.pack {} spotFirst = .error (.invalid e) := by
    refine except_bind_eq_error.mpr (.inr ⟨_, units_spotFirst, except_bind_eq_error.mpr (.inl ?_)⟩)
    rw [sort_spotFirst]
    exact he
  refine ⟨l, e, hl, except_bind_eq_error.mpr (.inr ⟨l, hl, ?_⟩), hcause⟩
  exact except_bind_eq_error.mpr (.inl packed)

end AggregateLayout
