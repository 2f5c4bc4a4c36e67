import Mathlib
import AggregateLayout.Proofs.Paths
import AggregateLayout.Proofs.Refusal
import AggregateLayout.Proofs.Repacking

namespace AggregateLayout

open Layouting (Raises)

def LayoutCause.OfLayout : LayoutCause Int → Prop
  | .overlap _ _ _ _ => False
  | _ => True

def LayoutFailure.OfLayout (f : LayoutFailure Int) : Prop := ∃ e, f = .invalid e ∧ e.cause.OfLayout

section Steps

variable {p : MachineProfile Int} {packed : Bool} {a : Aggregate Int} {m : Member Int}
  {d : TypeDescriptor Int} {f : LayoutFailure Int}

theorem ofLayout_withDims (h : withDims m d = .error f) : f.OfLayout := by
  obtain ⟨_, rfl⟩ := withDims_error h
  exact ⟨_, rfl, trivial⟩

theorem ofLayout_checkBitfield {width : Int} (h : checkBitfield m width d = .error f) :
    f.OfLayout := by
  unfold checkBitfield at h
  dsimp only at h
  split at h
  · exact ⟨_, (Except.error.inj h).symm, trivial⟩
  · split at h
    · exact ⟨_, (Except.error.inj h).symm, trivial⟩
    · split at h
      · exact ⟨_, (Except.error.inj h).symm, trivial⟩
      · cases h

theorem ofLayout_add {s : PartialStruct Int} (h : s.add p packed m d = .error f) :
    f.OfLayout := by
  obtain ⟨_, _, h⟩ := PartialStruct.add_error h
  exact ofLayout_checkBitfield h

theorem ofLayout_overlay (h : overlay p m d = .error f) : f.OfLayout := by
  obtain ⟨_, _, h⟩ := overlay_error h
  exact ofLayout_checkBitfield h

theorem ofLayout_checkNames {seen : List String} {members : List (Member Int)}
    (h : checkNames a seen members = .error f) : f.OfLayout := by
  induction members generalizing seen with
  | nil => cases h
  | cons m rest ih =>
    unfold checkNames at h
    split at h
    · exact ⟨_, (Except.error.inj h).symm, trivial⟩
    · split at h
      · exact ⟨_, (Except.error.inj h).symm, trivial⟩
      · exact ih h

theorem ofLayout_checkCycle {path : List String} (h : checkCycle path a = .error f) :
    f.OfLayout := by
  obtain ⟨_, _, e, rfl, hcause⟩ := checkCycle_error h
  refine ⟨e, rfl, ?_⟩
  rw [hcause]
  trivial

end Steps

namespace Target

variable {t : Target Int} {nested : Aggregate Int → Layouting Int (TypeDescriptor Int)}
  {a : Aggregate Int} {l : Layout Int} {f : LayoutFailure Int}

theorem raises_ofLayout_layoutWith (hn : ∀ b, Raises LayoutCause.OfLayout (nested b)) :
    Raises LayoutCause.OfLayout (t.layoutWith nested a) := by
  apply raises_layoutWith
  · intro m _
    apply raises_typeWith
    · intro d f hf
      exact ofLayout_withDims hf
    · intro name _ _
      trivial
    · intro b _
      exact hn b
  · intro m _ d _ _ _ s f hf
    exact ofLayout_add hf
  · intro m _ d _ _ _ f hf
    exact ofLayout_overlay hf

theorem raises_ofLayout_layoutAt (keep : Bool) (levels : Nat) (path : List String)
    (a : Aggregate Int) : Raises LayoutCause.OfLayout (t.layoutAt keep levels path a) := by
  induction levels generalizing path a with
  | zero =>
    unfold layoutAt
    refine (Raises.lift fun _ hf => ofLayout_checkCycle hf).bind fun _ _ _ _ => ?_
    intro memo f h
    exact ⟨_, (Except.error.inj h).symm, trivial⟩
  | succ levels ih =>
    unfold layoutAt
    refine (Raises.lift fun _ hf => ofLayout_checkCycle hf).bind fun _ _ _ _ => ?_
    refine (Raises.lift fun _ hf => ofLayout_checkNames hf).bind fun _ _ _ _ => ?_
    exact raises_ofLayout_layoutWith fun b => raises_nestedAt (ih _ b)

theorem ofLayout_layout (h : t.layout a = .error f) : f.OfLayout :=
  raises_ofLayout_layoutAt true t.levels [] a [] f (noted_eq_error.mp h)

theorem ofLayout_spanFrom {root path part : String} {names : List String} {base : Int}
    (h : t.spanFrom root path a l base part names = .error f) : f.OfLayout := by
  induction names generalizing a l base part with
  | nil =>
    unfold spanFrom at h
    split at h
    · cases h
    · exact ⟨_, (Except.error.inj h).symm, trivial⟩
  | cons next others ih =>
    unfold spanFrom at h
    split at h
    · dsimp only at h
      split at h
      · exact ⟨_, (Except.error.inj h).symm, trivial⟩
      · rcases except_bind_eq_error.mp h with h | ⟨_, _, h⟩
        · exact ofLayout_layout h
        · exact ih h
    · exact ⟨_, (Except.error.inj h).symm, trivial⟩

theorem ofLayout_span {path : String} (h : t.span a l path = .error f) : f.OfLayout :=
  ofLayout_spanFrom h

end Target

section Lists

variable {ε α : Type} {f : α → Except ε Unit} {as : List α}

theorem forM_eq_ok : as.forM f = .ok () ↔ ∀ a ∈ as, f a = .ok () := by
  induction as with
  | nil => exact iff_of_true rfl fun a ha => (nomatch ha)
  | cons a rest ih =>
    change (f a >>= fun _ => rest.forM f) = _ ↔ _
    rw [except_bind_eq_ok, List.forall_mem_cons, ih]
    constructor
    · rintro ⟨_, ha, hrest⟩
      exact ⟨ha, hrest⟩
    · rintro ⟨ha, hrest⟩
      exact ⟨(), ha, hrest⟩

theorem forM_eq_error {e : ε} (h : as.forM f = .error e) :
    ∃ earlier a later, as = earlier ++ a :: later ∧ (∀ b ∈ earlier, f b = .ok ()) ∧
      f a = .error e := by
  induction as with
  | nil => cases h
  | cons a rest ih =>
    change (f a >>= fun _ => rest.forM f) = _ at h
    rcases except_bind_eq_error.mp h with h | ⟨_, ha, h⟩
    · exact ⟨[], a, rest, rfl, fun b hb => (nomatch hb), h⟩
    · obtain ⟨earlier, b, later, rfl, hearlier, hb⟩ := ih h
      exact ⟨a :: earlier, b, later, rfl, List.forall_mem_cons.mpr ⟨ha, hearlier⟩, hb⟩

end Lists

namespace Target

variable {t : Target Int} {a : Aggregate Int} {l : Layout Int} {first second : String}

/-- Both paths lead to members, and these do not clash. -/
def Passes (t : Target Int) (a : Aggregate Int) (l : Layout Int) (pair : String × String) : Prop :=
  ∃ x y, t.Locates a l (MemberPath.names pair.1) x ∧ t.Locates a l (MemberPath.names pair.2) y ∧
    ¬ x.Clash y

variable {pair : String × String}

theorem passes_of_checkPair (h : t.checkPair a l pair = .ok ()) : t.Passes a l pair := by
  obtain ⟨_, hfirst, h⟩ := except_bind_eq_ok.mp h
  obtain ⟨_, hsecond, h⟩ := except_bind_eq_ok.mp h
  obtain ⟨x, hx, rfl⟩ := span_eq_ok.mp hfirst
  obtain ⟨y, hy, rfl⟩ := span_eq_ok.mp hsecond
  rcases Placement.common?_cases x y with ⟨hclear, _⟩ | ⟨_, hcommon⟩
  · exact ⟨x, y, hx, hy, hclear⟩
  · rw [hcommon] at h
    cases h

theorem clash_of_checkPair {e : LayoutError Int} {start stop : Int}
    (h : t.checkPair a l pair = .error (.invalid e))
    (hcause : e.cause = .overlap first second start stop) :
    pair = (first, second) ∧ e.aggregate = some a.name ∧ e.member = some first ∧
      ∃ x y, t.Locates a l (MemberPath.names first) x ∧
        t.Locates a l (MemberPath.names second) y ∧ x.Clash y ∧
        start = max x.offset y.offset ∧ stop = min x.stop y.stop := by
  have different (hf : (LayoutFailure.invalid e).OfLayout) : False := by
    obtain ⟨_, ⟨⟩, hlayout⟩ := hf
    rw [hcause] at hlayout
    exact hlayout
  rcases except_bind_eq_error.mp h with h | ⟨_, hfirst, h⟩
  · exact (different (ofLayout_span h)).elim
  rcases except_bind_eq_error.mp h with h | ⟨_, hsecond, h⟩
  · exact (different (ofLayout_span h)).elim
  obtain ⟨x, hx, rfl⟩ := span_eq_ok.mp hfirst
  obtain ⟨y, hy, rfl⟩ := span_eq_ok.mp hsecond
  rcases Placement.common?_cases x y with ⟨_, hcommon⟩ | ⟨hclash, hcommon⟩
  · rw [hcommon] at h
    cases h
  · rw [hcommon] at h
    cases h
    cases hcause
    exact ⟨rfl, rfl, rfl, x, y, hx, hy, hclash, rfl, rfl⟩

theorem clash_of_checkDisjoint {e : LayoutError Int} {start stop : Int}
    (h : t.checkDisjoint a l = .error (.invalid e))
    (hcause : e.cause = .overlap first second start stop) :
    e.aggregate = some a.name ∧ e.member = some first ∧
      ∃ earlier later x y, a.disjoint = earlier ++ (first, second) :: later ∧
        (∀ pair ∈ earlier, t.Passes a l pair) ∧
        t.Locates a l (MemberPath.names first) x ∧ t.Locates a l (MemberPath.names second) y ∧
        x.Clash y ∧ start = max x.offset y.offset ∧ stop = min x.stop y.stop := by
  unfold checkDisjoint at h
  obtain ⟨earlier, pair, later, hsplit, hearlier, hpair⟩ := forM_eq_error h
  obtain ⟨rfl, haggregate, hmember, x, y, hx, hy, hclash⟩ := clash_of_checkPair hpair hcause
  refine ⟨haggregate, hmember, earlier, later, x, y, hsplit, ?_, hx, hy, hclash⟩
  intro pair hpair
  exact passes_of_checkPair (hearlier pair hpair)

end Target

theorem checkDisjoint_localizes (t : Target Int) (a : Aggregate Int) (l : Layout Int)
    (h : t.layout a = .ok l) :
    (t.checkDisjoint a l = .ok () → ∀ pair ∈ a.disjoint, ∃ x y,
      t.Locates a l (MemberPath.names pair.1) x ∧ t.Locates a l (MemberPath.names pair.2) y ∧
      ∀ bit, ¬ (x.extent.covers bit = true ∧ y.extent.covers bit = true)) ∧
    ∀ e first second start stop, t.checkDisjoint a l = .error (.invalid e) →
      e.cause = .overlap first second start stop →
      e.aggregate = some a.name ∧ e.member = some first ∧
      ∃ earlier later x y, a.disjoint = earlier ++ (first, second) :: later ∧
        (∀ pair ∈ earlier, t.Passes a l pair) ∧
        t.Locates a l (MemberPath.names first) x ∧ t.Locates a l (MemberPath.names second) y ∧
        x.Clash y ∧ ∀ byte, (start ≤ byte ∧ byte < stop) ↔ x.HasByte byte ∧ y.HasByte byte := by
  have laid := Target.lays_of_layout h
  constructor
  · intro hok pair hpair
    unfold Target.checkDisjoint at hok
    obtain ⟨x, y, hx, hy, hclear⟩ := Target.passes_of_checkPair (forM_eq_ok.mp hok pair hpair)
    exact ⟨x, y, hx, hy, (hx.inside_unit laid).apart (hy.inside_unit laid) hclear⟩
  · intro e first second start stop herror hcause
    obtain ⟨haggregate, hmember, earlier, later, x, y, hsplit, hearlier, hx, hy, hclash, hstart,
      hstop⟩ := Target.clash_of_checkDisjoint herror hcause
    refine ⟨haggregate, hmember, earlier, later, x, y, hsplit, hearlier, hx, hy, hclash, ?_⟩
    intro byte
    unfold Placement.HasByte
    omega

def lowBits : Aggregate Int where
  name := ""
  members := [{ name := "a", type := .descriptor (integer .four), bits := some 4 }]

def highBits : Aggregate Int where
  name := ""
  members :=
    [{ name := "skip", type := .descriptor (integer .four), bits := some 4 },
      { name := "b", type := .descriptor (integer .four), bits := some 4 }]

def registers : Aggregate Int where
  name := "registers"
  kind := .union
  members :=
    [{ name := "low", type := .inline lowBits }, { name := "high", type := .inline highBits }]
  disjoint := [("low.a", "high.b"), ("low.a", "high.skip")]

theorem checkDisjoint_localizes_registers :
    ∃ l e, (Target.ofProfile .lp64).layout registers = .ok l ∧
      (Target.ofProfile .lp64).checkDisjoint registers l = .error (.invalid e) ∧
      e.cause = .overlap "low.a" "high.skip" 0 4 ∧ e.member = some "low.a" ∧
      (∃ x y, (Target.ofProfile .lp64).Locates registers l ["low", "a"] x ∧
        (Target.ofProfile .lp64).Locates registers l ["high", "skip"] y ∧
        ∀ byte, (0 ≤ byte ∧ byte < 4) ↔ x.HasByte byte ∧ y.HasByte byte) := by
  refine ⟨_, _, rfl, rfl, rfl, ?_⟩
  obtain ⟨_, hmember, _, _, x, y, _, _, hx, hy, _, hbytes⟩ :=
    (checkDisjoint_localizes (.ofProfile .lp64) registers _ rfl).2 _ _ _ _ _ rfl rfl
  exact ⟨hmember, x, y, hx, hy, hbytes⟩

end AggregateLayout
