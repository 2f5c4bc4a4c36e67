import Mathlib
import AggregateLayout.Batch
import AggregateLayout.Proofs.Separation

/-!
The check of the assertions once the members are in another order. A path then leads nowhere for the
same reason as before, or it leads to the same bytes of its first member, which is in another place
but is the same inside. So two paths that part at once clash in neither order, and two paths into
one member clash in both orders or in none.
-/

namespace AggregateLayout

namespace Aggregate

variable {μ : Type} [Measure μ] {a b : Aggregate μ} {m : Member μ} {name : String}

theorem member?_eq_some (hnames : a.memberNames.Nodup) :
    a.member? name = some m ↔ m ∈ a.members ∧ m.name = name := by
  constructor
  · intro h
    exact ⟨List.mem_of_find?_eq_some h, by simpa using List.find?_some h⟩
  · rintro ⟨hm, rfl⟩
    cases h : a.member? m.name with
    | none =>
      have := List.find?_eq_none.mp h m hm
      exact absurd (beq_self_eq_true m.name) this
    | some n =>
      have hname : n.name = m.name := by simpa using List.find?_some h
      rw [List.inj_on_of_nodup_map hnames (List.mem_of_find?_eq_some h) hm hname]

theorem member?_perm (perm : b.members.Perm a.members) (hnames : a.memberNames.Nodup)
    (name : String) : b.member? name = a.member? name := by
  have hnames' : b.memberNames.Nodup := (perm.map _).nodup_iff.mpr hnames
  ext m
  rw [member?_eq_some hnames, member?_eq_some hnames', perm.mem_iff]

end Aggregate

namespace Placement

variable {q x y x' y' : Placement Int}

theorem clash_iff_common? : x.Clash y ↔ x.span.common? y.span ≠ none := by
  rcases common?_cases x y with ⟨hclear, hcommon⟩ | ⟨hclash, hcommon⟩
  · exact iff_of_false hclear (not_not_intro hcommon)
  · refine iff_of_true hclash ?_
    rw [hcommon]
    exact Option.some_ne_none _

theorem clash_congr (hx : x.span = x'.span) (hy : y.span = y'.span) :
    x.Clash y ↔ x'.Clash y' := by
  rw [clash_iff_common?, clash_iff_common?, hx, hy]

theorem clash_shift (base : Int) : (x.shift base).Clash (y.shift base) ↔ x.Clash y := by
  have units : (x.shift base).SameUnit (y.shift base) ↔ x.SameUnit y := by
    constructor
    · intro h
      exact ⟨h.left, h.right, add_left_cancel h.offset, h.size⟩
    · intro h
      exact ⟨h.left, h.right, congrArg (base + ·) h.offset, h.size⟩
  have bits : (x.shift base).extent.Apart (y.shift base).extent ↔ x.extent.Apart y.extent := by
    rw [Extent.apart_iff, Extent.apart_iff, extent_shift, extent_shift]
    dsimp only
    omega
  rw [clash_iff, clash_iff, units, bits]
  unfold stop
  dsimp only [shift]
  refine and_congr_left fun _ => ?_
  omega

theorem clash_self : q.Clash q ↔
    0 < q.size.val ∧ ∀ width, q.bits.map (·.width) = some width → 0 < width := by
  rw [clash_iff, max_self, min_self]
  cases hbits : q.bits with
  | none =>
    have single : ¬ q.SameUnit q := by
      intro h
      have := h.left
      rw [hbits] at this
      cases this
    simp [single, stop]
  | some bits =>
    rw [sameUnit_apart_iff hbits hbits, max_self, min_self]
    simp [stop]

end Placement

namespace Target

section Starts

variable {μ : Type} [Measure μ] {t : Target μ} {a b : Aggregate μ} {l l' : Layout μ}
  {f : LayoutFailure μ} {root path part : String} {base : μ} {names : List String}

theorem spanFrom_error_from (h : t.spanFrom root path a l base part names = .error f)
    (base' : μ) : t.spanFrom root path a l base' part names = .error f := by
  induction names generalizing a l base base' part with
  | nil =>
    unfold spanFrom at h ⊢
    split at h
    · cases h
    · exact h
  | cons next others ih =>
    unfold spanFrom at h ⊢
    split at h
    · dsimp only at h ⊢
      split at h
      · exact h
      · rcases except_bind_eq_error.mp h with hinner | ⟨inner, hinner, h⟩
        · exact except_bind_eq_error.mpr (.inl hinner)
        · exact except_bind_eq_error.mpr (.inr ⟨inner, hinner, ih h _⟩)
    · exact h

/-- Why a path leads nowhere depends on the members, not on where they are. -/
theorem spanFrom_error_of_members (hmember : ∀ name, b.member? name = a.member? name)
    (hplaced : ∀ name m, a.member? name = some m →
      ∃ q q', l.placement? name = some q ∧ l'.placement? name = some q')
    (h : t.spanFrom root path a l base part names = .error f) :
    t.spanFrom root path b l' base part names = .error f := by
  unfold spanFrom at h ⊢
  rw [hmember]
  cases hm : a.member? part with
  | none =>
    rw [hm] at h
    exact h
  | some m =>
    obtain ⟨q, q', hq, hq'⟩ := hplaced part m hm
    rw [hm, hq] at h
    rw [hq']
    cases names with
    | nil => cases h
    | cons next others =>
      dsimp only at h ⊢
      split at h
      · exact h
      · rcases except_bind_eq_error.mp h with hinner | ⟨inner, hinner, h⟩
        · exact except_bind_eq_error.mpr (.inl hinner)
        · exact except_bind_eq_error.mpr (.inr ⟨inner, hinner, spanFrom_error_from h _⟩)

end Starts

variable {t : Target Int} {a b : Aggregate Int} {l l' : Layout Int} {name x y : String}
  {names xs ys : List String} {q q' u u' v v' : Placement Int} {f : LayoutFailure Int}

theorem Lays.placement_names (h : t.Lays a l) : l.placements.map (·.name) = a.memberNames := by
  obtain ⟨_, typed, hmembers, _, hl⟩ := h
  unfold Aggregate.memberNames
  rw [← hmembers, List.map_map, ← List.forall₂_eq_eq_eq, List.forall₂_map_left_iff,
    List.forall₂_map_right_iff]
  exact (Layout.holds_ofTypes hl).flip.imp fun _ _ hold => hold.name

theorem Lays.exists_placement (h : t.Lays a l) {m : Member Int} (hm : a.member? name = some m) :
    ∃ q, l.placement? name = some q := by
  have named : name ∈ l.placements.map (·.name) := by
    rw [h.placement_names]
    have hname : m.name = name := by simpa using List.find?_some hm
    exact hname ▸ List.mem_map_of_mem (List.mem_of_find?_eq_some hm)
  obtain ⟨q, hq, hname⟩ := List.mem_map.mp named
  rw [← Option.isSome_iff_exists, Layout.placement?, List.find?_isSome]
  exact ⟨q, hq, beq_iff_eq.mpr hname⟩

theorem Locates.span_shift_unique (h : t.Locates a l names u) (h' : t.Locates a l names v)
    (base : Int) : (u.shift base).span = (v.shift base).span := by
  cases names with
  | nil => cases h
  | cons name names =>
    have hu : t.spanFrom "" "" a l base name names = .ok (u.shift base).span :=
      spanFrom_eq_ok.mpr ⟨u, h, rfl⟩
    have hv : t.spanFrom "" "" a l base name names = .ok (v.shift base).span :=
      spanFrom_eq_ok.mpr ⟨v, h', rfl⟩
    exact Except.ok.inj (hu.symm.trans hv)

structure Reordered (t : Target Int) (a : Aggregate Int) (l : Layout Int) (b : Aggregate Int)
    (l' : Layout Int) : Prop where
  name : b.name = a.name
  struct : a.kind = .struct ∧ b.kind = .struct
  perm : b.members.Perm a.members
  lays : t.Lays a l ∧ t.Lays b l'

namespace Reordered

theorem symm (h : t.Reordered a l b l') : t.Reordered b l' a l :=
  ⟨h.name.symm, h.struct.symm, h.perm.symm, h.lays.symm⟩

theorem member? (h : t.Reordered a l b l') (name : String) : b.member? name = a.member? name :=
  Aggregate.member?_perm h.perm (checkNames_nil_eq_ok.mp h.lays.1.1).2 name

theorem holds (h : t.Reordered a l b l') {m : Member Int} (hm : a.member? name = some m) :
    ∃ q q', l.placement? name = some q ∧ l'.placement? name = some q' ∧ q'.size = q.size ∧
      q'.bits.map (·.width) = q.bits.map (·.width) := by
  have hm' : b.member? name = some m := (h.member? name).trans hm
  obtain ⟨q, hq⟩ := h.lays.1.exists_placement hm
  obtain ⟨q', hq'⟩ := h.lays.2.exists_placement hm'
  obtain ⟨d, hd, hold⟩ := h.lays.1.holds hm hq
  obtain ⟨d', hd', hold'⟩ := h.lays.2.holds hm' hq'
  have same : d'.plain = d.plain := hd'.unique hd
  refine ⟨q, q', hq, hq', ?_, hold'.width.trans hold.width.symm⟩
  rw [hold.size, hold'.size, TypeDescriptor.size_of_plain_eq same]

theorem spanFrom_eq_error (h : t.Reordered a l b l') {root path first : String} {base : Int}
    (hspan : t.spanFrom root path a l base first names = .error f) :
    t.spanFrom root path b l' base first names = .error f := by
  refine spanFrom_error_of_members h.member? (fun name m hm => ?_) hspan
  obtain ⟨q, q', hq, hq', _⟩ := h.holds hm
  exact ⟨q, q', hq, hq'⟩

theorem span_eq_error (h : t.Reordered a l b l') {path : String} :
    t.span a l path = .error f ↔ t.span b l' path = .error f := by
  change t.spanFrom a.name path a l 0 _ _ = _ ↔ t.spanFrom b.name path b l' 0 _ _ = _
  rw [h.name]
  exact ⟨h.spanFrom_eq_error, h.symm.spanFrom_eq_error⟩

end Reordered

theorem Locates.exists_member (h : t.Locates a l (name :: names) u) :
    ∃ m, a.member? name = some m := by
  cases h with
  | member hm _ => exact ⟨_, hm⟩
  | inside hm _ _ _ _ => exact ⟨_, hm⟩

theorem Reordered.span_moved (h : t.Reordered a l b l') (hu : t.Locates a l (name :: names) u)
    (hu' : t.Locates b l' (name :: names) u') (hq : l.placement? name = some q)
    (hq' : l'.placement? name = some q') (hsize : q'.size = q.size) (hbits : q.bits = none)
    (hbits' : q'.bits = none) : u'.span = (u.shift (q'.offset - q.offset)).span := by
  have back : q'.offset - q.offset + q.offset = q'.offset := by omega
  cases hu with
  | member hm hr =>
    obtain rfl := Option.some.inj (hq.symm.trans hr)
    cases hu' with
    | member _ hr' =>
      obtain rfl := Option.some.inj (hq'.symm.trans hr')
      unfold Placement.span Placement.shift
      rw [back, hsize, hbits, hbits']
    | inside _ _ _ _ hrest => cases hrest
  | inside hm hr hb hinner hrest =>
    obtain rfl := Option.some.inj (hq.symm.trans hr)
    cases hu' with
    | member => cases hrest
    | inside hm' hr' hb' hinner' hrest' =>
      obtain rfl := Option.some.inj (hq'.symm.trans hr')
      obtain rfl := Option.some.inj (((h.member? name).symm.trans hm').symm.trans hm)
      obtain rfl := Option.some.inj (hb'.symm.trans hb)
      obtain rfl := Except.ok.inj (hinner'.symm.trans hinner)
      rw [Placement.shift_shift, back]
      exact hrest'.span_shift_unique hrest _

theorem Reordered.clash_iff (h : t.Reordered a l b l') (hfree : t.catalog.StarFree)
    (hu : t.Locates a l (x :: xs) u) (hv : t.Locates a l (y :: ys) v)
    (hu' : t.Locates b l' (x :: xs) u') (hv' : t.Locates b l' (y :: ys) v') :
    u'.Clash v' ↔ u.Clash v := by
  by_cases hxy : x = y
  · subst hxy
    obtain ⟨m, hm⟩ := hu.exists_member
    obtain ⟨q, q', hq, hq', hsize, hwidth⟩ := h.holds hm
    cases hbits : q.bits with
    | none =>
      -- Both paths move with the member.
      have hbits' : q'.bits = none := by
        rw [hbits] at hwidth
        exact Option.map_eq_none_iff.mp hwidth
      have first := h.span_moved hu hu' hq hq' hsize hbits hbits'
      have second := h.span_moved hv hv' hq hq' hsize hbits hbits'
      rw [Placement.clash_congr first second, Placement.clash_shift]
    | some bits =>
      -- A bitfield has nothing inside, so that both paths end with it.
      have ends {r : Placement Int} {names : List String} (hr : t.Locates a l (x :: names) r) :
          r = q := by
        obtain ⟨_, hplace, _, _, hlast⟩ := hr.component hfree h.lays.1
        obtain rfl := Option.some.inj (hq.symm.trans hplace)
        exact hlast (by rw [hbits]; rfl)
      have ends' {r : Placement Int} {names : List String} (hr : t.Locates b l' (x :: names) r) :
          r = q' := by
        obtain ⟨_, hplace, _, _, hlast⟩ := hr.component hfree h.lays.2
        obtain rfl := Option.some.inj (hq'.symm.trans hplace)
        have hsome := congrArg Option.isSome hwidth
        rw [Option.isSome_map, Option.isSome_map, hbits] at hsome
        exact hlast hsome
      rw [ends hu, ends hv, ends' hu', ends' hv', Placement.clash_self, Placement.clash_self, hsize,
        hwidth]
  · -- Two members of a struct clash in no order.
    have before := hu.beside hv hxy hfree h.lays.1 h.struct.1
    have after := hu'.beside hv' hxy hfree h.lays.2 h.struct.2
    exact iff_of_false after.not_clash before.not_clash

/-- What is said of a pair in both orders: nothing, or errors of one kind and of the same place. -/
def Alike {μ : Type} [Measure μ] (x y : Except (LayoutFailure μ) Unit) : Prop :=
  (x = .ok () ∧ y = .ok ()) ∨ ∃ e e', x = .error (.invalid e) ∧ y = .error (.invalid e') ∧
    e'.kind = e.kind ∧ e'.aggregate = e.aggregate ∧ e'.member = e.member

theorem Alike.ok_iff {μ : Type} [Measure μ] {x y : Except (LayoutFailure μ) Unit}
    (h : Alike x y) : x = .ok () ↔ y = .ok () := by
  rcases h with ⟨rfl, rfl⟩ | ⟨_, _, rfl, rfl, _⟩
  · exact iff_of_true rfl rfl
  · exact iff_of_false nofun nofun

theorem Alike.of_layout (hf : f.OfLayout) : Alike (.error f) (.error f) := by
  obtain ⟨e, rfl, _⟩ := hf
  exact .inr ⟨e, e, rfl, rfl, rfl, rfl, rfl⟩

theorem report_alike (ha : b.name = a.name) (hclash : u'.Clash v' ↔ u.Clash v)
    (pair : String × String) :
    Alike (report a pair (u.span.common? v.span)) (report b pair (u'.span.common? v'.span)) := by
  rcases Placement.common?_cases u v with ⟨hclear, before⟩ | ⟨hshared, before⟩ <;>
    rcases Placement.common?_cases u' v' with ⟨hclear', after⟩ | ⟨hshared', after⟩ <;>
    rw [before, after]
  · exact .inl ⟨rfl, rfl⟩
  · exact absurd (hclash.mp hshared') hclear
  · exact absurd (hclash.mpr hshared) hclear'
  · exact .inr ⟨_, _, rfl, rfl, rfl, congrArg some ha, rfl⟩

theorem Reordered.span_cases (h : t.Reordered a l b l') (path : String) :
    (∃ f, f.OfLayout ∧ t.span a l path = .error f ∧ t.span b l' path = .error f) ∨
      ∃ u u', t.Locates a l (MemberPath.names path) u ∧
        t.Locates b l' (MemberPath.names path) u' ∧ t.span a l path = .ok u.span ∧
        t.span b l' path = .ok u'.span := by
  cases hspan : t.span a l path with
  | error f => exact .inl ⟨f, ofLayout_span hspan, rfl, h.span_eq_error.mp hspan⟩
  | ok s =>
    cases hspan' : t.span b l' path with
    | error f => exact (nomatch hspan.symm.trans (h.span_eq_error.mpr hspan'))
    | ok s' =>
      obtain ⟨u, hu, rfl⟩ := span_eq_ok.mp hspan
      obtain ⟨u', hu', rfl⟩ := span_eq_ok.mp hspan'
      exact .inr ⟨u, u', hu, hu', rfl, rfl⟩

theorem Reordered.checkPair_alike (h : t.Reordered a l b l') (hfree : t.catalog.StarFree)
    (pair : String × String) : Alike (t.checkPair a l pair) (t.checkPair b l' pair) := by
  unfold checkPair
  rcases h.span_cases pair.1 with ⟨f, hf, before, after⟩ | ⟨u, u', hu, hu', before, after⟩ <;>
    rw [before, after]
  · exact .of_layout hf
  rcases h.span_cases pair.2 with ⟨f, hf, before, after⟩ | ⟨v, v', hv, hv', before, after⟩ <;>
    rw [before, after]
  · exact .of_layout hf
  exact report_alike h.name (h.clash_iff hfree hu hv hu' hv') pair

theorem checkPair_alike_self (pair : String × String) :
    Alike (t.checkPair a l pair) (t.checkPair a l pair) := by
  unfold checkPair
  cases hfirst : t.span a l pair.1 with
  | error f => exact .of_layout (ofLayout_span hfirst)
  | ok s =>
    cases hsecond : t.span a l pair.2 with
    | error f => exact .of_layout (ofLayout_span hsecond)
    | ok s' =>
      change Alike (report a pair (s.common? s')) (report a pair (s.common? s'))
      cases s.common? s' with
      | none => exact .inl ⟨rfl, rfl⟩
      | some common => exact .inr ⟨_, _, rfl, rfl, rfl, rfl, rfl⟩

theorem checkPair_alike_repack {rules : PackingRules} {r : Repack Int}
    (h : t.repack rules a = .ok r) (hfree : t.catalog.StarFree) (pair : String × String) :
    Alike (t.checkPair r.given r.givenLayout pair) (t.checkPair r.aggregate r.layout pair) := by
  obtain ⟨hgiven, hl, ⟨hagg, hlayout⟩ | ⟨hfixed, _, hwith, perm, hl'⟩⟩ := repack_cases h
  · rw [hgiven, hagg, hlayout]
    exact checkPair_alike_self pair
  · have hstruct := (Aggregate.hasFixedSize_eq_false.mp hfixed).1
    have reordered : t.Reordered a r.givenLayout r.aggregate r.layout :=
      { name := by rw [hwith]
        struct := ⟨hstruct, by rw [hwith]; exact hstruct⟩
        perm
        lays := ⟨lays_of_layout hl, lays_of_layout hl'⟩ }
    rw [hgiven]
    exact reordered.checkPair_alike hfree pair

section Lists

variable {ε α : Type} {f g : α → Except ε Unit} {pair : α} {rest pairs : List α}

theorem forM_cons_of_ok (h : f pair = .ok ()) : (pair :: rest).forM f = rest.forM f := by
  change (f pair >>= fun _ => rest.forM f) = _
  rw [h]
  rfl

theorem forM_cons_of_error {e : ε} (h : f pair = .error e) :
    (pair :: rest).forM f = .error e := by
  change (f pair >>= fun _ => rest.forM f) = _
  rw [h]
  rfl

/-- Checks that pass together pair by pair end at one pair, if they end before the last one. -/
theorem forM_together (h : ∀ pair ∈ pairs, f pair = .ok () ↔ g pair = .ok ()) :
    (pairs.forM f = .ok () ∧ pairs.forM g = .ok ()) ∨
      ∃ earlier pair later e e', pairs = earlier ++ pair :: later ∧
        (∀ p ∈ earlier, f p = .ok () ∧ g p = .ok ()) ∧
        (f pair = .error e ∧ g pair = .error e') ∧ pairs.forM f = .error e ∧
        pairs.forM g = .error e' := by
  induction pairs with
  | nil => exact .inl ⟨rfl, rfl⟩
  | cons pair rest ih =>
    obtain ⟨hpair, hrest⟩ := List.forall_mem_cons.mp h
    cases hf : f pair with
    | ok _ =>
      have hg := hpair.mp hf
      rw [forM_cons_of_ok hf, forM_cons_of_ok hg]
      rcases ih hrest with hok | ⟨earlier, p, later, e, e', rfl, hearlier, hfails⟩
      · exact .inl hok
      · refine .inr ⟨pair :: earlier, p, later, e, e', rfl, ?_, hfails⟩
        exact List.forall_mem_cons.mpr ⟨⟨hf, hg⟩, hearlier⟩
    | error e =>
      cases hg : g pair with
      | ok _ => exact nomatch hf.symm.trans (hpair.mpr hg)
      | error e' =>
        exact .inr ⟨[], pair, rest, e, e', rfl, fun p hp => (nomatch hp), ⟨hf, hg⟩,
          forM_cons_of_error hf, forM_cons_of_error hg⟩

end Lists

end Target

theorem repack_keeps_verdict (t : Target Int) (rules : PackingRules) (a : Aggregate Int)
    (r : Repack Int) (h : t.repack rules a = .ok r) (hfree : t.catalog.StarFree) :
    (t.checkDisjoint r.aggregate r.layout = .ok () ↔
      t.checkDisjoint r.given r.givenLayout = .ok ()) ∧
    ∀ f, t.checkDisjoint r.given r.givenLayout = .error f →
      ∃ earlier pair later e e', a.disjoint = earlier ++ pair :: later ∧
        (∀ p ∈ earlier, t.checkPair r.given r.givenLayout p = .ok () ∧
          t.checkPair r.aggregate r.layout p = .ok ()) ∧
        (t.checkPair r.given r.givenLayout pair = .error (.invalid e) ∧
          t.checkPair r.aggregate r.layout pair = .error (.invalid e')) ∧
        f = .invalid e ∧ t.checkDisjoint r.aggregate r.layout = .error (.invalid e') ∧
        e'.kind = e.kind ∧ e'.aggregate = e.aggregate ∧ e'.member = e.member := by
  obtain ⟨rfl, _, same⟩ := Target.repack_cases h
  have disjoint : r.aggregate.disjoint = r.given.disjoint := by
    rcases same with ⟨hagg, _⟩ | ⟨_, _, hwith, _⟩
    · rw [hagg]
    · rw [hwith]
  unfold Target.checkDisjoint
  rw [disjoint]
  have alike := Target.checkPair_alike_repack h hfree
  rcases Target.forM_together fun pair (_ : pair ∈ r.given.disjoint) => (alike pair).ok_iff with
    ⟨before, after⟩ | ⟨earlier, pair, later, f, g, hsplit, hearlier, ⟨hf, hg⟩, before, after⟩
  · rw [before, after]
    exact ⟨Iff.rfl, fun f hf => (nomatch hf)⟩
  · rw [before, after]
    refine ⟨iff_of_false nofun nofun, fun _ hsame => ?_⟩
    obtain rfl := Except.error.inj hsame
    obtain ⟨hok, _⟩ | ⟨e, e', he, he', like⟩ := alike pair
    · cases hok.symm.trans hf
    · obtain rfl := Except.error.inj (hf.symm.trans he)
      obtain rfl := Except.error.inj (hg.symm.trans he')
      exact ⟨earlier, pair, later, e, e', hsplit, hearlier, ⟨he, he'⟩, rfl, rfl, like⟩

def assertedNode : Aggregate Int :=
  { node with disjoint := [("tag", "link"), ("pair", "pair.word")] }

theorem repack_keeps_verdict_assertedNode :
    ∃ r e e', (Target.ofProfile .lp64).repack {} assertedNode = .ok r ∧
      (Target.ofProfile .lp64).checkDisjoint r.given r.givenLayout = .error (.invalid e) ∧
      (Target.ofProfile .lp64).checkDisjoint r.aggregate r.layout = .error (.invalid e') ∧
      e.cause = .overlap "pair" "pair.word" 20 24 ∧ e'.kind = "IncompatibleUnionLayout" ∧
      e'.member = some "pair" := by
  obtain ⟨l, hl, e, he, hcause, hmember, hsize⟩ : ∃ l,
      (Target.ofProfile .lp64).layout assertedNode = .ok l ∧
      ∃ e, (Target.ofProfile .lp64).checkDisjoint assertedNode l = .error (.invalid e) ∧
        e.cause = .overlap "pair" "pair.word" 20 24 ∧ e.member = some "pair" ∧
        l.totalSize = 32 :=
    ⟨_, rfl, _, rfl, rfl, rfl, rfl⟩
  obtain ⟨l', hl', hsize'⟩ : ∃ l',
      (Target.ofProfile .lp64).layout (assertedNode.withUnits linkFirst) = .ok l' ∧
      l'.totalSize = 24 := ⟨_, rfl, rfl⟩
  have repacked :=
    Target.repack_of_sorted (a := assertedNode) rfl rfl rfl sort_node hl hl' (by omega)
  have hfree : (Target.ofProfile .lp64 : Target Int).catalog.StarFree := fun _ h => (nomatch h)
  obtain ⟨_, _, _, e₁, e', _, _, _, hfirst, hsecond, hkind, _, hplace⟩ :=
    (repack_keeps_verdict (.ofProfile .lp64) {} assertedNode _ repacked hfree).2 _ he
  cases hfirst
  refine ⟨_, e, e', repacked, he, hsecond, hcause, ?_, hplace.trans hmember⟩
  rw [hkind, LayoutError.kind, hcause]

end AggregateLayout
