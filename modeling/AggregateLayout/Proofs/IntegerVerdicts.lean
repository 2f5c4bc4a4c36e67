import Mathlib
import AggregateLayout.Proofs.IntegerPackings
import AggregateLayout.Proofs.Verdict

namespace AggregateLayout

open AggregateLayout.Measure (whole larger smaller)

theorem Quantity.written_of_short {q : Quantity} (h : q.IsWhole) (hshort : ¬ q.IsTooLong) :
    Measure.written q = .ok () := by
  cases hw : Measure.written q with
  | ok _ => rfl
  | error fault => exact absurd ((Quantity.written_eq_error h).mp hw).2 hshort

theorem Aggregate.member?_integral (a : Aggregate Quantity) (name : String) :
    a.integral.member? name = (a.member? name).map Member.integral := by
  unfold member?
  rw [a.members_integral, List.find?_map]
  congr 2
  funext m
  exact congrArg (· == name) m.name_integral

/-- The integers of a span. -/
structure Span.StandsFor (s : Span Quantity) (s' : Span Int) : Prop where
  start : s.start.IsWhole
  size : s.size.val.IsWhole
  range : ∀ r, s.bits = some r → r.offset.IsWhole ∧ r.width.IsWhole
  integral : s' = { start := s.start.integer, size := s.size.integral,
                    bits := s.bits.map BitRange.integral }

theorem Placement.StandsFor.span {q : Placement Quantity} {q' : Placement Int}
    {base : Quantity} (h : q.StandsFor q') (hbase : base.IsWhole) :
    Span.StandsFor { start := base + q.offset, size := q.size, bits := q.bits }
      { start := base.integer + q'.offset, size := q'.size, bits := q'.bits } where
  start := hbase.add h.start
  size := h.natural.isWhole
  range r hr := by
    have hnumbers : q.numbers = [q.offset, q.size.val, r.offset, r.width] := by
      unfold numbers
      rw [show q.bits = some r from hr]
      rfl
    have hwhole := h.isWhole
    unfold IsWhole at hwhole
    rw [hnumbers] at hwhole
    exact ⟨hwhole _ (by simp), hwhole _ (by simp)⟩
  integral := by rw [h.offset, h.size, h.bits, Quantity.integer_add hbase h.start]

namespace Span

variable {x y : Span Quantity} {x' y' : Span Int}

theorem StandsFor.stop (h : x.StandsFor x') : x.stop.IsWhole ∧ x'.stop = x.stop.integer := by
  refine ⟨h.start.add h.size, ?_⟩
  rw [h.integral]
  exact (Quantity.integer_add h.start h.size).symm

theorem isWhole_common? {start stop : Quantity} (hx : x.StandsFor x') (hy : y.StandsFor y')
    (h : x.common? y = some (start, stop)) : start.IsWhole ∧ stop.IsWhole := by
  unfold common? at h
  dsimp only at h
  rw [Option.ite_none_left_eq_some] at h
  cases h.2
  exact ⟨hx.start.larger hy.start, hx.stop.1.smaller hy.stop.1⟩

theorem common?_integral (hx : x.StandsFor x') (hy : y.StandsFor y') :
    x'.common? y' = (x.common? y).map integerSpan := by
  obtain ⟨hstopx, hstopx'⟩ := hx.stop
  obtain ⟨hstopy, hstopy'⟩ := hy.stop
  obtain ⟨hstartx, hsizex, hrangex, rfl⟩ := hx
  obtain ⟨hstarty, hsizey, hrangey, rfl⟩ := hy
  have hlarger := Quantity.integer_larger hstartx hstarty
  have hsmaller := Quantity.integer_smaller hstopx hstopy
  unfold common?
  dsimp only
  rw [hstopx', hstopy', apply_ite (Option.map integerSpan), ← hlarger, ← hsmaller]
  refine if_congr ?_ rfl rfl
  rw [Bool.or_eq_true, Bool.or_eq_true, decide_eq_true_eq, decide_eq_true_eq]
  refine or_congr (Quantity.le_iff (hstopx.smaller hstopy) (hstartx.larger hstarty)).symm ?_
  cases hbx : x.bits with
  | none => exact Iff.rfl
  | some u =>
    cases hby : y.bits with
    | none => exact Iff.rfl
    | some v =>
      obtain ⟨hu, hu'⟩ := hrangex u hbx
      obtain ⟨hv, hv'⟩ := hrangey v hby
      have hbits := Quantity.le_iff ((hu.add hu').smaller (hv.add hv')) (hu.larger hv)
      rw [Quantity.integer_smaller (hu.add hu') (hv.add hv'), Quantity.integer_larger hu hv,
        Quantity.integer_add hu hu', Quantity.integer_add hv hv'] at hbits
      dsimp only [Option.map_some]
      rw [Quantity.beq_eq hstartx hstarty, Quantity.beq_eq hsizex hsizey,
        decide_eq_decide.mpr hbits]
      exact Iff.rfl

end Span

theorem Catalog.StarFree.integral {c : Catalog Quantity} (h : c.StarFree) :
    c.integral.StarFree := by
  intro entry hentry
  obtain ⟨x, hx, rfl⟩ := List.mem_map.mp hentry
  exact h x hx

namespace Target

variable {t : Target Quantity} {a b : Aggregate Quantity} {m : Member Quantity}
  {l l' : Layout Quantity} {k : Layout Int} {root path part : String} {base : Quantity}
  {names : List String} {pair : String × String}

theorem inner?_integral (t : Target Quantity) (m : Member Quantity) :
    t.integral.inner? m.integral = (t.inner? m).map Aggregate.integral := by
  unfold inner?
  rw [m.isArray_integral, m.type_integral, apply_ite (Option.map Aggregate.integral)]
  refine if_congr Iff.rfl rfl ?_
  cases m.type with
  | inline b => rfl
  | named name => exact Table.find?_mapValues _ _ _
  | descriptor d => rfl

theorem abreast_spanFrom (ht : t.IsWhole) (hfree : t.catalog.StarFree) (ha : a.IsWhole)
    (hshort : t.ShortBelow a) (hl : l.StandsFor k) (hbase : base.IsWhole) :
    digits.Abreast Span.StandsFor (t.spanFrom root path a l base part names)
      (t.integral.spanFrom root path a.integral k base.integer part names) := by
  have hplace := hl.placement? part
  induction names generalizing a l k base part with
  | nil =>
    unfold spanFrom
    rw [a.member?_integral]
    generalize l.placement? part = q, k.placement? part = q' at hplace
    cases a.member? part with
    | none => exact .both (.invalid (.unknownPath path))
    | some m =>
      cases hplace with
      | none => exact .both (.invalid (.unknownPath path))
      | some hq => exact .done (hq.span hbase)
  | cons next others ih =>
    unfold spanFrom
    rw [a.member?_integral]
    generalize l.placement? part = q, k.placement? part = q' at hplace
    cases hm : a.member? part with
    | none => exact .both (.invalid (.unknownPath path))
    | some m =>
      cases hplace with
      | none => exact .both (.invalid (.unknownPath path))
      | @some q q' hq =>
        dsimp only [Option.map_some]
        rw [t.inner?_integral]
        cases hb : t.inner? m with
        | none => exact .both (.invalid (.notNested part path))
        | some b =>
          -- Nothing tells that what is nested has a layout, so its lengths are short by `hshort`.
          have hnests : t.Nests a b :=
            ⟨m, List.mem_of_find?_eq_some hm, (nested?_of_inner? hfree hb).2⟩
          have hwhole := isWhole_nests ht.catalog ha hnests
          have hbelow := hshort.nests hnests
          refine (abreast_layout ht hwhole hbelow).bind fun inside inside' hinside => ?_
          rw [hq.offset, ← Quantity.integer_add hbase hq.start]
          exact ih hwhole hbelow hinside (hbase.add hq.start) (hinside.placement? next)

theorem abreast_span (ht : t.IsWhole) (hfree : t.catalog.StarFree) (ha : a.IsWhole)
    (hshort : t.ShortBelow a) (hl : l.StandsFor k) (path : String) :
    digits.Abreast Span.StandsFor (t.span a l path) (t.integral.span a.integral k path) := by
  unfold span
  dsimp only
  rw [a.name_integral]
  exact abreast_spanFrom ht hfree ha hshort hl (Quantity.isWhole_whole 0)

theorem abreast_checkPair (ht : t.IsWhole) (hfree : t.catalog.StarFree) (ha : a.IsWhole)
    (hshort : t.ShortBelow a) (hl : l.StandsFor k) (pair : String × String) :
    digits.Abreast (fun _ _ => True) (t.checkPair a l pair)
      (t.integral.checkPair a.integral k pair) := by
  unfold checkPair
  refine (abreast_span ht hfree ha hshort hl pair.1).bind fun x x' hx => ?_
  refine (abreast_span ht hfree ha hshort hl pair.2).bind fun y y' hy => ?_
  rw [Span.common?_integral hx hy]
  cases hcommon : x.common? y with
  | none => exact .done trivial
  | some common =>
    obtain ⟨start, stop⟩ := common
    obtain ⟨hstart, hstop⟩ := Span.isWhole_common? hx hy hcommon
    unfold report
    dsimp only [Option.map_some, integerSpan]
    refine (abreast_written hstart _).bind fun _ _ _ => ?_
    refine (abreast_written hstop _).bind fun _ _ _ => ?_
    rw [a.name_integral]
    exact .both (.invalid (.overlap _ _ _ _))

theorem exists_locates (ht : t.IsWhole) (hfree : t.catalog.StarFree) (ha : a.IsWhole)
    (hshort : t.ShortBelow a) (hl : l.StandsFor k) {x : Span Quantity} {path : String}
    (h : t.span a l path = .ok x) :
    ∃ q, t.integral.Locates a.integral k (MemberPath.names path) q ∧ x.StandsFor q.span := by
  have habreast := abreast_span ht hfree ha hshort hl path
  rw [h] at habreast
  generalize hy : t.integral.span a.integral k path = y at habreast
  cases habreast with
  | right hg => exact hg.elim
  | done hx =>
    obtain ⟨q, hq, rfl⟩ := span_eq_ok.mp hy
    exact ⟨q, hq, hx⟩

theorem not_isTooLong_totalSize (ht : t.IsWhole) (ha : a.IsWhole) (h : t.layout a = .ok l) :
    ¬ l.totalSize.IsTooLong := by
  intro hlong
  obtain ⟨k, _, hl⟩ := exists_integral_layout ht ha h
  have hlong := hl.isWhole.written_eq_error.mpr ⟨rfl, l.totalSize, .head _, hlong⟩
  unfold layout at h
  exact nomatch (noted_eq_ok.mp h).2.symm.trans hlong

/-- The bytes that are reported of a clash are bytes of the aggregate, whose size is written too. -/
theorem written_common? (ht : t.IsWhole) (hfree : t.catalog.StarFree) (ha : a.IsWhole)
    (h : t.layout a = .ok l) {x y : Span Quantity} {start stop : Quantity}
    (hx : t.span a l pair.1 = .ok x) (hy : t.span a l pair.2 = .ok y)
    (hcommon : x.common? y = some (start, stop)) :
    Measure.written start = .ok () ∧ Measure.written stop = .ok () := by
  have hshort := shortBelow_of_layout ht.catalog ha h
  obtain ⟨k, hk, hl⟩ := exists_integral_layout ht ha h
  obtain ⟨q, hq, hxq⟩ := exists_locates ht hfree ha hshort hl hx
  obtain ⟨r, hr, hyr⟩ := exists_locates ht hfree ha hshort hl hy
  obtain ⟨hstart, hstop⟩ := Span.isWhole_common? hxq hyr hcommon
  have hintegral := Span.common?_integral hxq hyr
  rw [hcommon] at hintegral
  rcases Placement.common?_cases q r with ⟨_, hnone⟩ | ⟨hclash, hsome⟩
  · exact nomatch hnone.symm.trans hintegral
  obtain ⟨hstart', hstop'⟩ : max q.offset r.offset = start.integer ∧
      min q.stop r.stop = stop.integer :=
    Prod.mk.inj (Option.some.inj (hsome.symm.trans hintegral))
  obtain ⟨hbytes, _⟩ := Placement.clash_iff.mp hclash
  -- Both ends lie between zero and the total size, so neither has more digits than that.
  obtain ⟨hfirst, hlast⟩ := hq.within hfree.integral (lays_of_layout hk)
  have htotal := not_isTooLong_totalSize ht ha h
  rw [Quantity.isTooLong_iff hl.isWhole.totalSize.isWhole, ← hl.totalSize] at htotal
  constructor
  · refine Quantity.written_of_short hstart fun hlong => htotal ?_
    rw [Quantity.isTooLong_iff hstart] at hlong
    omega
  · refine Quantity.written_of_short hstop fun hlong => htotal ?_
    rw [Quantity.isTooLong_iff hstop] at hlong
    omega

theorem checkPair_number (ht : t.IsWhole) (hfree : t.catalog.StarFree) (ha : a.IsWhole)
    (h : t.layout a = .ok l) {fault : NumberFault}
    (hcheck : t.checkPair a l pair = .error (.number fault)) :
    t.span a l pair.1 = .error (.number fault) ∨
      (∃ x, t.span a l pair.1 = .ok x) ∧ t.span a l pair.2 = .error (.number fault) := by
  rcases except_bind_eq_error.mp hcheck with hx | ⟨x, hx, hcheck⟩
  · exact .inl hx
  rcases except_bind_eq_error.mp hcheck with hy | ⟨y, hy, hcheck⟩
  · exact .inr ⟨⟨x, hx⟩, hy⟩
  cases hcommon : x.common? y with
  | none =>
    rw [hcommon] at hcheck
    cases hcheck
  | some common =>
    obtain ⟨start, stop⟩ := common
    obtain ⟨hstart, hstop⟩ := written_common? ht hfree ha h hx hy hcommon
    rw [hcommon] at hcheck
    unfold report at hcheck
    dsimp only at hcheck
    rw [hstart, hstop] at hcheck
    cases hcheck

/-- Two orders of the members, both of which are laid out. -/
structure BothOrders (t : Target Quantity) (a : Aggregate Quantity) (l : Layout Quantity)
    (b : Aggregate Quantity) (l' : Layout Quantity) : Prop where
  isWhole : a.IsWhole ∧ b.IsWhole
  name : b.name = a.name
  perm : b.members.Perm a.members
  layout : t.layout a = .ok l ∧ t.layout b = .ok l'

namespace BothOrders

theorem symm (h : t.BothOrders a l b l') : t.BothOrders b l' a l :=
  ⟨h.isWhole.symm, h.name.symm, h.perm.symm, h.layout.symm⟩

theorem member? (h : t.BothOrders a l b l') (ht : t.IsWhole) (name : String) :
    b.member? name = a.member? name := by
  obtain ⟨k, hk, _⟩ := exists_integral_layout ht h.isWhole.1 h.layout.1
  have hnames := (checkNames_nil_eq_ok.mp (lays_of_layout hk).1).2
  rw [a.memberNames_integral] at hnames
  exact Aggregate.member?_perm h.perm hnames name

theorem exists_placement (h : t.BothOrders a l b l') (ht : t.IsWhole) {name : String}
    (hm : a.member? name = some m) : ∃ q, l.placement? name = some q := by
  obtain ⟨k, hk, hl⟩ := exists_integral_layout ht h.isWhole.1 h.layout.1
  have hm' : a.integral.member? name = some m.integral := by
    rw [a.member?_integral, hm]
    rfl
  obtain ⟨q', hq'⟩ := (lays_of_layout hk).exists_placement hm'
  have hplace := hl.placement? name
  rw [hq'] at hplace
  generalize l.placement? name = q at hplace
  cases hplace with
  | some _ => exact ⟨_, rfl⟩

theorem span_error (h : t.BothOrders a l b l') (ht : t.IsWhole) {path : String}
    {f : LayoutFailure Quantity} (hspan : t.span a l path = .error f) :
    t.span b l' path = .error f := by
  unfold span at hspan ⊢
  dsimp only at hspan ⊢
  rw [h.name]
  refine spanFrom_error_of_members (h.member? ht) (fun name m hm => ?_) hspan
  obtain ⟨q, hq⟩ := h.exists_placement ht hm
  obtain ⟨q', hq'⟩ := h.symm.exists_placement ht ((h.member? ht name).trans hm)
  exact ⟨q, q', hq, hq'⟩

theorem span_ok (h : t.BothOrders a l b l') (ht : t.IsWhole) {path : String}
    {x : Span Quantity} (hspan : t.span a l path = .ok x) : ∃ y, t.span b l' path = .ok y := by
  cases hspan' : t.span b l' path with
  | ok y => exact ⟨y, rfl⟩
  | error f => exact nomatch hspan.symm.trans (h.symm.span_error ht hspan')

theorem checkPair_number (h : t.BothOrders a l b l') (ht : t.IsWhole)
    (hfree : t.catalog.StarFree) {fault : NumberFault}
    (hcheck : t.checkPair a l pair = .error (.number fault)) :
    t.checkPair b l' pair = .error (.number fault) := by
  unfold checkPair
  rcases Target.checkPair_number ht hfree h.isWhole.1 h.layout.1 hcheck with
    hx | ⟨⟨x, hx⟩, hy⟩
  · rw [h.span_error ht hx]
    rfl
  · obtain ⟨x', hx'⟩ := h.span_ok ht hx
    rw [hx', h.span_error ht hy]
    rfl

end BothOrders

end Target

theorem LayoutCause.StandsFor.kind {c : LayoutCause Quantity} {c' : LayoutCause Int}
    (h : c.StandsFor c') (aggregate member : Option String) :
    LayoutError.kind { cause := c', aggregate, member } =
      LayoutError.kind { cause := c, aggregate, member } := by
  cases h <;> rfl

namespace Target

variable {t : Target Quantity} {a : Aggregate Quantity} {rules : PackingRules}
  {r : Repack Quantity} {x y : Except (LayoutFailure Quantity) Unit}
  {x' y' : Except (LayoutFailure Int) Unit}

/-- What is alike in integers is alike in quantities, or stops at a number on both sides. -/
theorem alike_of_integral (hx : digits.Abreast (fun _ _ => True) x x')
    (hy : digits.Abreast (fun _ _ => True) y y') (alike : Alike x' y')
    (number : x = .error (.number .tooManyDigits) ↔ y = .error (.number .tooManyDigits)) :
    Alike x y ∨ x = .error (.number .tooManyDigits) ∧ y = .error (.number .tooManyDigits) := by
  -- Either side says what its integers say or stops at a number, and then the other stops too.
  cases hx with
  | left hf =>
    obtain rfl := hf
    exact .inr ⟨rfl, number.mp rfl⟩
  | right hg => exact hg.elim
  | done =>
    cases hy with
    | left hf =>
      obtain rfl := hf
      exact nomatch number.mpr rfl
    | right hg => exact hg.elim
    | done => exact .inl (.inl ⟨rfl, rfl⟩)
    | both => exact nomatch alike.ok_iff.mp rfl
  | both hfg =>
    cases hfg with
    | invalid hc =>
      cases hy with
      | left hf =>
        obtain rfl := hf
        exact nomatch number.mpr rfl
      | right hg => exact hg.elim
      | done => exact nomatch alike.ok_iff.mpr rfl
      | both hfg' =>
        cases hfg' with
        | invalid hc' =>
          obtain ⟨⟨⟩, _⟩ | ⟨_, _, ⟨⟩, ⟨⟩, hkind, haggregate, hmember⟩ := alike
          refine .inl (.inr ⟨_, _, rfl, rfl, ?_, haggregate, hmember⟩)
          rw [← hc.kind, ← hc'.kind]
          exact hkind

theorem bothOrders_repack (ha : a.IsWhole) (h : t.repack rules a = .ok r) :
    t.BothOrders r.given r.givenLayout r.aggregate r.layout := by
  obtain ⟨rfl, hl, ⟨hagg, hlayout⟩ | ⟨_, _, hwith, perm, hl'⟩⟩ := repack_cases h
  · rw [hagg, hlayout]
    exact ⟨⟨ha, ha⟩, rfl, .refl _, ⟨hl, hl⟩⟩
  · exact ⟨⟨ha, isWhole_of_members ha perm.subset⟩, by rw [hwith], perm, ⟨hl, hl'⟩⟩

theorem checkPair_cases (ht : t.IsWhole) (ha : a.IsWhole) (h : t.repack rules a = .ok r)
    (hfree : t.catalog.StarFree) (pair : String × String) :
    Alike (t.checkPair r.given r.givenLayout pair) (t.checkPair r.aggregate r.layout pair) ∨
      t.checkPair r.given r.givenLayout pair = .error (.number .tooManyDigits) ∧
        t.checkPair r.aggregate r.layout pair = .error (.number .tooManyDigits) := by
  obtain ⟨r', hr', hstands⟩ := exists_integral_repack ht ha h
  have orders := bothOrders_repack ha h
  obtain ⟨hl, hl'⟩ := orders.layout
  obtain ⟨hgiven, hagg⟩ := orders.isWhole
  have alike := checkPair_alike_repack hr' hfree.integral pair
  rw [hstands.given, hstands.aggregate] at alike
  refine alike_of_integral ?_ ?_ alike
    ⟨orders.checkPair_number ht hfree, orders.symm.checkPair_number ht hfree⟩
  · exact abreast_checkPair ht hfree hgiven (shortBelow_of_layout ht.catalog hgiven hl)
      hstands.givenLayout pair
  · exact abreast_checkPair ht hfree hagg (shortBelow_of_layout ht.catalog hagg hl')
      hstands.layout pair

end Target

/-- The check says the same of an aggregate and of its repacking in whole quantities too. The one
more way for it to end is a nested aggregate whose totals have too many digits, in both orders. -/
theorem repack_keeps_whole_verdict (t : Target Quantity) (rules : PackingRules)
    (a : Aggregate Quantity) (r : Repack Quantity) (ht : t.IsWhole) (ha : a.IsWhole)
    (h : t.repack rules a = .ok r) (hfree : t.catalog.StarFree) :
    (t.checkDisjoint r.given r.givenLayout = .ok () ∧
        t.checkDisjoint r.aggregate r.layout = .ok ()) ∨
      ∃ earlier pair later f g, a.disjoint = earlier ++ pair :: later ∧
        (∀ p ∈ earlier, t.checkPair r.given r.givenLayout p = .ok () ∧
          t.checkPair r.aggregate r.layout p = .ok ()) ∧
        (t.checkPair r.given r.givenLayout pair = .error f ∧
          t.checkPair r.aggregate r.layout pair = .error g) ∧
        (t.checkDisjoint r.given r.givenLayout = .error f ∧
          t.checkDisjoint r.aggregate r.layout = .error g) ∧
        ((f = .number .tooManyDigits ∧ g = .number .tooManyDigits) ∨
          ∃ e e', f = .invalid e ∧ g = .invalid e' ∧ e'.kind = e.kind ∧
            e'.aggregate = e.aggregate ∧ e'.member = e.member) := by
  have hcases := Target.checkPair_cases ht ha h hfree
  have disjoint : r.given.disjoint = a.disjoint ∧ r.aggregate.disjoint = a.disjoint := by
    obtain ⟨rfl, _, ⟨hagg, _⟩ | ⟨_, _, hwith, _⟩⟩ := Target.repack_cases h
    · exact ⟨rfl, by rw [hagg]⟩
    · exact ⟨rfl, by rw [hwith]⟩
  unfold Target.checkDisjoint
  rw [disjoint.1, disjoint.2]
  have together (pair : String × String) :
      t.checkPair r.given r.givenLayout pair = .ok () ↔
        t.checkPair r.aggregate r.layout pair = .ok () := by
    rcases hcases pair with alike | ⟨hf, hg⟩
    · exact alike.ok_iff
    · rw [hf, hg]
  rcases Target.forM_together fun pair (_ : pair ∈ a.disjoint) => together pair with
    hok | ⟨earlier, pair, later, f, g, hsplit, hearlier, ⟨hf, hg⟩, hends⟩
  · exact .inl hok
  · refine .inr ⟨earlier, pair, later, f, g, hsplit, hearlier, ⟨hf, hg⟩, hends, ?_⟩
    rcases hcases pair with (⟨hok, _⟩ | ⟨e, e', he, he', like⟩) | ⟨hlong, hlong'⟩
    · exact nomatch hok.symm.trans hf
    · exact .inr ⟨e, e', Except.error.inj (hf.symm.trans he), Except.error.inj (hg.symm.trans he'),
        like⟩
    · exact .inl ⟨Except.error.inj (hf.symm.trans hlong), Except.error.inj (hg.symm.trans hlong')⟩

end AggregateLayout
