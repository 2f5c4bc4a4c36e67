import Mathlib
import AggregateLayout.Proofs.Neighbours
import AggregateLayout.Proofs.Overlaps

/-!
Members that a struct keeps apart. Whatever a path leads to inside a member stays inside the place
of that member. So paths that part in a struct lead to members that do not clash, and nothing is
reported of them.
-/

namespace AggregateLayout

/-- No aggregate is kept under the name of a pointer. A path would go on into one that is, although
the layout has a pointer there. -/
def Catalog.StarFree {μ : Type} [Measure μ] (c : Catalog μ) : Prop :=
  ∀ entry ∈ c.aggregates, TypeName.isPointer entry.1 = false

namespace Placement

variable {x y : Placement Int}

theorem extent_shift (base : Int) (q : Placement Int) :
    (q.shift base).extent = ⟨8 * base + q.extent.start, 8 * base + q.extent.stop⟩ := by
  unfold extent shift
  cases q.bits with
  | none =>
    dsimp only
    congr 1 <;> omega
  | some bits =>
    dsimp only
    congr 1 <;> omega

theorem Beside.shift (h : x.Beside y) (base : Int) : (x.shift base).Beside (y.shift base) := by
  rcases h with h | ⟨h, apart⟩
  · left
    unfold Ordered stop at h ⊢
    dsimp only [Placement.shift]
    omega
  · refine .inr ⟨⟨h.left, h.right, congrArg (base + ·) h.offset, h.size⟩, ?_⟩
    rw [Extent.apart_iff] at apart ⊢
    rw [extent_shift, extent_shift]
    dsimp only
    omega

end Placement

namespace Target

inductive Leads (t : Target Int) : Aggregate Int → List String → Aggregate Int → Prop
  | here {a : Aggregate Int} : Leads t a [] a
  | inside {a b c : Aggregate Int} {name : String} {names : List String} {m : Member Int}
    (hm : a.member? name = some m) (hb : t.inner? m = some b) (hc : Leads t b names c) :
    Leads t a (name :: names) c

variable {t : Target Int} {a b : Aggregate Int} {l inner : Layout Int} {m : Member Int}
  {name x y : String} {names pre xs ys : List String} {q r u v : Placement Int}

theorem nested?_of_inner? {μ : Type} [Measure μ] {t : Target μ} {b : Aggregate μ} {m : Member μ}
    (hfree : t.catalog.StarFree) (hb : t.inner? m = some b) :
    m.dims = [] ∧ t.nested? m.type = some b := by
  unfold inner? at hb
  split at hb
  · cases hb
  · next harray =>
    refine ⟨Member.isArray_eq_false.mp (Bool.not_eq_true _ ▸ harray), ?_⟩
    split at hb
    · next htype =>
      rw [htype]
      exact hb
    · next name htype =>
      have hpointer := hfree _ (Table.mem_of_find? hb)
      rw [htype]
      change (if t.catalog.isPointer name then none else t.catalog.aggregate? name) = some b
      rw [if_neg (by rw [Catalog.isPointer, hpointer]; exact Bool.false_ne_true)]
      exact hb
    · cases hb

theorem Lays.within (h : t.Lays a l) (hq : l.placement? name = some q) :
    0 ≤ q.offset ∧ q.stop ≤ l.totalSize := by
  obtain ⟨_, typed, _, _, hl⟩ := h
  exact Layout.within_ofTypes hl (List.mem_of_find?_eq_some hq)

theorem Lays.contains (h : t.Lays a l) (hfree : t.catalog.StarFree) (hm : a.member? name = some m)
    (hq : l.placement? name = some q) (hb : t.inner? m = some b) (hinner : t.Lays b inner)
    (hr : 0 ≤ r.offset ∧ r.stop ≤ inner.totalSize) :
    q.bits = none ∧ q.offset ≤ (r.shift q.offset).offset ∧ (r.shift q.offset).stop ≤ q.stop := by
  obtain ⟨hdims, hnested⟩ := nested?_of_inner? hfree hb
  obtain ⟨hbits, _, hsize⟩ := h.holds_nested hm hq hnested hinner
  have hsize := hsize hdims
  unfold Placement.stop at hr ⊢
  dsimp only [Placement.shift]
  refine ⟨hbits, ?_, ?_⟩ <;> omega

theorem Locates.within (h : t.Locates a l names q) (hfree : t.catalog.StarFree)
    (hl : t.Lays a l) : 0 ≤ q.offset ∧ q.stop ≤ l.totalSize := by
  induction h with
  | member _ hq => exact hl.within hq
  | inside hm hq hb hinner _ ih =>
    have hinner := lays_of_layout hinner
    obtain ⟨_, hstart, hend⟩ := hl.contains hfree hm hq hb hinner (ih hinner)
    obtain ⟨hfirst, hlast⟩ := hl.within hq
    exact ⟨hfirst.trans hstart, hend.trans hlast⟩

theorem Locates.component (h : t.Locates a l (name :: names) q) (hfree : t.catalog.StarFree)
    (hl : t.Lays a l) : ∃ r, l.placement? name = some r ∧ r.offset ≤ q.offset ∧ q.stop ≤ r.stop ∧
      (r.bits.isSome → q = r) := by
  cases h with
  | member _ hq => exact ⟨q, hq, le_rfl, le_rfl, fun _ => rfl⟩
  | @inside _ b _ inner _ _ m r q hm hr hb hinner hq =>
    have hinner := lays_of_layout hinner
    obtain ⟨hbits, hstart, hend⟩ := hl.contains hfree hm hr hb hinner (hq.within hfree hinner)
    refine ⟨r, hr, hstart, hend, fun hsome => ?_⟩
    rw [hbits] at hsome
    cases hsome

theorem Locates.beside (hu : t.Locates a l (x :: xs) u) (hv : t.Locates a l (y :: ys) v)
    (hxy : x ≠ y) (hfree : t.catalog.StarFree) (hl : t.Lays a l) (ha : a.kind = .struct) :
    u.Beside v := by
  obtain ⟨q, hq, hqu, huq, hbitsu⟩ := hu.component hfree hl
  obtain ⟨r, hr, hrv, hvr, hbitsv⟩ := hv.component hfree hl
  have different : q ≠ r := by
    rintro rfl
    have hx : q.name = x := by simpa using List.find?_some hq
    have hy : q.name = y := by simpa using List.find?_some hr
    exact hxy (hx.symm.trans hy)
  have apart : q.Beside r := by
    obtain ⟨_, typed, _, _, hof⟩ := hl
    have pairwise := Layout.beside_ofTypes ha hof
    exact pairwise.forall (List.mem_of_find?_eq_some hq) (List.mem_of_find?_eq_some hr) different
  rcases apart with hordered | ⟨hunit, hbits⟩
  · left
    unfold Placement.Ordered at hordered ⊢
    omega
  · -- No path goes on from a bitfield, so that these two are what the paths lead to.
    rw [hbitsu hunit.left, hbitsv hunit.right]
    exact .inr ⟨hunit, hbits⟩

theorem Locates.descend (h : t.Locates a l (name :: names) q) (hnames : names ≠ [])
    (hm : a.member? name = some m) (hb : t.inner? m = some b) :
    ∃ inner place r, l.placement? name = some place ∧ t.layout b = .ok inner ∧
      t.Locates b inner names r ∧ q = r.shift place.offset := by
  cases h with
  | member => exact absurd rfl hnames
  | inside hm' hq hb' hinner hr =>
    obtain rfl := Option.some.inj (hm'.symm.trans hm)
    obtain rfl := Option.some.inj (hb'.symm.trans hb)
    exact ⟨_, _, _, hq, hinner, hr, rfl⟩

theorem Leads.split (h : t.Leads a pre b) (hl : t.layout a = .ok l)
    (hu : t.Locates a l (pre ++ x :: xs) u) (hv : t.Locates a l (pre ++ y :: ys) v) :
    ∃ inner base q r, t.layout b = .ok inner ∧ t.Locates b inner (x :: xs) q ∧
      t.Locates b inner (y :: ys) r ∧ u = q.shift base ∧ v = r.shift base := by
  induction h generalizing l u v with
  | here => exact ⟨l, 0, u, v, hl, hu, hv, u.shift_zero.symm, v.shift_zero.symm⟩
  | inside hm hb _ ih =>
    obtain ⟨nested, place, u', hplace, hnested, hu', rfl⟩ := hu.descend (by simp) hm hb
    obtain ⟨nested', place', v', hplace', hnested', hv', rfl⟩ := hv.descend (by simp) hm hb
    obtain rfl := Option.some.inj (hplace.symm.trans hplace')
    obtain rfl := Except.ok.inj (hnested.symm.trans hnested')
    obtain ⟨inner, base, q, r, hinner, hq, hr, rfl, rfl⟩ := ih hnested hu' hv'
    exact ⟨inner, place.offset + base, q, r, hinner, hq, hr, q.shift_shift _ _, r.shift_shift _ _⟩

theorem Leads.not_clash (h : t.Leads a pre b) (hb : b.kind = .struct) (hxy : x ≠ y)
    (hfree : t.catalog.StarFree) (hl : t.layout a = .ok l)
    (hu : t.Locates a l (pre ++ x :: xs) u) (hv : t.Locates a l (pre ++ y :: ys) v) :
    ¬ u.Clash v := by
  obtain ⟨inner, base, q, r, hinner, hq, hr, rfl, rfl⟩ := h.split hl hu hv
  have beside : q.Beside r := hq.beside hr hxy hfree (lays_of_layout hinner) hb
  exact (beside.shift base).not_clash

end Target

theorem checkDisjoint_separates (t : Target Int) (a b : Aggregate Int) (l : Layout Int)
    (first second x y : String) (pre xs ys : List String) (h : t.layout a = .ok l)
    (hfree : t.catalog.StarFree) (hfirst : MemberPath.names first = pre ++ x :: xs)
    (hsecond : MemberPath.names second = pre ++ y :: ys) (hpre : t.Leads a pre b)
    (hb : b.kind = .struct) (hxy : x ≠ y) :
    ∀ e start stop, t.checkDisjoint a l = .error (.invalid e) →
      e.cause ≠ .overlap first second start stop := by
  intro e start stop herror hcause
  obtain ⟨_, _, _, _, u, v, _, _, hu, hv, hclash, _⟩ :=
    Target.clash_of_checkDisjoint herror hcause
  rw [hfirst] at hu
  rw [hsecond] at hv
  exact hpre.not_clash hb hxy hfree h hu hv hclash

def bothBits : Aggregate Int where
  name := "both"
  members :=
    [{ name := "low", type := .inline lowBits }, { name := "high", type := .inline highBits }]

def bitsOrWord : Aggregate Int where
  name := "frame"
  kind := .union
  members :=
    [{ name := "all", type := .inline bothBits },
      { name := "raw", type := .descriptor (integer .four) }]
  disjoint := [("all.low.a", "all.high.b"), ("all.low.a", "raw")]

theorem checkDisjoint_separates_bitsOrWord :
    ∃ l e, (Target.ofProfile .lp64).layout bitsOrWord = .ok l ∧
      (Target.ofProfile .lp64).checkDisjoint bitsOrWord l = .error (.invalid e) ∧
      e.cause = .overlap "all.low.a" "raw" 0 4 ∧
      ∀ start stop, e.cause ≠ .overlap "all.low.a" "all.high.b" start stop := by
  refine ⟨_, _, rfl, rfl, rfl, fun start stop => ?_⟩
  have hfree : (Target.ofProfile .lp64 : Target Int).catalog.StarFree := fun _ h => (nomatch h)
  exact checkDisjoint_separates (.ofProfile .lp64) bitsOrWord bothBits _ "all.low.a" "all.high.b"
    "low" "high" ["all"] ["a"] ["b"] rfl hfree rfl rfl (.inside rfl rfl .here) rfl (by decide) _
    start stop rfl

end AggregateLayout
