import Mathlib
import AggregateLayout.Profile.Builtin
import AggregateLayout.Proofs.Arranging
import AggregateLayout.Proofs.Remembering
import AggregateLayout.Proofs.Reordering

namespace AggregateLayout

namespace Target

variable {μ : Type} [Measure μ] {t : Target μ} {rules : PackingRules} {a : Aggregate μ}
  {r : Repack μ}

theorem pack_eq_ok {s : Arrangement μ} :
    t.pack rules a = .ok s ↔ ∃ units sorted, t.units rules a = .ok units ∧
      t.arrange a (PackingUnit.sort rules units) = .ok sorted ∧
      if rules.cacheLineHint && rules.preserveGroups then t.settle units.length sorted = .ok s
      else sorted = s := by
  unfold pack
  simp only [except_bind_eq_ok, ← exists_and_left]
  apply exists_congr
  intro units
  apply exists_congr
  intro sorted
  split <;> simp [pure, Except.pure]

theorem pack_eq_ok_alone {s : Arrangement μ} (hrules : rules.preserveGroups = false) :
    t.pack rules a = .ok s ↔
      ∃ typed : List (Member μ × TypeDescriptor μ), typed.map Prod.fst = a.members ∧
        (∀ x ∈ typed, t.memberType x.1 = .ok x.2) ∧
        t.arrange a (PackingUnit.sort rules (typed.zipIdx.map PackingUnit.alone)) = .ok s := by
  simp only [pack_eq_ok, units_eq_ok, PackingUnit.gather_alone hrules, hrules, Bool.and_false,
    Bool.false_eq_true, if_false, List.nil_append]
  constructor
  · rintro ⟨_, _, ⟨typed, hm, htyped, rfl⟩, hsorted, rfl⟩
    exact ⟨typed, hm, htyped, hsorted⟩
  · rintro ⟨typed, hm, htyped, hsorted⟩
    exact ⟨_, s, ⟨typed, hm, htyped, rfl⟩, hsorted, rfl⟩

theorem pack_of {s : Arrangement μ} (h : t.pack rules a = .ok s) : s.Of t a := by
  obtain ⟨units, sorted, hunits, hsorted, hs⟩ := pack_eq_ok.mp h
  have complete := ((PackingUnit.sort_perm rules units).flatMap_right _).trans (units_perm hunits)
  have hof := arrange_of complete hsorted
  split at hs
  · exact settle_of hof hs
  · exact hs ▸ hof

theorem repack_eq_ok :
    t.repack rules a = .ok r ↔ ∃ l, t.layout a = .ok l ∧
      ((a.hasFixedSize = true ∧
          r = { given := a, aggregate := a, givenLayout := l, layout := l }) ∨
        a.hasFixedSize = false ∧ ∃ s, t.pack rules a = .ok s ∧
          r = if l.totalSize < s.layout.totalSize then
              { given := a, aggregate := a, givenLayout := l, layout := l,
                outgrown := some s.layout.totalSize }
            else { given := a, aggregate := s.aggregate, givenLayout := l,
                   layout := s.layout }) := by
  unfold repack
  rw [except_bind_eq_ok]
  apply exists_congr
  intro l
  apply and_congr_right
  intro _
  dsimp only
  cases a.hasFixedSize with
  | true =>
    simp only [if_true, true_and, Bool.true_eq_false, false_and, or_false]
    exact ⟨fun h => (Except.ok.inj h).symm, fun h => congrArg Except.ok h.symm⟩
  | false =>
    simp only [Bool.false_eq_true, if_false, false_and, false_or, true_and, except_bind_eq_ok]
    apply exists_congr
    intro s
    apply and_congr_right
    intro _
    split <;> exact ⟨fun h => (Except.ok.inj h).symm, fun h => congrArg Except.ok h.symm⟩

theorem repack_of_sorted {units sorted : List (PackingUnit μ)} {l l' : Layout μ}
    (hfixed : a.hasFixedSize = false)
    (hrules : (rules.cacheLineHint && rules.preserveGroups) = false)
    (hunits : t.units rules a = .ok units) (hsorted : PackingUnit.sort rules units = sorted)
    (hl : t.layout a = .ok l) (hl' : t.layout (a.withUnits sorted) = .ok l')
    (hsize : ¬ l.totalSize < l'.totalSize) :
    t.repack rules a = .ok
      { given := a, aggregate := a.withUnits sorted, givenLayout := l, layout := l' } := by
  let s : Arrangement μ := { units := sorted, aggregate := a.withUnits sorted, layout := l' }
  have arranged : t.arrange a (PackingUnit.sort rules units) = .ok s :=
    hsorted ▸ arrange_eq_ok.mpr ⟨rfl, rfl, hl'⟩
  have packed : t.pack rules a = .ok s :=
    pack_eq_ok.mpr ⟨units, s, hunits, arranged, by simp [hrules]⟩
  refine repack_eq_ok.mpr ⟨l, hl, .inr ⟨hfixed, s, packed, ?_⟩⟩
  rw [if_neg hsize]

theorem repack_cases (h : t.repack rules a = .ok r) :
    r.given = a ∧ t.layout a = .ok r.givenLayout ∧
      ((r.aggregate = a ∧ r.layout = r.givenLayout) ∨
        a.hasFixedSize = false ∧ ¬ r.givenLayout.totalSize < r.layout.totalSize ∧
          r.aggregate = { a with members := r.aggregate.members } ∧
          r.aggregate.members.Perm a.members ∧ t.layout r.aggregate = .ok r.layout) := by
  obtain ⟨l, hl, ⟨_, rfl⟩ | ⟨hfixed, s, hs, hr⟩⟩ := repack_eq_ok.mp h
  · exact ⟨rfl, hl, .inl ⟨rfl, rfl⟩⟩
  · have hof := pack_of hs
    split at hr
    · subst hr
      exact ⟨rfl, hl, .inl ⟨rfl, rfl⟩⟩
    · next smaller =>
      subst hr
      exact ⟨rfl, hl, .inr ⟨hfixed, smaller, hof.withMembers, hof.perm, hof.laid⟩⟩

end Target

theorem Aggregate.hasFixedSize_eq_false {a : Aggregate Int} :
    a.hasFixedSize = false ↔ a.kind = .struct ∧ a.packed = false := by
  unfold hasFixedSize isUnion
  cases a.kind <;> simp

theorem Repack.savings_int {r : Repack Int}
    (h : r.given.hasFixedSize = false ∨ r.layout = r.givenLayout) :
    r.savings = r.givenLayout.totalSize - r.layout.totalSize := by
  unfold savings
  rcases h with h | h <;> rw [h]
  · rfl
  · split
    · exact (sub_self _).symm
    · rfl

theorem repack_conserves (t : Target Int) (rules : PackingRules) (a : Aggregate Int)
    (r : Repack Int) (h : t.repack rules a = .ok r) :
    r.given = a ∧ r.aggregate = { a with members := r.aggregate.members } ∧
      r.aggregate.members.Perm a.members ∧
      t.layout a = .ok r.givenLayout ∧ t.layout r.aggregate = .ok r.layout ∧
      r.savings = r.givenLayout.totalSize - r.layout.totalSize ∧ 0 ≤ r.savings ∧
      r.layout.totalAlignment.val = r.givenLayout.totalAlignment.val ∧
      r.givenLayout.paddingBits - r.layout.paddingBits = 8 * r.savings := by
  obtain ⟨rfl, hl, ⟨hagg, hsame⟩ | ⟨hfixed, hsize, hwith, perm, laid⟩⟩ := Target.repack_cases h
  · have saved := Repack.savings_int (.inr hsame)
    rw [hsame] at saved
    rw [hagg, hsame]
    refine ⟨rfl, by cases r.given; rfl, .refl _, hl, hl, saved, ?_, rfl, ?_⟩ <;> omega
  · have saved := Repack.savings_int (.inl hfixed)
    obtain ⟨hstruct, hpacked⟩ := Aggregate.hasFixedSize_eq_false.mp hfixed
    have hkind : r.aggregate.kind = .struct := by
      rw [hwith]
      exact hstruct
    -- The members hold the same bits in any order, so that what the size gives up is padding.
    have given := Target.lays_of_layout hl
    have new := Target.lays_of_layout laid
    have bits := given.memberBits_perm new hstruct hkind perm.symm
    have before := given.memberBits_add_paddingBits
    have after := new.memberBits_add_paddingBits
    have aligned := given.totalAlignment_perm new hstruct hkind (by rw [hwith]) perm.symm
    have smaller := not_lt.mp hsize
    refine ⟨rfl, hwith, perm, hl, laid, saved, ?_, aligned.symm, ?_⟩ <;> omega

def integer (size : PowerOfTwo) : TypeDescriptor Int :=
  .basic "integer" (.of size.val) size .scalar true

def wordAndByte : Aggregate Int where
  name := "pair"
  members :=
    [{ name := "word", type := .descriptor (integer .four) },
      { name := "byte", type := .descriptor (integer .one) }]

def tag : Member Int where
  name := "tag"
  type := .descriptor (integer .one)

def link : Member Int where
  name := "link"
  type := .descriptor (.pointer "node" .eight)

def code : Member Int where
  name := "code"
  type := .descriptor (integer .one)
  dims := [3]

def pair : Member Int where
  name := "pair"
  type := .inline wordAndByte

def node : Aggregate Int where
  name := "node"
  members := [tag, link, code, pair]

def linkFirst : List (PackingUnit Int) :=
  [{ members := [link], alignment := .eight, position := 1 },
    { members := [pair], alignment := .four, position := 3 },
    { members := [tag], alignment := .one, position := 0 },
    { members := [code], alignment := .one, position := 2 }]

theorem sort_node :
    PackingUnit.sort {} [{ members := [tag], alignment := .one, position := 0 },
      { members := [link], alignment := .eight, position := 1 },
      { members := [code], alignment := .one, position := 2 },
      { members := [pair], alignment := .four, position := 3 }] = linkFirst := by
  simp [PackingUnit.sort, List.mergeSort, PackingUnit.precedes, PackingUnit.cluster, linkFirst,
    PowerOfTwo.one, PowerOfTwo.four, PowerOfTwo.eight]

theorem repack_node : ∃ r, (Target.ofProfile .lp64).repack {} node = .ok r ∧
    r.givenLayout.totalSize = 32 ∧ r.layout.totalSize = 24 := by
  obtain ⟨l, hl, given⟩ : ∃ l, (Target.ofProfile .lp64).layout node = .ok l ∧
      l.totalSize = 32 := ⟨_, rfl, rfl⟩
  obtain ⟨l', hl', new⟩ : ∃ l', (Target.ofProfile .lp64).layout (node.withUnits linkFirst) =
      .ok l' ∧ l'.totalSize = 24 := ⟨_, rfl, rfl⟩
  have repacked := Target.repack_of_sorted (a := node) rfl rfl rfl sort_node hl hl' (by omega)
  exact ⟨_, repacked, given, new⟩

theorem repack_conserves_node :
    ∃ r, (Target.ofProfile .lp64).repack {} node = .ok r ∧ r.savings = 8 ∧
      r.givenLayout.paddingBits - r.layout.paddingBits = 64 := by
  obtain ⟨r, h, given, new⟩ := repack_node
  obtain ⟨_, _, _, _, _, saved, _, _, padding⟩ :=
    repack_conserves (Target.ofProfile .lp64) {} node r h
  exact ⟨r, h, by omega, by omega⟩

end AggregateLayout
