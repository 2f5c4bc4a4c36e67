import Mathlib
import AggregateLayout.Proofs.BaseNames
import AggregateLayout.Proofs.Describing

namespace AggregateLayout.DebugInfo

variable {units : Units} {names : Option (List String)} {d : Description} {e c t b : Entry}
  {chain : List Entry} {base : String} {a : Aggregate Quantity}

theorem chain_composes {path : String} (hunits : units.Apart) (hn : WellNamed units)
    (h : (describe path units names).1 = .ok d) (ha : Described units d e a) (hc : c ∈ e.children)
    (hrole : c.role = .member) (hstatic : c.isStatic = false) (ht : units.type? c = some t)
    (hchain : TypeChain units b chain t) (hb : b.Base base) (hlength : chain.length ≤ maxChain) :
    (∀ convert s, ∃ s', (typeOf units convert (maxChain + 1) t).run s =
      (.ok (some (.named (chainName base chain), chainDims chain)), s')) ∧
    ∃ m ∈ a.members, (∀ name, c.properName? = some name → m.name = name) ∧
      m.type = .named (chainName base chain) ∧ m.dims = chainDims chain ∧
      ∃ counts : List Int, m.dims.map Quantity.integer? = counts.map some ∧
        ∀ p, ∃ f, (d.catalog p).describe base = .ok f ∧
          (∀ target : Target Quantity, target.catalog = d.catalog p → ∀ nested,
            target.typeWith nested m = target.typeWith nested { m with type := .named base } ∧
            (Loaded.Unshadowed d base → target.typeWith nested m = liftM (withDims m f))) ∧
          ∀ s, f.size.val.integer? = some s → (∀ n ∈ counts, 0 ≤ n) →
            (∃ g, withDims m f = .ok g ∧ g.size.val.integer? = some (counts.prod * s)) ∨
            (∃ n ∈ counts, Quantity.tooLong ≤ n) ∧ withDims m f = .error (.invalid
              { cause := .invalidMember (.badLength (.number .tooManyDigits)),
                member := some m.name }) := by
  have hsteps : chain.length < maxChain + 1 := Nat.lt_succ_of_le hlength
  obtain ⟨s, hload⟩ := loaded_of_describe hunits h
  obtain ⟨m, hm, hname, htype, hdims⟩ := ha.comes.member hc hrole hstatic ht
    (.of_forall fun _ => hchain.readType_eq hb _ hsteps)
  have hrecorded : Recorded units s (chainName base chain) := by
    refine ha.within hload m hm _ ?_
    rw [htype]
    exact .named
  have htarget : t ∈ units.entries := Units.mem_of_type ht
  have hmem : b ∈ units.entries := hchain.mem htarget
  obtain ⟨counts, hcounts⟩ := exists_counts chain
  rw [← hdims] at hcounts
  refine ⟨fun convert s => hchain.typeOf_run hb convert hsteps s, m, hm, hname, htype, hdims,
    counts, hcounts, fun p => ?_⟩
  have hbase : Recorded units s base :=
    (hload.leadsTo_base (p := p) hn hb hchain htarget hrecorded).2
  have hdenotes := hload.denotes?_chain (p := p) hn hb hchain htarget hrecorded
  obtain ⟨f, hf⟩ := hload.describe_base (p := p) hn hb hmem hbase
  refine ⟨f, hf, fun target hcatalog nested => ⟨?_, fun hfree => ?_⟩, fun size hsize hnonneg =>
    withDims_counts hcounts hnonneg hsize⟩
  · rw [Target.typeWith_named nested htype, Target.typeWith_named nested rfl, hcatalog, hdenotes]
    -- The base type is there, so that no name stands in an error.
    cases hnested : (d.catalog p).nested? base with
    | some inner =>
      rw [Catalog.denotes?_eq_aggregate.mpr hnested]
      rfl
    | none =>
      rw [Catalog.denotes?_eq_type.mpr ⟨hnested, hf⟩]
      rfl
  · have hnested := hload.nested?_base (p := p) hn hb hmem hfree
    rw [Target.typeWith_named nested htype, hcatalog, hdenotes,
      Catalog.denotes?_eq_type.mpr ⟨hnested, hf⟩]
    rfl

def subrangeEntry (id count : Int) : Entry where
  id
  tag := "DW_TAG_subrange_type"
  attributes := [numberAttribute "count" count]

def arrayEntry (id type count : Int) : Entry where
  id
  tag := "DW_TAG_array_type"
  attributes := [numberAttribute "type" type]
  children := [subrangeEntry (id + 1) count]
  hasChildren := true

def constEntry (id type : Int) : Entry where
  id
  tag := "DW_TAG_const_type"
  attributes := [numberAttribute "type" type]

def rowsUnits : Units :=
  [[structEntry 1 "rows" 48 [memberEntry 2 "cells" 3], arrayEntry 3 5 2, constEntry 5 6,
    typedefEntry 6 "row" 7, arrayEntry 7 9 3, typedefEntry 9 "cell" 10,
    baseEntry 10 "long int" 8]]

def rows : Aggregate Quantity where
  name := "rows"
  members := [{ name := "cells", type := .named "cell", dims := [.whole 2, .whole 3] }]

def longType : TypeDescriptor Quantity :=
  .basic "long int" ⟨.whole 8, by decide⟩ .eight .scalar true

def rowsDescription : Description where
  aliases := [("cell", "long int")]
  aggregates := [rows]
  fallbackTypes := [longType]
  reportedSizes := [("rows", .stated (.integer 48))]

theorem wellNamed_rows : rowsUnits.Apart ∧ WellNamed rowsUnits := by
  have hunits : rowsUnits.Apart := by
    unfold Units.Apart
    decide
  exact ⟨hunits, .of_distinct hunits (by decide +kernel) (by decide +kernel) (by decide +kernel)⟩

theorem describe_rows : (describe "app.elf" rowsUnits none).1 = .ok rowsDescription := by
  with_unfolding_all rfl

theorem described_rows : Described rowsUnits rowsDescription
    (structEntry 1 "rows" 48 [memberEntry 2 "cells" 3]) rows := by
  refine .named (.head _) (.head _) ⟨rfl, by decide +kernel, rfl⟩ ?_
  refine Filter.eventually_atTop.mpr ⟨1, fun levels hlevels => ?_⟩
  obtain ⟨depth, rfl⟩ := Nat.exists_eq_add_of_le' hlevels
  with_unfolding_all rfl

theorem base_long : (baseEntry 10 "long int" 8).Base "long int" :=
  ⟨rfl, by decide +kernel, .whole 8, rfl, 3, rfl⟩

def rowsChain : List Entry :=
  [arrayEntry 3 5 2, constEntry 5 6, typedefEntry 6 "row" 7, arrayEntry 7 9 3,
    typedefEntry 9 "cell" 10]

theorem typeChain_rows :
    TypeChain rowsUnits (baseEntry 10 "long int" 8) rowsChain (arrayEntry 3 5 2) := by
  refine .cons rfl (t := constEntry 5 6) (by rfl) ?_
  refine .cons rfl (t := typedefEntry 6 "row" 7) (by rfl) ?_
  refine .cons (by decide +kernel) (t := arrayEntry 7 9 3) (by rfl) ?_
  refine .cons rfl (t := typedefEntry 9 "cell" 10) (by rfl) ?_
  exact .cons (by decide +kernel) (t := baseEntry 10 "long int" 8) (by rfl) .nil

theorem unshadowed_rows : Loaded.Unshadowed rowsDescription "long int" := by
  intro spelling hspelling _ a ha
  obtain rfl := List.mem_singleton.mp ha
  have hother : ∀ s ∈ Catalog.spellings, TypeName.normalize rows.name ≠ TypeName.normalize s.2 := by
    decide
  exact hother spelling hspelling

theorem chain_composes_rows :
    rowsUnits.Apart ∧ WellNamed rowsUnits ∧
      (describe "app.elf" rowsUnits none).1 = .ok rowsDescription ∧
      Described rowsUnits rowsDescription (structEntry 1 "rows" 48 [memberEntry 2 "cells" 3]) rows ∧
      TypeChain rowsUnits (baseEntry 10 "long int" 8) rowsChain (arrayEntry 3 5 2) ∧
      (baseEntry 10 "long int" 8).Base "long int" ∧ rowsChain.length ≤ maxChain ∧
      Loaded.Unshadowed rowsDescription "long int" ∧
      ∃ g, (∀ nested, ({ catalog := rowsDescription.catalog .lp64 } : Target Quantity).typeWith
          nested { name := "cells", type := .named "cell", dims := [.whole 2, .whole 3] } =
            pure g) ∧
        g.size.val.integer? = some (2 * 3 * 8) := by
  obtain ⟨hunits, hnamed⟩ := wellNamed_rows
  refine ⟨hunits, hnamed, describe_rows, described_rows, typeChain_rows, base_long, by decide,
    unshadowed_rows, ?_⟩
  obtain ⟨_, m, hm, _, _, _, counts, hcounts, hsizes⟩ :=
    chain_composes hunits hnamed describe_rows described_rows (.head _) rfl rfl rfl typeChain_rows
      base_long (by decide)
  obtain rfl := List.mem_singleton.mp hm
  obtain rfl : [2, 3] = counts := List.map_injective_iff.mpr (Option.some_injective Int) hcounts
  obtain ⟨f, hf, htype, hsize⟩ := hsizes .lp64
  have height : ((rowsDescription.catalog .lp64).describe "long int").toOption.bind
      (·.size.val.integer?) = some 8 := by
    decide +kernel
  rw [hf] at height
  rcases hsize 8 height (by decide) with ⟨g, hg, hgsize⟩ | ⟨⟨n, hn, hlarge⟩, _⟩
  · refine ⟨g, fun nested => ?_, hgsize⟩
    rw [(htype { catalog := rowsDescription.catalog .lp64 } rfl nested).2 unshadowed_rows, hg]
    rfl
  · have hsmall := Quantity.ten_lt_tooLong
    simp only [List.mem_cons, List.not_mem_nil, or_false] at hn
    omega

def shelfUnits : Units :=
  [[structEntry 1 "long" 1 [memberEntry 2 "c" 7],
    structEntry 3 "shelf" 24 [memberEntry 4 "books" 5], arrayEntry 5 8 3,
    baseEntry 7 "char" 1, baseEntry 8 "long int" 8]]

def shelf : Aggregate Quantity where
  name := "shelf"
  members := [{ name := "books", type := .named "long int", dims := [.whole 3] }]

def shelfDescription : Description where
  aggregates := [{ name := "long", members := [{ name := "c", type := .named "char" }] }, shelf]
  fallbackTypes := [charType, longType]
  reportedSizes := [("long", .stated (.integer 1)), ("shelf", .stated (.integer 24))]

theorem wellNamed_shelf : shelfUnits.Apart ∧ WellNamed shelfUnits := by
  have hunits : shelfUnits.Apart := by
    unfold Units.Apart
    decide
  exact ⟨hunits, .of_distinct hunits (by decide +kernel) (by decide +kernel) (by decide +kernel)⟩

theorem size_differs_shelf :
    shelfUnits.Apart ∧ WellNamed shelfUnits ∧
      ((shelfUnits.entries.filter (·.nameKind?.isSome)).map fun e =>
        TypeName.normalize (e.properName?.getD "")).Nodup ∧
      (describe "app.elf" shelfUnits none).1 = .ok shelfDescription ∧
      shelf ∈ shelfDescription.aggregates ∧
      Described shelfUnits shelfDescription (structEntry 3 "shelf" 24 [memberEntry 4 "books" 5])
        shelf ∧
      TypeChain shelfUnits (baseEntry 8 "long int" 8) [arrayEntry 5 8 3] (arrayEntry 5 8 3) ∧
      (baseEntry 8 "long int" 8).Base "long int" ∧
      ((shelfDescription.catalog .lp64).describe "long int").toOption.bind
        (·.size.val.integer?) = some 8 ∧
      (({ catalog := shelfDescription.catalog .lp64 } : Target Quantity).layout shelf).toOption.bind
        (fun l => (l.placement? "books").bind (·.size.val.integer?)) = some 3 := by
  obtain ⟨hunits, hnamed⟩ := wellNamed_shelf
  refine ⟨hunits, hnamed, by decide +kernel, by with_unfolding_all rfl, .tail _ (.head _), ?_, ?_,
    ⟨rfl, by decide +kernel, .whole 8, rfl, 3, rfl⟩, by decide +kernel, by decide +kernel⟩
  · refine .named (.tail _ (.head _)) (.tail _ (.tail _ (.head _)))
      ⟨rfl, by decide +kernel, rfl⟩ ?_
    refine Filter.eventually_atTop.mpr ⟨1, fun levels hlevels => ?_⟩
    obtain ⟨depth, rfl⟩ := Nat.exists_eq_add_of_le' hlevels
    with_unfolding_all rfl
  · exact .cons rfl (t := baseEntry 8 "long int" 8) rfl .nil

end AggregateLayout.DebugInfo
