import Mathlib
import AggregateLayout.Proofs.Unusable

namespace AggregateLayout

theorem eraseDups_snoc (xs : List String) (x : String) :
    (xs ++ [x]).eraseDups = if x ∈ xs then xs.eraseDups else xs.eraseDups ++ [x] := by
  rw [List.eraseDups_append, List.removeAll]
  split <;> simp [List.eraseDups_cons, *]

theorem nodup_eraseDups (xs : List String) : xs.eraseDups.Nodup := by
  induction xs using List.reverseRecOn with
  | nil => exact List.nodup_nil
  | append_singleton xs x ih =>
    rw [eraseDups_snoc]
    split
    · exact ih
    · next hx =>
      refine ih.append (List.nodup_singleton x) (List.disjoint_singleton.mpr ?_)
      exact fun hmem => hx (List.mem_eraseDups.mp hmem)

namespace DebugInfo

variable {units : Units} {names : Option (List String)} {s s' : Findings} {e : Entry}
  {a : Aggregate Quantity} {d : Description} {path : String}

/-- The names of the complete aggregates that are asked for, as often as they come. -/
def askedFor (units : Units) (names : Option (List String)) : List String :=
  ((units.entries.filter fun e => e.aggregateKind?.isSome && e.isDefinition).filterMap
    (·.properName?)).filter fun name => names.all (·.contains name)

theorem askedFor_eq : askedFor units names = units.entries.filterMap (requested? names) := by
  unfold askedFor
  rw [List.filterMap_filter, List.filter_filterMap]
  refine congrArg (List.filterMap · units.entries) (funext fun e => ?_)
  unfold requested?
  cases e.aggregateKind? <;> cases e.isDefinition <;> rfl

theorem Yields.of_forall {α : Type} {x : Conversion α} {Q : α → Findings → Prop}
    (h : ∀ a s', Q a s') : Yields x s Q := fun a s' _ => h a s'

theorem names_yield (units : Units) (levels : Nat) (names : Option (List String))
    (entries : List Entry) (seen : List String) (s : Findings) :
    Yields (entries.foldlM (fun done e => do
      match requested? names e with
      | none => return done
      | some name =>
        if done.contains name then return done
        else
          if !(← get).named.contains name then
            let _ ← convert units levels e
          return done ++ [name]) seen.eraseDups) s fun done _ =>
        done = (seen ++ entries.filterMap (requested? names)).eraseDups := by
  induction entries generalizing seen s with
  | nil =>
    refine .pure ?_
    rw [List.filterMap_nil, List.append_nil]
  | cons e rest ih =>
    rw [List.foldlM_cons]
    refine .bind ?_
    cases hname : requested? names e with
    | none =>
      rw [List.filterMap_cons_none hname]
      exact .pure (ih seen s)
    | some name =>
      have hnext := ih (seen ++ [name])
      rw [List.append_assoc, List.singleton_append, eraseDups_snoc] at hnext
      rw [List.filterMap_cons_some hname]
      dsimp only
      split
      · next hmem =>
        rw [List.contains_iff_mem, List.mem_eraseDups] at hmem
        rw [if_pos hmem] at hnext
        exact .pure (hnext s)
      · next hmem =>
        rw [List.contains_iff_mem, List.mem_eraseDups] at hmem
        rw [if_neg hmem] at hnext
        refine .bind (.get ?_)
        split
        · exact .bind (.of_forall fun _ s' => .pure (hnext s'))
        · exact .pure (hnext s)

structure Matched (s : Findings) : Prop where
  keys : s.reportedSizes.keys = s.named.keys
  nodup : s.named.keys.Nodup

theorem lasting_matched : Lasting Matched := by
  intro s s' h _ _ hnamed hsizes
  exact ⟨by rw [hsizes, hnamed, h.keys], hnamed ▸ h.nodup⟩

theorem Matched.note (h : Matched s) (he : ∀ name, e.properName? = some name → e.isDefinition)
    (hname : a.name = e.properName?.getD "") : Matched (note e a s) := by
  unfold DebugInfo.note
  dsimp only
  split
  · exact ⟨h.keys, h.nodup⟩
  · next hempty =>
    cases hproper : e.properName? with
    | none =>
      rw [hname, hproper] at hempty
      exact absurd rfl hempty
    | some name =>
      -- What has a name is complete, so that its size is known.
      have hdef := he name hproper
      simp only [Entry.isDefinition, Bool.and_eq_true] at hdef
      obtain ⟨size, hsize⟩ := Option.isSome_iff_exists.mp hdef.1.2
      rw [hsize]
      refine ⟨?_, Table.nodup_keys_insert h.nodup _ _⟩
      dsimp only
      rw [Table.keys_insert, Table.keys_insert, h.keys]

theorem names_of_descriptionOf {done : List String} (hs : s.Sound units)
    (h : descriptionOf done s = .ok d) :
    d.aggregates.map (·.name) = done ∧
      d.definitions.map (·.name) = s.named.keys.filter (!done.contains ·) ∧
      d.reportedSizes = s.reportedSizes := by
  obtain ⟨aggregates, haggregates, h⟩ := except_bind_eq_ok.mp h
  obtain rfl := Except.ok.inj h
  refine ⟨?_, ?_, rfl⟩
  · have hnames : List.Forall₂ (fun name a => a.name = name) done aggregates :=
      (mapM_eq_ok.mp haggregates).imp fun name a ha =>
        hs.name_eq (Table.mem_of_find? (namedIn_eq_ok.mp ha))
    rw [← List.forall₂_eq_eq_eq, List.forall₂_map_left_iff]
    exact hnames.flip
  · dsimp only
    rw [Table.keys, List.filter_map, List.map_map]
    exact List.map_congr_left fun p hp => hs.name_eq (List.mem_of_mem_filter hp)

theorem matched_of_convertAll {done : List String}
    (h : (convertAll units names).run {} = (.ok done, s)) : Matched s := by
  have htracks := tracks_failsWithin units (maxLevels units) names lasting_matched
    fun e s a he hs hname => hs.note he hname
  exact (htracks.ok (s := {}) ⟨rfl, List.nodup_nil⟩ h).2

theorem reported_once (path : String) (names : Option (List String)) (hunits : units.Apart) :
    (∀ name, (describe path units names).1 ≠ .error (.nameTaken name)) ∧
    ∀ d, (describe path units names).1 = .ok d →
      d.aggregates.map (·.name) = (askedFor units names).eraseDups ∧
      ((d.definitions ++ d.aggregates).map (·.name)).Nodup ∧
      d.reportedSizes.keys.Perm ((d.definitions ++ d.aggregates).map (·.name)) := by
  refine ⟨fun name h => ?_, fun d h => ?_⟩
  · obtain ⟨e, _, _, hfails⟩ := fails_of_run (describe_eq_error hunits h)
    obtain ⟨cause, hcause, _⟩ := hfails.cases nofun
    cases hcause
  · rw [describe_fst] at h
    split at h
    · cases h
    · next done s hrun =>
      obtain ⟨hs, hdone⟩ := convertAll_yields names hunits done s hrun
      obtain ⟨haggregates, hdefinitions, hsizes⟩ := names_of_descriptionOf hs h
      have hmatched := matched_of_convertAll hrun
      have hlist : done = (askedFor units names).eraseDups := by
        rw [askedFor_eq]
        exact names_yield units _ names units.entries [] {} done s hrun
      have hnodup : ((d.definitions ++ d.aggregates).map (·.name)).Nodup := by
        rw [List.map_append, haggregates, hdefinitions]
        refine (hmatched.nodup.filter _).append (hlist ▸ nodup_eraseDups _) fun name h h' => ?_
        have hnew := List.of_mem_filter h
        rw [List.contains_iff_mem.mpr h'] at hnew
        cases hnew
      refine ⟨haggregates.trans hlist, hnodup, ?_⟩
      rw [hsizes, hmatched.keys]
      refine (List.perm_ext_iff_of_nodup hmatched.nodup hnodup).mpr fun name => ?_
      rw [List.map_append, haggregates, hdefinitions, List.mem_append, List.mem_filter]
      by_cases hmem : name ∈ done
      · obtain ⟨a, ha⟩ := Option.isSome_iff_exists.mp (hdone.named name hmem)
        exact iff_of_true (List.mem_map_of_mem (Table.mem_of_find? ha)) (.inr hmem)
      · simp [hmem]

def crateUnits : Units :=
  [[structEntry 1 "item" 1 [memberEntry 2 "c" 3], baseEntry 3 "char" 1,
    structEntry 4 "bag" 1 [memberEntry 5 "item" 1]],
   [structEntry 6 "item" 1 [memberEntry 7 "c" 8], baseEntry 8 "char" 1,
    structEntry 9 "crate" 1 [memberEntry 10 "item" 6]]]

def crateDescription : Description where
  aggregates :=
    [{ name := "bag", members := [{ name := "item", type := .named "item" }] },
      { name := "crate", members := [{ name := "item", type := .named "item" }] }]
  definitions := [item]
  fallbackTypes := [charType]
  reportedSizes := [("item", .stated (.integer 1)), ("bag", .stated (.integer 1)),
    ("crate", .stated (.integer 1))]

theorem reported_once_crate :
    crateUnits.Apart ∧
      (∀ name, (describe "app.elf" crateUnits (some ["crate", "bag"])).1 ≠
        .error (.nameTaken name)) ∧
      (describe "app.elf" crateUnits (some ["crate", "bag"])).1 = .ok crateDescription ∧
      crateDescription.aggregates.map (·.name) =
        (askedFor crateUnits (some ["crate", "bag"])).eraseDups ∧
      ((crateDescription.definitions ++ crateDescription.aggregates).map (·.name)).Nodup ∧
      crateDescription.reportedSizes.keys.Perm
        ((crateDescription.definitions ++ crateDescription.aggregates).map (·.name)) := by
  have hunits : crateUnits.Apart := by
    unfold Units.Apart
    decide
  have hdescribe : (describe "app.elf" crateUnits (some ["crate", "bag"])).1 =
      .ok crateDescription := by with_unfolding_all rfl
  obtain ⟨hnames, hreported⟩ := reported_once "app.elf" (some ["crate", "bag"]) hunits
  exact ⟨hunits, hnames, hdescribe, hreported _ hdescribe⟩

end DebugInfo

end AggregateLayout
