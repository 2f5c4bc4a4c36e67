import Mathlib
import AggregateLayout.Proofs.ArraySizes
import AggregateLayout.Proofs.Unusable

namespace AggregateLayout.DebugInfo

/-- Qualifiers, typedefs with a name and arrays, each of the type of the next one and the last one
of the type of an entry. -/
inductive TypeChain (units : Units) (b : Entry) : List Entry → Entry → Prop
  | nil : TypeChain units b [] b
  | cons {e t : Entry} {chain : List Entry} (hpasses : e.passes) (ht : units.type? e = some t)
    (h : TypeChain units b chain t) : TypeChain units b (e :: chain) e

structure Entry.Base (b : Entry) (name : String) : Prop where
  role : b.role = .base
  name : b.properName? = some name
  size : ∃ size, b.integer? "byte_size" = some size ∧ ∃ k : Nat, size.integer? = some (2 ^ k)

def chainDims (chain : List Entry) : List Quantity :=
  (chain.filter (·.role == .array)).flatMap Entry.dimensions

def chainName (base : String) : List Entry → String
  | [] => base
  | e :: chain =>
    if e.role == .typedef && (chainDims chain).isEmpty then e.properName?.getD ""
    else chainName base chain

variable {units : Units} {e t b : Entry} {chain : List Entry} {base name : String} {steps : Nat}
  {s : Findings}

section Cons

variable (base chain)

theorem chainDims_array (h : e.role = .array) :
    chainDims (e :: chain) = e.dimensions ++ chainDims chain := by
  simp [chainDims, h]

theorem chainDims_of_ne (h : e.role ≠ .array) : chainDims (e :: chain) = chainDims chain := by
  simp [chainDims, h]

theorem chainName_of_ne (h : e.role ≠ .typedef) :
    chainName base (e :: chain) = chainName base chain := by
  simp [chainName, h]

end Cons

theorem chainName_typedef (h : e.role = .typedef) (hdims : chainDims chain = []) :
    chainName base (e :: chain) = e.properName?.getD "" := by
  simp [chainName, h, hdims]

theorem chainName_of_dims (hdims : chainDims chain ≠ []) :
    chainName base (e :: chain) = chainName base chain := by
  simp [chainName, hdims]

namespace Entry

theorem passes_cases (h : e.passes) : e.role = .qualifier ∨ e.role = .array ∨
    e.role = .typedef ∧ ∃ name, e.properName? = some name := by
  unfold passes at h
  split at h
  · next hrole => exact .inl hrole
  · next hrole => exact .inr (.inl hrole)
  · next hrole => exact .inr (.inr ⟨hrole, Option.isSome_iff_exists.mp h⟩)
  · cases h

theorem Base.scalar (h : b.Base base) {size : Quantity} (hsize : b.integer? "byte_size" = some size)
    (isInteger : Bool) : ∃ d, TypeDescriptor.scalar base size none isInteger = .ok d := by
  obtain ⟨size', hsize', k, hk⟩ := h.size
  obtain rfl := Option.some.inj (hsize.symm.trans hsize')
  cases size with
  | whole n =>
    obtain rfl := Option.some.inj hk
    exact scalar_power base k isInteger
  | flag x => exact scalar_flag base x isInteger
  | decimal x => cases hk
  | beyond => cases hk

theorem integer_elementCount (e : Entry) : ∃ n, e.elementCount.integer? = some n := by
  have given {key : String} {q : Quantity} (h : e.integer? key = some q) :
      ∃ n, q.integer? = some n := by
    obtain ⟨v, _, hv⟩ := Option.bind_eq_some_iff.mp h
    unfold AttributeValue.integer? at hv
    split at hv <;> cases hv <;> exact ⟨_, rfl⟩
  unfold elementCount
  split
  · next count _ hcount => exact given hcount
  · next upper _ hupper =>
    obtain ⟨n, hn⟩ := given hupper
    obtain ⟨k, hk⟩ : ∃ k, ((e.integer? "lower_bound").getD (.whole 0)).integer? = some k := by
      cases hlower : e.integer? "lower_bound" with
      | none => exact ⟨0, rfl⟩
      | some lower => exact given hlower
    have hlength : upper - (e.integer? "lower_bound").getD (.whole 0) = .whole (n - k) :=
      Quantity.combine_eq hn hk
    exact ⟨n - k + 1, by rw [hlength]; rfl⟩
  · exact ⟨0, rfl⟩

end Entry

theorem exists_counts (chain : List Entry) :
    ∃ counts : List Int, (chainDims chain).map Quantity.integer? = counts.map some := by
  have hwhole : ∀ q ∈ chainDims chain, ∃ n, q.integer? = some n := by
    intro q hq
    obtain ⟨e, _, hq⟩ := List.mem_flatMap.mp hq
    obtain ⟨x, _, rfl⟩ := List.mem_map.mp hq
    exact x.integer_elementCount
  generalize chainDims chain = dims at hwhole
  induction dims with
  | nil => exact ⟨[], rfl⟩
  | cons q rest ih =>
    obtain ⟨⟨n, hn⟩, hrest⟩ := List.forall_mem_cons.mp hwhole
    obtain ⟨counts, hcounts⟩ := ih hrest
    exact ⟨n :: counts, by rw [List.map_cons, List.map_cons, hn, hcounts]⟩

namespace TypeChain

theorem mem (h : TypeChain units b chain e) (he : e ∈ units.entries) : b ∈ units.entries := by
  induction h with
  | nil => exact he
  | cons _ ht _ ih => exact ih (Units.mem_of_type ht)

theorem readType_eq (h : TypeChain units b chain e) (hb : b.Base base)
    (inner : Entry → Aggregate Quantity) (hsteps : chain.length < steps) :
    readType units inner steps e = some (.named (chainName base chain), chainDims chain) := by
  induction h generalizing steps with
  | nil =>
    obtain ⟨size, hsize, _⟩ := hb.size
    obtain ⟨steps, rfl⟩ := Nat.exists_eq_add_of_lt hsteps
    simp only [readType, hb.role, hb.name, hsize]
    rfl
  | @cons e t chain hpasses ht _ ih =>
    obtain ⟨steps, rfl⟩ := Nat.exists_eq_add_of_le' (Nat.one_le_of_lt hsteps)
    have hrest := ih (Nat.lt_of_succ_lt_succ hsteps)
    rcases Entry.passes_cases hpasses with hrole | hrole | ⟨hrole, name, hname⟩
    · simp only [readType, hrole, ht, hrest]
      rw [chainName_of_ne _ _ (by simp [hrole]), chainDims_of_ne _ (by simp [hrole])]
    · simp only [readType, hrole, ht, hrest, Option.map_some]
      rw [chainName_of_ne _ _ (by simp [hrole]), chainDims_array _ hrole]
    · simp only [readType, hrole, ht, hname, hrest]
      rw [chainDims_of_ne _ (by simp [hrole])]
      by_cases hdims : chainDims chain = []
      · rw [hdims, chainName_typedef hrole hdims, hname]
        rfl
      · rw [chainName_of_dims hdims]
        unfold renamed
        split
        · next heq => exact absurd (Prod.mk.inj (Option.some.inj heq)).2 hdims
        · rfl

theorem means (h : TypeChain units b chain t) (hb : b.Base base) (hrole : e.role = .typedef)
    (hname : e.properName? = some name) (ht : units.type? e = some t)
    (hdims : chainDims chain = []) : Means units e name (.synonym (chainName base chain)) := by
  have hread := h.readType_eq hb (fun _ => { name := "" }) (Nat.lt_succ_self _)
  rw [hdims] at hread
  exact .synonym hrole hname ht hread

end TypeChain

theorem noteBase_run (hb : b.Base base) {size : Quantity}
    (hsize : b.integer? "byte_size" = some size) (s : Findings) :
    ∃ s', (noteBase b base size).run s = (.ok (), s') := by
  unfold noteBase
  dsimp only
  rw [run_bind]
  change ∃ s', (if !s.fallbackTypes.any (·.name == base) then _ else _ : Conversion Unit).run s = _
  split
  · obtain ⟨d, hd⟩ := hb.scalar hsize b.isInteger
    have hscalar : scalarOf base size b.isInteger = pure d := by
      unfold scalarOf
      rw [hd]
    change ∃ s', (scalarOf base size b.isInteger >>= _).run s = _
    rw [hscalar]
    exact ⟨_, rfl⟩
  · exact ⟨_, rfl⟩

theorem TypeChain.typeOf_run (h : TypeChain units b chain e) (hb : b.Base base)
    (convert : Entry → Conversion (Aggregate Quantity)) (hsteps : chain.length < steps)
    (s : Findings) : ∃ s', (typeOf units convert steps e).run s =
      (.ok (some (.named (chainName base chain), chainDims chain)), s') := by
  induction h generalizing steps s with
  | nil =>
    obtain ⟨size, hsize, _⟩ := hb.size
    obtain ⟨s', hs'⟩ := noteBase_run hb hsize s
    obtain ⟨steps, rfl⟩ := Nat.exists_eq_add_of_lt hsteps
    simp only [typeOf, hb.role, hb.name, hsize]
    rw [run_bind, hs']
    exact ⟨s', rfl⟩
  | @cons e t chain hpasses ht _ ih =>
    obtain ⟨steps, rfl⟩ := Nat.exists_eq_add_of_le' (Nat.one_le_of_lt hsteps)
    obtain ⟨s', hrest⟩ := ih (Nat.lt_of_succ_lt_succ hsteps) s
    rcases Entry.passes_cases hpasses with hrole | hrole | ⟨hrole, name, hname⟩
    · simp only [typeOf, hrole, ht]
      rw [chainName_of_ne _ _ (by simp [hrole]), chainDims_of_ne _ (by simp [hrole])]
      exact ⟨s', hrest⟩
    · simp only [typeOf, hrole, ht]
      rw [run_bind, hrest, chainName_of_ne _ _ (by simp [hrole]), chainDims_array _ hrole]
      exact ⟨s', rfl⟩
    · simp only [typeOf, hrole, ht, hname]
      rw [run_bind, hrest, chainDims_of_ne _ (by simp [hrole])]
      dsimp only
      by_cases hdims : chainDims chain = []
      · rw [hdims, chainName_typedef hrole hdims, hname]
        exact ⟨_, rfl⟩
      · rw [chainName_of_dims hdims]
        split
        · next heq => exact absurd (Prod.mk.inj (Option.some.inj heq)).2 hdims
        · exact ⟨s', rfl⟩

end AggregateLayout.DebugInfo
