import Mathlib
import AggregateLayout.Proofs.Unending

namespace AggregateLayout

open AggregateLayout.Measure (larger whole)

theorem PowerOfTwo.exists_ofInt (k : Nat) : ∃ power, ofInt? (2 ^ k : Nat) = some power := by
  have hpower : 2 ^ k = Nat.pow 2 (2 ^ k).log2 := by
    rw [Nat.log2_two_pow]
    rfl
  exact ⟨_, dif_pos hpower⟩

theorem TypeDescriptor.scalar_eq_ok {size : Quantity} {power : PowerOfTwo} (name : String)
    (isInteger : Bool) (hsize : ¬ size < whole 0)
    (hpower : Measure.power? (larger size (whole 1)) = some power) :
    ∃ d, scalar name size none isInteger = .ok d := by
  unfold scalar make
  rw [dif_neg hsize, Option.getD_none, hpower]
  exact ⟨_, rfl⟩

namespace DebugInfo

open Relation (ReflTransGen TransGen)

variable {units : Units} {names : Option (List String)} {path : String} {e x t : Entry}

/-- A size that is no flag, neither zero nor a power of two. -/
def Awkward (size : Quantity) : Prop :=
  ∃ n : Int, size = .whole n ∧ n ≠ 0 ∧ ∀ k : Nat, n ≠ 2 ^ k

theorem scalar_zero (name : String) (isInteger : Bool) :
    ∃ d, TypeDescriptor.scalar name (Quantity.whole 0) none isInteger = .ok d :=
  TypeDescriptor.scalar_eq_ok name isInteger (by decide) rfl

theorem scalar_flag (name : String) (b isInteger : Bool) :
    ∃ d, TypeDescriptor.scalar name (Quantity.flag b) none isInteger = .ok d := by
  cases b
  · exact TypeDescriptor.scalar_eq_ok name isInteger (by decide) rfl
  · exact TypeDescriptor.scalar_eq_ok name isInteger (by decide) rfl

theorem scalar_power (name : String) (k : Nat) (isInteger : Bool) :
    ∃ d, TypeDescriptor.scalar name (Quantity.whole (2 ^ k)) none isInteger = .ok d := by
  have hpos : (1 : Int) ≤ 2 ^ k := one_le_pow₀ (by decide)
  have hlarger : larger (Quantity.whole (2 ^ k)) (whole 1) = .whole (2 ^ k) :=
    if_neg ((Measure.whole_lt_whole (2 ^ k) 1).not.mpr (not_lt.mpr hpos))
  obtain ⟨power, hpower⟩ := PowerOfTwo.exists_ofInt k
  have hnonneg : ¬ Quantity.whole (2 ^ k) < whole 0 :=
    (Measure.whole_lt_whole (2 ^ k) 0).not.mpr (by omega)
  refine TypeDescriptor.scalar_eq_ok name isInteger hnonneg (?_ : _ = some power)
  rw [hlarger]
  exact_mod_cast hpower

theorem awkward_of_scalar {name : String} {size : Quantity} {isInteger : Bool}
    {fault : TypeFault Quantity} (hsize : e.integer? "byte_size" = some size)
    (h : TypeDescriptor.scalar name size none isInteger = .error fault) : Awkward size := by
  obtain ⟨value, _, hvalue⟩ := Option.bind_eq_some_iff.mp hsize
  unfold AttributeValue.integer? at hvalue
  split at hvalue
  · obtain rfl := Option.some.inj hvalue
    refine ⟨_, rfl, ?_, ?_⟩
    · rintro rfl
      obtain ⟨d, hd⟩ := scalar_zero name isInteger
      cases hd.symm.trans h
    · rintro k rfl
      obtain ⟨d, hd⟩ := scalar_power name k isInteger
      cases hd.symm.trans h
  · next b _ =>
    obtain rfl := Option.some.inj hvalue
    obtain ⟨d, hd⟩ := scalar_flag name b isInteger
    cases hd.symm.trans h
  · cases hvalue

theorem Entry.Faulty.awkward {fault : TypeFault Quantity} (h : t.Faulty fault) :
    (t.role = .base ∨ t.role = .enumeration) ∧
      ∃ size, t.integer? "byte_size" = some size ∧ Awkward size := by
  cases h with
  | base hrole _ hsize h => exact ⟨.inl hrole, _, hsize, awkward_of_scalar hsize h⟩
  | enumeration hrole hsize h => exact ⟨.inr hrole, _, hsize, awkward_of_scalar hsize h⟩

theorem Fails.cases {levels : Nat} {fault : ConversionFault} (h : Fails units levels e fault)
    (hfault : fault ≠ .endless) :
    ∃ cause, fault = .type cause ∧ ∃ x t, ReflTransGen (Enters units) e x ∧ HasType units x t ∧
      t.Faulty cause := by
  induction h with
  | endless => exact absurd rfl hfault
  | @type _ e t cause ht h => exact ⟨cause, rfl, e, t, .refl, ht, h⟩
  | inside hx _ ih =>
    obtain ⟨cause, hcause, x, t, hreaches, ht, h⟩ := ih hfault
    exact ⟨cause, hcause, x, t, .head hx hreaches, ht, h⟩

theorem describe_eq_error (hunits : units.Apart) {fault : ConversionFault}
    (h : (describe path units names).1 = .error fault) :
    ((convertAll units names).run {}).1 = .error fault := by
  rw [describe_fst] at h
  split at h
  · next hrun =>
    rw [hrun]
    exact congrArg Except.error (Except.error.inj h)
  · next done s hrun =>
    obtain ⟨_, hdone⟩ := convertAll_yields names hunits done s hrun
    obtain ⟨name, hname, hnone, _⟩ := nameTaken_of_descriptionOf h
    have hcontains := hdone.named name hname
    rw [Table.contains, hnone] at hcontains
    cases hcontains

theorem describe_ok_or_awkward (path : String) (hunits : units.Apart)
    (hcircles : ∀ e ∈ units.entries, (requested? names e).isSome → ∀ x,
      ReflTransGen (Enters units) e x → ¬ TransGen (Enters units) x x) :
    (∃ d, (describe path units names).1 = .ok d ∧
      (∀ a ∈ d.definitions ++ d.aggregates, ∃ e ∈ units.entries, e.Defines a.name ∧
        Comes units e a) ∧
      ∀ e ∈ units.entries, ∀ name, requested? names e = some name →
        ∃ a ∈ d.aggregates, a.name = name) ∨
    ∃ e ∈ units.entries, ∃ x t fault size, (requested? names e).isSome ∧
      ReflTransGen (Enters units) e x ∧ HasType units x t ∧
      (t.role = .base ∨ t.role = .enumeration) ∧ t.integer? "byte_size" = some size ∧
      Awkward size ∧ t.Faulty fault ∧ (describe path units names).1 = .error (.type fault) := by
  cases h : (describe path units names).1 with
  | ok d =>
    obtain ⟨s, hload⟩ := loaded_of_describe hunits h
    refine .inl ⟨d, rfl, fun a ha => ?_, hload.complete⟩
    obtain ⟨e, he, hdefines, hlookup⟩ := hload.sound.named _ (hload.found a ha)
    exact ⟨e, he, hdefines, (hload.sound.converted e he a hlookup).comes⟩
  | error fault =>
    have hrun := describe_eq_error hunits h
    have hfault : fault ≠ .endless := by
      rintro rfl
      obtain ⟨e, he, hrequested, h⟩ :=
        fails_of_run (convertWithin_endless hrun units.aggregates.length)
      obtain ⟨x, hreaches, hcircle⟩ :=
        exists_circle (mem_aggregates_of_requested he hrequested) h
      exact hcircles e he hrequested x hreaches hcircle
    obtain ⟨e, he, hrequested, hfails⟩ := fails_of_run hrun
    obtain ⟨cause, rfl, x, t, hreaches, ht, hfaulty⟩ := hfails.cases hfault
    obtain ⟨hrole, size, hsize, hawkward⟩ := hfaulty.awkward
    exact .inr ⟨e, he, x, t, cause, size, hrequested, hreaches, ht, hrole, hsize, hawkward, hfaulty,
      rfl⟩

theorem not_enters
    (h : ∀ c ∈ e.children, (units.type? c).all fun t => t.aggregateKind?.isNone && !t.passes) :
    ¬ Enters units e x := by
  rintro ⟨⟨c, hc, hpart⟩, _⟩
  have hplain : ∀ t, units.type? c = some t → t.aggregateKind? = none ∧ t.passes = false := by
    intro t ht
    have hall := h c hc
    rw [ht, Option.all_some, Bool.and_eq_true, Option.isNone_iff_eq_none,
      Bool.not_eq_true'] at hall
    exact hall
  cases hpart with
  | member _ _ ht hleads =>
    obtain ⟨hkind, hpasses⟩ := hplain _ ht
    exact not_leads hkind (.inl hpasses) hleads
  | base _ ht hkind _ =>
    rw [(hplain _ ht).1] at hkind
    cases hkind

def readingUnits : Units :=
  [[structEntry 1 "reading" 16 [memberEntry 2 "value" 4, memberEntry 3 "unit" 5],
    baseEntry 4 "long double" 12, baseEntry 5 "char" 1]]

theorem not_enters_reading : ∀ e ∈ readingUnits.entries, ∀ x, ¬ Enters readingUnits e x := by
  have hplain : ∀ e ∈ readingUnits.entries, ∀ c ∈ e.children,
      (readingUnits.type? c).all fun t => t.aggregateKind?.isNone && !t.passes := by decide
  exact fun e he x => not_enters (hplain e he)

theorem describe_reading : (describe "app.elf" readingUnits none).1 =
    .error (.type (.badAlignment "long double" (.whole 12))) := by
  with_unfolding_all rfl

theorem not_circles_reading :
    ∀ e ∈ readingUnits.entries, (requested? none e).isSome → ∀ x,
      ReflTransGen (Enters readingUnits) e x → ¬ TransGen (Enters readingUnits) x x := by
  intro e he _ x hreaches hcircle
  -- Nothing is entered at all, so the circle would have to start at the entry itself.
  rcases hreaches.cases_head with rfl | ⟨y, hy, _⟩
  · obtain ⟨y, hy, _⟩ := TransGen.head'_iff.mp hcircle
    exact not_enters_reading e he y hy
  · exact not_enters_reading e he y hy

theorem describe_fails_reading :
    (∀ e ∈ readingUnits.entries, ∀ x, ¬ Enters readingUnits e x) ∧
      (describe "app.elf" readingUnits none).1 =
        .error (.type (.badAlignment "long double" (.whole 12))) :=
  ⟨not_enters_reading, describe_reading⟩

theorem describe_ok_or_awkward_reading :
    readingUnits.Apart ∧
      (∀ e ∈ readingUnits.entries, (requested? none e).isSome → ∀ x,
        ReflTransGen (Enters readingUnits) e x → ¬ TransGen (Enters readingUnits) x x) ∧
      ∃ e ∈ readingUnits.entries, ∃ x t fault size, (requested? none e).isSome ∧
        ReflTransGen (Enters readingUnits) e x ∧ HasType readingUnits x t ∧
        (t.role = .base ∨ t.role = .enumeration) ∧ t.integer? "byte_size" = some size ∧
        Awkward size ∧ t.Faulty fault ∧
        (describe "app.elf" readingUnits none).1 = .error (.type fault) := by
  have hunits : readingUnits.Apart := by
    unfold Units.Apart
    decide
  refine ⟨hunits, not_circles_reading, ?_⟩
  refine (describe_ok_or_awkward "app.elf" hunits not_circles_reading).resolve_left ?_
  rintro ⟨d, hd, _⟩
  cases hd.symm.trans describe_reading

end DebugInfo

end AggregateLayout
