import Mathlib
import AggregateLayout.Batch
import AggregateLayout.Proofs.Repacking

namespace AggregateLayout

open AggregateLayout.Measure (whole)

def TooLargeWhen {α : Type} (x : Except NumberFault α) (P : Prop) : Prop :=
  ∀ fault, x = .error fault ↔ fault = .tooLarge ∧ P

namespace TooLargeWhen

variable {α β : Type} {x : Except NumberFault α} {f : α → Except NumberFault β} {P Q : Prop}

theorem ok (a : α) : TooLargeWhen (.ok a) False :=
  fun _ => iff_of_false nofun fun h => h.2

theorem congr (h : TooLargeWhen x P) (hPQ : P ↔ Q) : TooLargeWhen x Q :=
  fun fault => (h fault).trans (and_congr_right fun _ => hPQ)

theorem bind (hx : TooLargeWhen x P) (hf : ∀ a, TooLargeWhen (f a) Q) :
    TooLargeWhen (x >>= f) (P ∨ Q) := by
  intro fault
  rw [except_bind_eq_error, hx fault]
  simp only [fun a => hf a fault]
  constructor
  · rintro (⟨hfault, h⟩ | ⟨_, _, hfault, h⟩)
    · exact ⟨hfault, .inl h⟩
    · exact ⟨hfault, .inr h⟩
  · rintro ⟨hfault, h⟩
    cases hok : x with
    | error other => exact .inl ⟨hfault, ((hx other).mp hok).2⟩
    | ok a =>
      rcases h with h | h
      · exact (nomatch hok.symm.trans ((hx .tooLarge).mpr ⟨rfl, h⟩))
      · exact .inr ⟨a, rfl, hfault, h⟩

theorem map (hx : TooLargeWhen x P) (g : α → β) : TooLargeWhen (x.map g) P := by
  intro fault
  rw [← hx fault]
  cases x <;> simp [Except.map]

theorem nearest (q : Quantity) :
    TooLargeWhen (Measure.nearest q) (Measure.nearest q = .error .tooLarge) := by
  intro fault
  constructor
  · intro h
    have : fault = .tooLarge := by
      change Quantity.nearest q = .error fault at h
      unfold Quantity.nearest at h
      split at h
      · cases h
      · split at h
        · cases h
        · exact (Except.error.inj h).symm
    exact ⟨this, this ▸ h⟩
  · rintro ⟨rfl, h⟩
    exact h

end TooLargeWhen

def Layout.Overflows (l : Layout Quantity) : Prop :=
  (l.totalSize == whole 0) = false ∧
    (Measure.nearest l.paddingBits = .error .tooLarge ∨
      Measure.nearest (l.totalSize * whole 8) = .error .tooLarge)

section Reports

variable {l : Layout Quantity}

theorem wastePercent_tooLarge (l : Layout Quantity) : TooLargeWhen l.wastePercent l.Overflows := by
  unfold Layout.wastePercent Layout.Overflows
  cases l.totalSize == whole 0 with
  | true => exact (TooLargeWhen.ok _).congr (by simp)
  | false =>
    have two := (TooLargeWhen.nearest l.paddingBits).bind fun padding =>
      (TooLargeWhen.nearest (l.totalSize * whole 8)).bind fun total =>
        TooLargeWhen.ok (100 * padding / total)
    exact two.congr (by simp)

theorem listing_tooLarge (l : Layout Quantity) :
    TooLargeWhen (Listing.ofLayout l) l.Overflows :=
  ((wastePercent_tooLarge l).bind fun _ => .ok _).congr (iff_of_eq (or_false _))

theorem packing_tooLarge (r : Repack Quantity) :
    TooLargeWhen (PackingSummary.ofRepack r) (r.givenLayout.Overflows ∨ r.layout.Overflows) := by
  unfold PackingSummary.ofRepack
  refine (wastePercent_tooLarge r.givenLayout).bind fun before => ?_
  cases r.changed with
  | true =>
    have listed := (wastePercent_tooLarge r.layout).bind fun wasteAfter =>
      ((listing_tooLarge r.layout).map some).bind fun listing =>
        TooLargeWhen.ok
          ({ repack := r, wasteBefore := before, wasteAfter, listing } : PackingSummary)
    exact listed.congr (by simp)
  | false =>
    have unlisted := (wastePercent_tooLarge r.layout).bind fun wasteAfter => TooLargeWhen.ok
      ({ repack := r, wasteBefore := before, wasteAfter, listing := none } : PackingSummary)
    exact unlisted.congr (by simp)

theorem report_tooLarge {repack : Option (Repack Quantity)}
    (h : ∀ r, repack = some r → r.givenLayout = l) :
    TooLargeWhen (Report.ofLayout l repack)
      (l.Overflows ∨ ∃ r, repack = some r ∧ r.layout.Overflows) := by
  cases repack with
  | none =>
    have listed := (listing_tooLarge l).bind fun listing =>
      TooLargeWhen.ok ({ listing, packing := none } : Report)
    exact listed.congr (by simp)
  | some r =>
    have packed := ((packing_tooLarge r).map some).bind fun packing =>
      (listing_tooLarge l).bind fun listing =>
        TooLargeWhen.ok ({ listing, packing } : Report)
    obtain rfl := h r rfl
    exact packed.congr (by simp; tauto)

end Reports

namespace Target

variable {t : Target Quantity} {o : BatchOptions} {a : Aggregate Quantity} {l : Layout Quantity}
  {repack : Option (Repack Quantity)} {fault : NumberFault} {x : Outcome}

/-- What an aggregate comes to: the error that stands against it, or a report. -/
inductive Records (t : Target Quantity) (o : BatchOptions) (a : Aggregate Quantity) :
    Outcome → Prop
  | failed {e : LayoutError Quantity} (h : t.examine o a = .error (.invalid e)) :
    Records t o a { name := orAnonymous a.name, result := .error (.layout e) }
  | reported {l : Layout Quantity} {repack : Option (Repack Quantity)} {report : Report}
    (h : t.examine o a = .ok (l, repack)) (hreport : Report.ofLayout l repack = .ok report) :
    Records t o a { name := orAnonymous a.name, result := .ok report }

/-- The number that is in the way of an aggregate: one that is met on the way to its layouts, or
one that a percentage is taken of. -/
inductive Stops (t : Target Quantity) (o : BatchOptions) (a : Aggregate Quantity) :
    NumberFault → Prop
  | examined {fault : NumberFault} (h : t.examine o a = .error (.number fault)) : Stops t o a fault
  | given {l : Layout Quantity} {repack : Option (Repack Quantity)}
    (h : t.examine o a = .ok (l, repack)) (hl : l.Overflows) : Stops t o a .tooLarge
  | packed {l : Layout Quantity} {r : Repack Quantity} (h : t.examine o a = .ok (l, some r))
    (hr : r.layout.Overflows) : Stops t o a .tooLarge

theorem examine_eq_ok (h : t.examine o a = .ok (l, repack)) :
    t.layout a = .ok l ∧ ∀ r, repack = some r → t.repack o.rules a = .ok r := by
  obtain ⟨l', hl, h⟩ := except_bind_eq_ok.mp h
  have rest : (if o.repack then do return (l', some (← t.repack o.rules a)) else return (l', none) :
      Except (LayoutFailure Quantity) _) = .ok (l, repack) := by
    dsimp only at h
    split at h
    · exact (except_bind_eq_ok.mp h).choose_spec.2
    · exact h
  split at rest
  · obtain ⟨r, hr, hpair⟩ := except_bind_eq_ok.mp rest
    obtain ⟨rfl, rfl⟩ := Prod.mk.inj (Except.ok.inj hpair)
    refine ⟨hl, ?_⟩
    rintro _ ⟨⟩
    exact hr
  · obtain ⟨rfl, rfl⟩ := Prod.mk.inj (Except.ok.inj rest)
    exact ⟨hl, fun r hr => (nomatch hr)⟩

theorem givenLayout_of_examine (h : t.examine o a = .ok (l, repack)) :
    ∀ r, repack = some r → r.givenLayout = l := by
  intro r hr
  obtain ⟨hl, hrepack⟩ := examine_eq_ok h
  obtain ⟨_, hl', _⟩ := repack_cases (hrepack r hr)
  exact Except.ok.inj (hl'.symm.trans hl)

theorem reportOn_fst {name : String} (h : ∀ r, repack = some r → r.givenLayout = l) :
    (reportOn o name l repack).1 = Report.ofLayout l repack := by
  unfold reportOn
  split
  · next fault hwaste =>
    obtain ⟨rfl, hl⟩ := (wastePercent_tooLarge l fault).mp hwaste
    exact ((report_tooLarge h _).mpr ⟨rfl, .inl hl⟩).symm
  · rfl

theorem outcome_of_examine (h : t.examine o a = .ok (l, repack)) :
    (t.outcome o a).1 = (Report.ofLayout l repack).map fun report =>
      { name := orAnonymous a.name, result := .ok report } := by
  unfold outcome
  rw [h]
  dsimp only
  rw [reportOn_fst (givenLayout_of_examine h)]

theorem outcome_eq_ok : (t.outcome o a).1 = .ok x ↔ t.Records o a x := by
  constructor
  · intro h
    cases hexamine : t.examine o a with
    | error f =>
      unfold outcome at h
      rw [hexamine] at h
      cases f with
      | invalid e =>
        obtain rfl := Except.ok.inj h
        exact .failed hexamine
      | number fault => cases h
    | ok r =>
      obtain ⟨l, repack⟩ := r
      rw [outcome_of_examine hexamine] at h
      cases hreport : Report.ofLayout l repack with
      | error fault =>
        rw [hreport] at h
        cases h
      | ok report =>
        rw [hreport] at h
        obtain rfl := Except.ok.inj h
        exact .reported hexamine hreport
  · intro h
    cases h with
    | failed h =>
      unfold outcome
      rw [h]
    | reported h hreport =>
      rw [outcome_of_examine h, hreport]
      rfl

theorem outcome_eq_error : (t.outcome o a).1 = .error fault ↔ t.Stops o a fault := by
  constructor
  · intro h
    cases hexamine : t.examine o a with
    | error f =>
      unfold outcome at h
      rw [hexamine] at h
      cases f with
      | invalid e => cases h
      | number other =>
        obtain rfl := Except.error.inj h
        exact .examined hexamine
    | ok r =>
      obtain ⟨l, repack⟩ := r
      rw [outcome_of_examine hexamine] at h
      have failed := ((report_tooLarge (givenLayout_of_examine hexamine)).map _ fault).mp h
      obtain ⟨rfl, hl | ⟨r, rfl, hr⟩⟩ := failed
      · exact .given hexamine hl
      · exact .packed hexamine hr
  · intro h
    cases h with
    | examined h =>
      unfold outcome
      rw [h]
    | given h hl =>
      rw [outcome_of_examine h]
      exact ((report_tooLarge (givenLayout_of_examine h)).map _ _).mpr ⟨rfl, .inl hl⟩
    | packed h hr =>
      rw [outcome_of_examine h]
      exact ((report_tooLarge (givenLayout_of_examine h)).map _ _).mpr ⟨rfl, .inr ⟨_, rfl, hr⟩⟩

end Target

namespace Batch

variable {c : Catalog Quantity} {o : BatchOptions} {aggregates : List (Aggregate Quantity)}

theorem process_fst : (process c o aggregates).1 =
    aggregates.mapM fun a => ((target c o).outcome o a).1 := by
  have results : (aggregates.map ((target c o).outcome o)).mapM (·.1) =
      aggregates.mapM fun a => ((target c o).outcome o a).1 := List.mapM_map
  unfold process
  split
  · next none =>
    obtain rfl := List.isEmpty_iff.mp none
    rfl
  · dsimp only
    rw [results]
    split
    · next fault hfault => exact hfault.symm
    · next outcomes hok => exact hok.symm

end Batch

theorem process_isolates (c : Catalog Quantity) (o : BatchOptions)
    (aggregates : List (Aggregate Quantity)) :
    (∀ outcomes, (Batch.process c o aggregates).1 = .ok outcomes ↔
      List.Forall₂ (fun a x => ((Batch.target c o).outcome o a).1 = .ok x) aggregates outcomes) ∧
    (∀ fault, (Batch.process c o aggregates).1 = .error fault ↔
      ∃ earlier a later, aggregates = earlier ++ a :: later ∧
        (∀ b ∈ earlier, ∃ x, ((Batch.target c o).outcome o b).1 = .ok x) ∧
        ((Batch.target c o).outcome o a).1 = .error fault) ∧
    (∀ a, (∀ x, ((Batch.target c o).outcome o a).1 = .ok x ↔ (Batch.target c o).Records o a x) ∧
      ∀ fault, ((Batch.target c o).outcome o a).1 = .error fault ↔
        (Batch.target c o).Stops o a fault) ∧
    ∀ workers, (Batch.process c { o with workers } aggregates).1 =
      (Batch.process c o aggregates).1 := by
  refine ⟨fun outcomes => ?_, fun fault => ?_, fun a => ?_, fun workers => ?_⟩
  · rw [Batch.process_fst]
    exact mapM_eq_ok
  · rw [Batch.process_fst]
    exact mapM_eq_error
  · exact ⟨fun _ => Target.outcome_eq_ok, fun _ => Target.outcome_eq_error⟩
  · rw [Batch.process_fst, Batch.process_fst]
    rfl

def enormous : Aggregate Quantity where
  name := "enormous"
  members := [{ name := "cells", type := .named "char",
                dims := [.whole (Nat.pow 10 2200), .whole (Nat.pow 10 2200)] }]

def nothing : Aggregate Quantity where
  name := "nothing"

theorem process_stops_enormous :
    (Batch.process (.ofProfile .lp64) {} [nothing]).1.toOption.map List.length = some 1 ∧
      (Batch.process (.ofProfile .lp64) {} [nothing, enormous]).1.toOption.map List.length =
        none := by
  decide +kernel

end AggregateLayout
