import Mathlib
import AggregateLayout.Proofs.Plain

namespace AggregateLayout

variable {μ : Type} [Measure μ]

namespace Target

def nested? (t : Target μ) : TypeRef μ → Option (Aggregate μ)
  | .named name => t.catalog.nested? name
  | .descriptor _ => none
  | .inline a => some a

def flat? (t : Target μ) : TypeRef μ → Option (TypeDescriptor μ)
  | .named name =>
    if (t.catalog.nested? name).isSome then none else (t.catalog.describe name).toOption
  | .descriptor d => some d
  | .inline _ => none

def Nests (t : Target μ) (a b : Aggregate μ) : Prop := ∃ m ∈ a.members, t.nested? m.type = some b

variable {t : Target μ} {nested : Aggregate μ → Layouting μ (TypeDescriptor μ)} {m : Member μ}
  {d : TypeDescriptor μ} {memo memo' : Memo μ}

theorem nested?_ne_some_of_flat? {r : TypeRef μ} {a : Aggregate μ}
    (hd : t.flat? r = some d) : t.nested? r ≠ some a := by
  intro ha
  cases r with
  | named name =>
    simp only [flat?, nested?] at hd ha
    rw [ha] at hd
    cases hd
  | descriptor => cases ha
  | inline => cases hd

theorem typeWith_eq_ok :
    t.typeWith nested m memo = .ok (d, memo') ↔
      ∃ d₀, withDims m d₀ = .ok d ∧
        ((t.flat? m.type = some d₀ ∧ memo = memo') ∨
          ∃ b, t.nested? m.type = some b ∧ nested b memo = .ok (d₀, memo')) := by
  have first (x : Layouting μ (TypeDescriptor μ)) :
      (x >>= fun d => liftM (withDims m d)) memo = .ok (d, memo') ↔
        ∃ d₀, withDims m d₀ = .ok d ∧ x memo = .ok (d₀, memo') := by
    simp only [Layouting.bind_eq_ok, Layouting.lift_eq_ok]
    constructor
    · rintro ⟨d₀, _, hx, hd, rfl⟩
      exact ⟨d₀, hd, hx⟩
    · rintro ⟨d₀, hd, hx⟩
      exact ⟨d₀, _, hx, hd, rfl⟩
  unfold typeWith
  cases htype : m.type with
  | descriptor e =>
    rw [first]
    simp [nested?, flat?, Layouting.pure_eq_ok]
  | inline a =>
    rw [first]
    simp [nested?, flat?]
  | named name =>
    dsimp only
    cases hn : t.catalog.nested? name with
    | some a =>
      rw [first]
      simp [nested?, flat?, hn]
    | none =>
      rw [first]
      simp only [Layouting.lift_eq_ok, mapError_eq_ok, nested?, flat?, hn]
      cases t.catalog.describe name <;> simp [Except.toOption]

end Target

mutual

theorem Aggregate.sameAs_refl : (a : Aggregate Int) → a.sameAs a = true
  | ⟨name, kind, members, packed, disjoint⟩ => by
    simp [Aggregate.sameAs, sameMembers_refl members]
termination_by structural a => a

theorem sameMembers_refl : (members : List (Member Int)) → sameMembers members members = true
  | [] => rfl
  | m :: rest => by simp [sameMembers, Member.sameAs_refl m, sameMembers_refl rest]
termination_by structural members => members

theorem Member.sameAs_refl : (m : Member Int) → m.sameAs m = true
  | ⟨name, type, dims, bits, group⟩ => by simp [Member.sameAs, TypeRef.sameAs_refl type]
termination_by structural m => m

theorem TypeRef.sameAs_refl : (r : TypeRef Int) → r.sameAs r = true
  | .named name => by simp [TypeRef.sameAs]
  | .descriptor d => by simp [TypeRef.sameAs, d.sameAs_refl]
  | .inline a => by simp [TypeRef.sameAs, Aggregate.sameAs_refl a]
termination_by structural r => r

end

namespace Aggregate

variable {a b : Aggregate Int}

theorem sameAs_iff :
    a.sameAs b = true ↔ a.name = b.name ∧ a.kind = b.kind ∧ a.packed = b.packed ∧
      sameMembers a.members b.members = true := by
  cases a
  simp [Aggregate.sameAs, and_assoc]

end Aggregate

theorem sameMembers_iff {ms ns : List (Member Int)} :
    sameMembers ms ns = true ↔ List.Forall₂ (fun m n => m.sameAs n = true) ms ns := by
  induction ms generalizing ns with
  | nil => cases ns <;> simp [sameMembers]
  | cons m rest ih => cases ns <;> simp [sameMembers, ih]

namespace Member

variable {m n : Member Int}

theorem sameAs_iff :
    m.sameAs n = true ↔ m.name = n.name ∧ m.type.sameAs n.type = true ∧ m.dims = n.dims ∧
      m.bits = n.bits ∧ m.group = n.group := by
  cases m
  simp [Member.sameAs, and_assoc]

theorem bare_eq_of_sameAs (h : m.sameAs n = true) : m.bare = n.bare := by
  obtain ⟨hname, htype, hdims, hbits, hgroup⟩ := sameAs_iff.mp h
  have htypeName : m.type.name = n.type.name := by
    cases hm : m.type <;> cases hn : n.type <;> rw [hm, hn] at htype <;>
      simp only [TypeRef.sameAs, beq_iff_eq, Bool.false_eq_true] at htype
    · exact htype
    · next d e =>
      have := congrArg TypeDescriptor.name (TypeDescriptor.plain_eq_of_sameAs htype)
      simpa [TypeRef.name] using this
    · exact (Aggregate.sameAs_iff.mp htype).1
  simp [bare, hname, htypeName, hdims, hbits, hgroup]

end Member

namespace Target

variable {t : Target Int} {r r' : TypeRef Int}

theorem nested?_of_sameAs (h : r.sameAs r' = true) {b : Aggregate Int}
    (hb : t.nested? r = some b) : ∃ b', t.nested? r' = some b' ∧ b.sameAs b' = true := by
  cases r <;> cases r' <;> simp only [TypeRef.sameAs, beq_iff_eq, Bool.false_eq_true] at h
  · subst h
    exact ⟨b, hb, b.sameAs_refl⟩
  · cases hb
  · next a a' =>
    obtain rfl := Option.some.inj hb
    exact ⟨a', rfl, h⟩

theorem flat?_of_sameAs (h : r.sameAs r' = true) {d : TypeDescriptor Int}
    (hd : t.flat? r = some d) : ∃ d', t.flat? r' = some d' ∧ d.plain = d'.plain := by
  cases r <;> cases r' <;> simp only [TypeRef.sameAs, beq_iff_eq, Bool.false_eq_true] at h
  · subst h
    exact ⟨d, hd, rfl⟩
  · next e e' =>
    obtain rfl := Option.some.inj hd
    exact ⟨e', rfl, TypeDescriptor.plain_eq_of_sameAs h⟩
  · cases hd

end Target

end AggregateLayout
