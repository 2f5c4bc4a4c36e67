import Mathlib
import AggregateLayout.Proofs.Integers
import AggregateLayout.Proofs.Occurrences
import AggregateLayout.Proofs.WholeLayouts

namespace AggregateLayout

open Relation (ReflTransGen)
open AggregateLayout.Measure (whole)

theorem TypeDescriptor.not_isTooLong_of_arrayOf {d e : TypeDescriptor Quantity} {q : Quantity}
    (h : TypeDescriptor.arrayOf d q = .ok e) : ¬ q.IsTooLong := by
  intro hlong
  have hwhole : q.IsWhole := hlong.imp fun _ hn => hn.1
  obtain ⟨_, hwritten, _⟩ := except_bind_eq_ok.mp h
  rw [(Quantity.written_eq_error hwhole).mpr ⟨rfl, hlong⟩] at hwritten
  cases hwritten

def Member.ShortLengths (m : Member Quantity) : Prop := ∀ n ∈ m.dims, ¬ n.IsTooLong

theorem shortLengths_of_withDims {m : Member Quantity} {d e : TypeDescriptor Quantity}
    (h : withDims m d = .ok e) : m.ShortLengths := by
  unfold withDims at h
  have hreversed (n : Quantity) : n ∈ m.dims ↔ n ∈ m.dims.reverse := List.mem_reverse.symm
  unfold Member.ShortLengths
  simp only [hreversed]
  generalize m.dims.reverse = dims at h
  induction dims generalizing d with
  | nil => exact fun n hn => (nomatch hn)
  | cons n rest ih =>
    rw [List.foldlM_cons, except_bind_eq_ok] at h
    obtain ⟨d₁, hd₁, h⟩ := h
    have hn := TypeDescriptor.not_isTooLong_of_arrayOf (mapError_eq_ok.mp hd₁)
    exact List.forall_mem_cons.mpr ⟨hn, ih h⟩

namespace Target

variable {t : Target Quantity} {a b : Aggregate Quantity} {m : Member Quantity}
  {d : TypeDescriptor Quantity} {memo memo' : Memo Quantity} {l : Layout Quantity}
  {typed : List (Member Quantity × TypeDescriptor Quantity)} {levels : Nat} {path : List String}
  {keep : Bool}
  {nested : Aggregate Quantity → Layouting Quantity (TypeDescriptor Quantity)}

theorem nested?_integral (t : Target Quantity) (r : TypeRef Quantity) :
    t.integral.nested? r.integral = (t.nested? r).map Aggregate.integral := by
  cases r with
  | named name => exact t.catalog.nested?_integral name
  | descriptor => rfl
  | inline => rfl

theorem nests_integral {c : Aggregate Int} :
    t.integral.Nests a.integral c ↔ ∃ b, t.Nests a b ∧ b.integral = c := by
  unfold Nests
  constructor
  · rintro ⟨_, hmem, hc⟩
    rw [a.members_integral] at hmem
    obtain ⟨m, hm, rfl⟩ := List.mem_map.mp hmem
    rw [m.type_integral, t.nested?_integral, Option.map_eq_some_iff] at hc
    obtain ⟨b, hb, rfl⟩ := hc
    exact ⟨b, ⟨m, hm, hb⟩, rfl⟩
  · rintro ⟨b, ⟨m, hm, hb⟩, rfl⟩
    refine ⟨m.integral, a.members_integral ▸ List.mem_map_of_mem hm, ?_⟩
    rw [m.type_integral, t.nested?_integral, hb]
    rfl

theorem below_integral {c : Aggregate Int} :
    ReflTransGen t.integral.Nests a.integral c ↔
      ∃ b, ReflTransGen t.Nests a b ∧ b.integral = c := by
  constructor
  · intro h
    induction h with
    | refl => exact ⟨a, .refl, rfl⟩
    | tail _ hc ih =>
      obtain ⟨b, hb, rfl⟩ := ih
      obtain ⟨b', hb', rfl⟩ := nests_integral.mp hc
      exact ⟨b', hb.tail hb', rfl⟩
  · rintro ⟨b, hb, rfl⟩
    induction hb with
    | refl => exact .refl
    | tail _ hc ih => exact ih.tail (nests_integral.mpr ⟨_, hc, rfl⟩)

theorem isWhole_nests (ht : t.catalog.IsWhole) (ha : a.IsWhole) (hb : t.Nests a b) :
    b.IsWhole := by
  obtain ⟨m, hm, hb⟩ := hb
  exact isWhole_nested? ht (ha.member hm).type hb

theorem isWhole_below (ht : t.catalog.IsWhole) (ha : a.IsWhole) (hb : ReflTransGen t.Nests a b) :
    b.IsWhole := by
  induction hb with
  | refl => exact ha
  | tail _ hc ih => exact isWhole_nests ht ih hc

variable (t) in
def ShortBelow (a : Aggregate Quantity) : Prop :=
  ∀ b, ReflTransGen t.Nests a b → ∀ m ∈ b.members, m.ShortLengths

theorem ShortBelow.nests (h : t.ShortBelow a) (hb : t.Nests a b) : t.ShortBelow b :=
  fun c hc => h c (.head hb hc)

theorem shortBelow_of_nests (hmembers : ∀ m ∈ a.members, m.ShortLengths)
    (hnested : ∀ b, t.Nests a b → t.ShortBelow b) : t.ShortBelow a := by
  intro b hb
  rcases ReflTransGen.cases_head hb with rfl | ⟨c, hc, hb⟩
  · exact hmembers
  · exact hnested c hc b hb

theorem below_of_sameAs {a b c : Aggregate Int} {t : Target Int} (h : ReflTransGen t.Nests a c)
    (hab : a.sameAs b = true) : ∃ c', ReflTransGen t.Nests b c' ∧ c.sameAs c' = true := by
  induction h with
  | refl => exact ⟨b, .refl, hab⟩
  | tail _ hc ih =>
    obtain ⟨c', hc', hsame⟩ := ih
    obtain ⟨e, he, hsame⟩ := hc.of_sameAs hsame
    exact ⟨e, hc'.tail he, hsame⟩

theorem ShortBelow.of_sameAs (h : t.ShortBelow a) (ht : t.catalog.IsWhole) (ha : a.IsWhole)
    (hb : b.IsWhole) (hab : a.sameAs b = true) : t.ShortBelow b := by
  intro c hc m hm n hn hlong
  have hsame := Aggregate.sameAs_symm ((Aggregate.sameAs_integral a ha hb).trans hab)
  obtain ⟨e', he', hce⟩ := below_of_sameAs (below_integral.mpr ⟨c, hc, rfl⟩) hsame
  obtain ⟨e, he, rfl⟩ := below_integral.mp he'
  have hmembers := sameMembers_iff.mp (Aggregate.sameAs_iff.mp hce).2.2.2
  rw [c.members_integral, e.members_integral, List.forall₂_map_left_iff,
    List.forall₂_map_right_iff] at hmembers
  obtain ⟨m', hm', hmm'⟩ := exists_of_forall₂ hmembers hm
  have hdims := (Member.sameAs_iff.mp hmm').2.2.1
  rw [m.dims_integral, m'.dims_integral] at hdims
  obtain ⟨n', hn', hnn'⟩ := List.mem_map.mp (hdims ▸ List.mem_map_of_mem hn)
  have hwhole := ((isWhole_below ht hb hc).member hm).dims n hn
  have hwhole' := ((isWhole_below ht ha he).member hm').dims n' hn'
  rw [Quantity.isTooLong_iff hwhole, ← hnn', ← Quantity.isTooLong_iff hwhole'] at hlong
  exact h e he m' hm' n' hn' hlong

variable (t) in
def ShortMemo (memo : Memo Quantity) : Prop := ∀ x ∈ memo, x.1.IsWhole ∧ t.ShortBelow x.1

theorem shortMemo_nil : t.ShortMemo [] := fun _ hx => (nomatch hx)

variable (t) in
def KeepsShort (nested : Aggregate Quantity → Layouting Quantity (TypeDescriptor Quantity)) :
    Prop :=
  ∀ b memo d memo', b.IsWhole → t.ShortMemo memo → nested b memo = .ok (d, memo') →
    t.ShortBelow b ∧ t.ShortMemo memo'

theorem KeepsShort.typing (hn : t.KeepsShort nested) (ht : t.catalog.IsWhole)
    (hmembers : ∀ x ∈ typed, x.1.IsWhole) (hmemo : t.ShortMemo memo)
    (h : t.Typing nested memo typed memo') :
    (∀ x ∈ typed, x.1.ShortLengths ∧ ∀ b, t.nested? x.1.type = some b → t.ShortBelow b) ∧
      t.ShortMemo memo' := by
  induction h with
  | nil => exact ⟨fun x hx => (nomatch hx), hmemo⟩
  | @cons memo memo₁ memo₂ m d rest hd _ ih =>
    obtain ⟨hm, hrest⟩ := List.forall_mem_cons.mp hmembers
    obtain ⟨d₀, hdims, hd₀⟩ := typeWith_eq_ok.mp hd
    have hfirst : (∀ b, t.nested? m.type = some b → t.ShortBelow b) ∧ t.ShortMemo memo₁ := by
      rcases hd₀ with ⟨hflat, rfl⟩ | ⟨b, hb, hnested⟩
      · exact ⟨fun b hb => absurd hb (nested?_ne_some_of_flat? hflat), hmemo⟩
      · obtain ⟨hshort, hmemo₁⟩ := hn b memo d₀ memo₁ (isWhole_nested? ht hm.type hb) hmemo hnested
        refine ⟨fun c hc => ?_, hmemo₁⟩
        obtain rfl := Option.some.inj (hb.symm.trans hc)
        exact hshort
    obtain ⟨htyped, hmemo₂⟩ := ih hrest hfirst.2
    have hshort := shortLengths_of_withDims hdims
    exact ⟨List.forall_mem_cons.mpr ⟨⟨hshort, hfirst.1⟩, htyped⟩, hmemo₂⟩

theorem KeepsShort.layoutAt (hn : ∀ path, t.KeepsShort (t.nestedAt keep levels path))
    (ht : t.catalog.IsWhole) (ha : a.IsWhole) (hmemo : t.ShortMemo memo)
    (h : t.layoutAt keep (levels + 1) path a memo = .ok (l, memo')) :
    t.ShortBelow a ∧ t.ShortMemo memo' := by
  obtain ⟨_, _, hwith⟩ := layoutAt_succ_eq_ok.mp h
  obtain ⟨typed, hmembers, htyping, _⟩ := layoutWith_eq_ok.mp hwith
  have hwhole : ∀ x ∈ typed, x.1.IsWhole := fun x hx =>
    ha.member (hmembers ▸ List.mem_map_of_mem hx)
  obtain ⟨htyped, hmemo'⟩ := (hn _).typing ht hwhole hmemo htyping
  refine ⟨shortBelow_of_nests (fun m hm => ?_) fun b hb => ?_, hmemo'⟩
  · obtain ⟨x, hx, rfl⟩ := List.mem_map.mp (hmembers ▸ hm)
    exact (htyped x hx).1
  · obtain ⟨_, hm, hb⟩ := hb
    obtain ⟨x, hx, rfl⟩ := List.mem_map.mp (hmembers ▸ hm)
    exact (htyped x hx).2 b hb

theorem keepsShort_nestedAt (ht : t.catalog.IsWhole) (keep : Bool) (levels : Nat)
    (path : List String) : t.KeepsShort (t.nestedAt keep levels path) := by
  -- What is remembered may be another aggregate with the same numbers, written otherwise.
  have found {b : Aggregate Quantity} {memo : Memo Quantity} {d : TypeDescriptor Quantity}
      (hb : b.IsWhole) (hmemo : t.ShortMemo memo) (hd : memo.find? b = some d) :
      t.ShortBelow b := by
    obtain ⟨x, hx, _⟩ := Option.map_eq_some_iff.mp hd
    obtain ⟨hwhole, hshort⟩ := hmemo x (List.mem_of_find?_eq_some hx)
    exact hshort.of_sameAs ht hwhole hb (by simpa using List.find?_some hx)
  induction levels generalizing path with
  | zero =>
    intro b memo d memo' hb hmemo h
    rcases nestedAt_eq_ok.mp h with ⟨hd, rfl⟩ | ⟨_, l, memo₁, hl, _⟩
    · exact ⟨found hb hmemo hd, hmemo⟩
    · exact absurd hl layoutAt_zero_ne_ok
  | succ levels ih =>
    intro b memo d memo' hb hmemo h
    rcases nestedAt_eq_ok.mp h with ⟨hd, rfl⟩ | ⟨_, l, memo₁, hl, rfl, rfl⟩
    · exact ⟨found hb hmemo hd, hmemo⟩
    · obtain ⟨hshort, hmemo₁⟩ := KeepsShort.layoutAt ih ht hb hmemo hl
      refine ⟨hshort, ?_⟩
      cases keep with
      | false => exact hmemo₁
      | true => exact List.forall_mem_cons.mpr ⟨⟨hb, hshort⟩, hmemo₁⟩

theorem shortBelow_of_layout (ht : t.catalog.IsWhole) (ha : a.IsWhole) (h : t.layout a = .ok l) :
    t.ShortBelow a := by
  obtain ⟨⟨memo, hl⟩, _⟩ := layout_eq_ok.mp h
  cases hlevels : t.levels with
  | zero => exact absurd (hlevels ▸ hl) layoutAt_zero_ne_ok
  | succ levels =>
    rw [hlevels] at hl
    exact (KeepsShort.layoutAt (keepsShort_nestedAt ht true levels) ht ha shortMemo_nil hl).1

end Target

end AggregateLayout
