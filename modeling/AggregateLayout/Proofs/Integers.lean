import Mathlib
import AggregateLayout.Proofs.WholeNumbers

namespace AggregateLayout

open AggregateLayout.Measure (whole)

namespace Quantity

def integer (q : Quantity) : Int := q.integer?.getD 0

variable {a b q : Quantity} {n : Int}

theorem IsWhole.integer? (h : q.IsWhole) : q.integer? = some q.integer := by
  obtain ⟨n, hn⟩ := h
  unfold integer
  rw [hn]
  rfl

theorem integer_measure (a : PowerOfTwo) : (a.measure : Quantity).integer = a.measure := by
  unfold integer
  rw [integer?_measure, PowerOfTwo.measure_int]
  rfl

theorem combine_whole (ha : a.IsWhole) (hb : b.IsWhole) (exact : Int → Int → Int)
    (rounded : Float → Float → Float) :
    combine exact rounded a b = .whole (exact a.integer b.integer) :=
  combine_eq ha.integer? hb.integer?

theorem integer_add (ha : a.IsWhole) (hb : b.IsWhole) : (a + b).integer = a.integer + b.integer :=
  congrArg integer (combine_whole ha hb _ _)

theorem integer_sub (ha : a.IsWhole) (hb : b.IsWhole) : (a - b).integer = a.integer - b.integer :=
  congrArg integer (combine_whole ha hb _ _)

theorem integer_mul (ha : a.IsWhole) (hb : b.IsWhole) : (a * b).integer = a.integer * b.integer :=
  congrArg integer (combine_whole ha hb _ _)

theorem integer_floorMod (ha : a.IsWhole) (n : Nat) :
    (Measure.floorMod a n).integer = Measure.floorMod a.integer n :=
  congrArg integer (combine_whole ha (isWhole_whole n) _ _)

theorem IsWhole.floorDiv (ha : a.IsWhole) (n : Nat) : (Measure.floorDiv a n).IsWhole :=
  ha.combine (isWhole_whole n) _ _

theorem integer_floorDiv (ha : a.IsWhole) (n : Nat) :
    (Measure.floorDiv a n).integer = Measure.floorDiv a.integer n :=
  congrArg integer (combine_whole ha (isWhole_whole n) _ _)

theorem compare?_whole (ha : a.IsWhole) (hb : b.IsWhole) :
    compare? a b = some (compare a.integer b.integer) := by
  unfold compare?
  rw [ha.integer?, hb.integer?]

theorem lt_iff (ha : a.IsWhole) (hb : b.IsWhole) : a < b ↔ a.integer < b.integer := by
  change compare? a b = some .lt ↔ _
  rw [compare?_whole ha hb, Option.some.injEq, Int.compare_eq_lt]

theorem le_iff (ha : a.IsWhole) (hb : b.IsWhole) : a ≤ b ↔ a.integer ≤ b.integer := by
  change compare? a b = some .lt ∨ compare? a b = some .eq ↔ _
  rw [compare?_whole ha hb, Option.some.injEq, Option.some.injEq, Int.compare_eq_lt,
    Int.compare_eq_eq, Int.le_iff_lt_or_eq]

theorem beq_eq (ha : a.IsWhole) (hb : b.IsWhole) : (a == b) = (a.integer == b.integer) := by
  change (compare? a b == some .eq) = _
  rw [compare?_whole ha hb, Bool.eq_iff_iff, beq_iff_eq, beq_iff_eq, Option.some.injEq,
    Int.compare_eq_eq]

theorem IsWhole.larger (ha : a.IsWhole) (hb : b.IsWhole) : (Measure.larger a b).IsWhole := by
  unfold Measure.larger
  split
  · exact hb
  · exact ha

theorem IsWhole.smaller (ha : a.IsWhole) (hb : b.IsWhole) : (Measure.smaller a b).IsWhole := by
  unfold Measure.smaller
  split
  · exact hb
  · exact ha

theorem integer_larger (ha : a.IsWhole) (hb : b.IsWhole) :
    (Measure.larger a b).integer = Measure.larger a.integer b.integer := by
  unfold Measure.larger
  rw [apply_ite integer, if_congr (lt_iff ha hb) rfl rfl]

theorem integer_smaller (ha : a.IsWhole) (hb : b.IsWhole) :
    (Measure.smaller a b).integer = Measure.smaller a.integer b.integer := by
  unfold Measure.smaller
  rw [apply_ite integer, if_congr (lt_iff hb ha) rfl rfl]

theorem integer_roundUp (ha : a.IsWhole) (power : PowerOfTwo) :
    (AggregateLayout.roundUp a power).integer = AggregateLayout.roundUp a.integer power :=
  congrArg integer (roundUp_eq ha.integer? power)

theorem isTooLong_iff (h : q.IsWhole) : q.IsTooLong ↔ tooLong ≤ q.integer.natAbs := by
  unfold IsTooLong
  rw [h.integer?]
  simp

end Quantity

namespace Size

theorem integer_nonneg (s : Size Quantity) : ¬ s.val.integer < whole 0 := by
  cases hs : s.val.integer? with
  | none =>
    unfold Quantity.integer
    rw [hs]
    exact lt_irrefl _
  | some n =>
    unfold Quantity.integer
    rw [hs]
    exact (Quantity.lt_zero_iff hs).not.mp s.nonneg

def integral (s : Size Quantity) : Size Int := ⟨s.val.integer, s.integer_nonneg⟩

theorem integral_of {q : Quantity} (h : q.IsWhole) : (Size.of q).integral = .of q.integer := by
  have hzero : q < whole 0 ↔ q.integer < whole 0 := Quantity.lt_iff h (Quantity.isWhole_whole 0)
  unfold Size.of
  by_cases hnegative : q < whole 0
  · rw [dif_pos hnegative, dif_pos (hzero.mp hnegative)]
    rfl
  · rw [dif_neg hnegative, dif_neg (hzero.not.mp hnegative)]
    rfl

end Size

namespace TypeDescriptor

def integral : TypeDescriptor Quantity → TypeDescriptor Int
  | .basic name size alignment kind isInteger =>
    .basic name size.integral alignment kind isInteger
  | .array element count => .array element.integral count.integral

variable {d e : TypeDescriptor Quantity}

@[simp] theorem alignment_integral (d : TypeDescriptor Quantity) :
    d.integral.alignment = d.alignment := by
  induction d with
  | basic => rfl
  | array element count ih => exact ih

@[simp] theorem kind_integral (d : TypeDescriptor Quantity) : d.integral.kind = d.kind := by
  cases d <;> rfl

@[simp] theorem isInteger_integral (d : TypeDescriptor Quantity) :
    d.integral.isInteger = d.isInteger := by
  cases d <;> rfl

theorem size_integral (h : d.IsWhole) : d.integral.size = d.size.integral := by
  induction d with
  | basic => rfl
  | array element count ih =>
    have hsize := h.1.size.isWhole
    unfold integral size
    rw [ih h.1, Size.integral_of (hsize.mul h.2), Quantity.integer_mul hsize h.2]
    rfl

theorem bitSize_integral (h : d.IsWhole) : d.integral.bitSize = d.bitSize.integer := by
  unfold bitSize
  have height : (whole 8 : Quantity).IsWhole := Quantity.isWhole_whole 8
  rw [size_integral h, Quantity.integer_mul h.size.isWhole height]
  rfl

theorem sameAs_integral (hd : d.IsWhole) (he : e.IsWhole) :
    d.integral.sameAs e.integral = d.sameAs e := by
  induction d generalizing e with
  | basic =>
    cases e with
    | basic =>
      unfold integral sameAs
      rw [Quantity.beq_eq hd he]
      rfl
    | array => rfl
  | array element count ih =>
    cases e with
    | basic => rfl
    | array element' count' =>
      unfold integral sameAs
      rw [ih hd.1 he.1, Quantity.beq_eq hd.2 he.2]
      rfl

end TypeDescriptor

mutual

def Aggregate.integral : Aggregate Quantity → Aggregate Int
  | ⟨name, kind, members, packed, disjoint⟩ =>
    ⟨name, kind, integralMembers members, packed, disjoint⟩
termination_by structural a => a

def integralMembers : List (Member Quantity) → List (Member Int)
  | [] => []
  | m :: rest => m.integral :: integralMembers rest
termination_by structural members => members

def Member.integral : Member Quantity → Member Int
  | ⟨name, type, dims, bits, group⟩ =>
    ⟨name, type.integral, dims.map Quantity.integer, bits.map Quantity.integer, group⟩
termination_by structural m => m

def TypeRef.integral : TypeRef Quantity → TypeRef Int
  | .named name => .named name
  | .descriptor d => .descriptor d.integral
  | .inline a => .inline a.integral
termination_by structural r => r

end

theorem integralMembers_eq (members : List (Member Quantity)) :
    integralMembers members = members.map Member.integral := by
  induction members with
  | nil => rfl
  | cons m rest ih =>
    unfold integralMembers
    rw [ih]
    rfl

namespace Aggregate

variable (a : Aggregate Quantity)

@[simp] theorem name_integral : a.integral.name = a.name := by
  cases a
  rfl

@[simp] theorem kind_integral : a.integral.kind = a.kind := by
  cases a
  rfl

@[simp] theorem packed_integral : a.integral.packed = a.packed := by
  cases a
  rfl

@[simp] theorem members_integral : a.integral.members = a.members.map Member.integral := by
  cases a
  exact integralMembers_eq _

@[simp] theorem isUnion_integral : a.integral.isUnion = a.isUnion := by
  unfold isUnion
  rw [kind_integral]

end Aggregate

namespace Member

variable (m : Member Quantity)

@[simp] theorem name_integral : m.integral.name = m.name := by
  cases m
  rfl

@[simp] theorem type_integral : m.integral.type = m.type.integral := by
  cases m
  rfl

@[simp] theorem dims_integral : m.integral.dims = m.dims.map Quantity.integer := by
  cases m
  rfl

@[simp] theorem bits_integral : m.integral.bits = m.bits.map Quantity.integer := by
  cases m
  rfl

@[simp] theorem group_integral : m.integral.group = m.group := by
  cases m
  rfl

@[simp] theorem tag?_integral : m.integral.tag? = m.tag? := by
  unfold tag?
  rw [m.group_integral]

@[simp] theorem isArray_integral : m.integral.isArray = m.isArray := by
  simp [isArray]

end Member

theorem Aggregate.memberNames_integral (a : Aggregate Quantity) :
    a.integral.memberNames = a.memberNames := by
  unfold memberNames
  rw [members_integral, List.map_map]
  exact List.map_congr_left fun m _ => m.name_integral

theorem beq_map_integer {ms ns : List Quantity} (hm : ∀ n ∈ ms, n.IsWhole)
    (hn : ∀ n ∈ ns, n.IsWhole) :
    (ms.map Quantity.integer == ns.map Quantity.integer) = (ms == ns) := by
  induction ms generalizing ns with
  | nil => cases ns <;> rfl
  | cons m rest ih =>
    cases ns with
    | nil => rfl
    | cons n others =>
      obtain ⟨hm, hrest⟩ := List.forall_mem_cons.mp hm
      obtain ⟨hn, hothers⟩ := List.forall_mem_cons.mp hn
      rw [List.map_cons, List.map_cons, List.cons_beq_cons, List.cons_beq_cons, ih hrest hothers,
        Quantity.beq_eq hm hn]

theorem beq_option_integer {m n : Option Quantity} (hm : ∀ q, m = some q → q.IsWhole)
    (hn : ∀ q, n = some q → q.IsWhole) :
    (m.map Quantity.integer == n.map Quantity.integer) = (m == n) := by
  cases m with
  | none => cases n <;> rfl
  | some a =>
    cases n with
    | none => rfl
    | some b => exact (Quantity.beq_eq (hm a rfl) (hn b rfl)).symm

mutual

theorem Aggregate.sameAs_integral : (a : Aggregate Quantity) → ∀ {b : Aggregate Quantity},
    a.IsWhole → b.IsWhole → a.integral.sameAs b.integral = a.sameAs b
  | ⟨name, kind, members, packed, disjoint⟩, ⟨name', kind', members', packed', disjoint'⟩,
      ha, hb => by
    have hmembers : sameMembers (integralMembers members) (integralMembers members') =
        sameMembers members members' :=
      sameMembers_integral members (fun _ hm => ha.member hm) fun _ hm => hb.member hm
    unfold Aggregate.integral Aggregate.sameAs
    rw [hmembers]
termination_by structural a => a

theorem sameMembers_integral : (ms : List (Member Quantity)) → ∀ {ns : List (Member Quantity)},
    (∀ m ∈ ms, m.IsWhole) → (∀ n ∈ ns, n.IsWhole) →
      sameMembers (integralMembers ms) (integralMembers ns) = sameMembers ms ns
  | [], [], _, _ => rfl
  | [], _ :: _, _, _ => rfl
  | _ :: _, [], _, _ => rfl
  | m :: ms, n :: ns, hm, hn => by
    obtain ⟨hm, hms⟩ := List.forall_mem_cons.mp hm
    obtain ⟨hn, hns⟩ := List.forall_mem_cons.mp hn
    unfold integralMembers sameMembers
    rw [Member.sameAs_integral m hm hn, sameMembers_integral ms hms hns]
termination_by structural ms => ms

theorem Member.sameAs_integral : (m : Member Quantity) → ∀ {n : Member Quantity},
    m.IsWhole → n.IsWhole → m.integral.sameAs n.integral = m.sameAs n
  | ⟨name, type, dims, bits, group⟩, ⟨name', type', dims', bits', group'⟩, hm, hn => by
    unfold Member.integral Member.sameAs
    rw [TypeRef.sameAs_integral type hm.type hn.type, beq_map_integer hm.dims hn.dims,
      beq_option_integer (fun q => hm.bits) fun q => hn.bits]
termination_by structural m => m

theorem TypeRef.sameAs_integral : (r : TypeRef Quantity) → ∀ {s : TypeRef Quantity},
    r.IsWhole → s.IsWhole → r.integral.sameAs s.integral = r.sameAs s
  | .named _, .named _, _, _ => rfl
  | .named _, .descriptor _, _, _ => rfl
  | .named _, .inline _, _, _ => rfl
  | .descriptor _, .named _, _, _ => rfl
  | .descriptor d, .descriptor e, hr, hs => by
    cases hr with
    | descriptor hd =>
      cases hs with
      | descriptor he => exact TypeDescriptor.sameAs_integral hd he
  | .descriptor _, .inline _, _, _ => rfl
  | .inline _, .named _, _, _ => rfl
  | .inline _, .descriptor _, _, _ => rfl
  | .inline a, .inline b, hr, hs => by
    cases hr with
    | inline ha =>
      cases hs with
      | inline hb => exact Aggregate.sameAs_integral a ha hb
termination_by structural r => r

end

def MachineProfile.integral (p : MachineProfile Quantity) : MachineProfile Int :=
  { p with
    longDoubleSize := Measure.larger 1 p.longDoubleSize.integer
    longDoubleSize_pos := by
      rw [Measure.larger_int, Measure.whole_int]
      omega }

namespace Table

def mapValues {α β : Type} (f : α → β) (t : Table α) : Table β := t.map fun x => (x.1, f x.2)

theorem find?_mapValues {α β : Type} (f : α → β) (t : Table α) (key : String) :
    (t.mapValues f).find? key = (t.find? key).map f := by
  induction t with
  | nil => rfl
  | cons x rest ih =>
    unfold mapValues at ih ⊢
    rw [List.map_cons]
    unfold find?
    split
    · rfl
    · exact ih

end Table

namespace Catalog

def integral (c : Catalog Quantity) : Catalog Int where
  profile := c.profile.integral
  types := c.types.mapValues TypeDescriptor.integral
  aliases := c.aliases
  aggregates := c.aggregates.mapValues Aggregate.integral

variable (c : Catalog Quantity) (name : String)

theorem nested?_integral : c.integral.nested? name = (c.nested? name).map Aggregate.integral := by
  unfold nested? aggregate?
  rw [apply_ite (Option.map Aggregate.integral)]
  refine if_congr Iff.rfl rfl ?_
  exact Table.find?_mapValues _ _ _

end Catalog

def Target.integral (t : Target Quantity) : Target Int where
  catalog := t.catalog.integral
  maxDepth := t.maxDepth.integer

def Memo.integral (memo : Memo Quantity) : Memo Int :=
  memo.map fun x => (x.1.integral, x.2.integral)

def Memo.WhollyWhole (memo : Memo Quantity) : Prop := ∀ x ∈ memo, x.1.IsWhole ∧ x.2.IsWhole

theorem Memo.find?_integral {memo : Memo Quantity} {a : Aggregate Quantity}
    (hmemo : memo.WhollyWhole) (ha : a.IsWhole) :
    memo.integral.find? a.integral = (memo.find? a).map TypeDescriptor.integral := by
  induction memo with
  | nil => rfl
  | cons x rest ih =>
    obtain ⟨hx, hrest⟩ := List.forall_mem_cons.mp hmemo
    have hrest := ih hrest
    unfold integral find? at hrest ⊢
    rw [List.map_cons, List.find?_cons, List.find?_cons]
    dsimp only
    rw [Aggregate.sameAs_integral x.1 hx.1 ha]
    cases x.1.sameAs a with
    | true => rfl
    | false => exact hrest

end AggregateLayout
