import Mathlib
import AggregateLayout.Proofs.Nesting
import AggregateLayout.Proofs.WholeNumbers

namespace AggregateLayout

open AggregateLayout.Measure (whole)

def Placement.numbers (q : Placement Quantity) : List Quantity :=
  [q.offset, q.size.val] ++ (q.bits.map fun bits => [bits.offset, bits.width]).getD []

def Placement.IsWhole (q : Placement Quantity) : Prop := ∀ n ∈ q.numbers, n.IsWhole

theorem isWhole_bitPosition {used width bits : Quantity} (hused : used.IsWhole)
    (hwidth : width.IsWhole) (hbits : bits.IsWhole) (direction : BitfieldDirection) :
    (bitPosition direction used width bits).IsWhole := by
  cases direction with
  | lowToHigh => exact hused
  | highToLow => exact (hbits.sub hused).sub hwidth

namespace StorageUnit

structure IsWhole (u : StorageUnit Quantity) : Prop where
  type : u.type.IsWhole
  used : u.used.IsWhole

variable {u : StorageUnit Quantity} {width gap : Quantity}

theorem IsWhole.take (h : u.IsWhole) (hwidth : width.IsWhole) : (u.take width).IsWhole :=
  ⟨h.type, h.used.add hwidth⟩

theorem IsWhole.skip? (h : u.IsWhole) (hgap : u.skip? width = some gap) : gap.IsWhole := by
  unfold StorageUnit.skip? at hgap
  dsimp only at hgap
  split at hgap
  · cases hgap
  · obtain rfl := Option.some.inj hgap
    exact (Quantity.isWhole_whole 8).sub (h.used.floorMod 8)

end StorageUnit

namespace Placer

structure IsWhole (s : Placer Quantity) : Prop where
  cursor : s.cursor.IsNatural
  unit : ∀ u, s.unit = some u → u.IsWhole
  unitStart : s.unitStart.IsWhole
  padding : ∀ r ∈ s.padding, r.length.IsWhole

variable {p : MachineProfile Quantity} {packed : Bool} {m : Member Quantity}
  {d : TypeDescriptor Quantity} {s s' : Placer Quantity} {q : Placement Quantity}
  {width : Quantity}

theorem isWhole_start : ({} : Placer Quantity).IsWhole :=
  ⟨Quantity.isNatural_zero, fun _ hu => (nomatch hu), Quantity.isWhole_whole 0,
    fun _ hr => (nomatch hr)⟩

theorem forall_mem_snoc {padding : List (Padding Quantity)} (h : ∀ r ∈ padding, r.length.IsWhole)
    (new : Padding Quantity) (hnew : new.length.IsWhole) :
    ∀ r ∈ padding ++ [new], r.length.IsWhole :=
  List.forall_mem_append.mpr ⟨h, List.forall_mem_singleton.mpr hnew⟩

theorem IsWhole.align (h : s.IsWhole) (a : PowerOfTwo) : (s.align a).IsWhole := by
  have hstart := h.cursor.roundUp a
  unfold Placer.align
  dsimp only
  split
  · have hgap := hstart.isWhole.sub h.cursor.isWhole
    exact ⟨hstart, h.unit, h.unitStart, forall_mem_snoc h.padding _ hgap⟩
  · exact ⟨hstart, h.unit, h.unitStart, h.padding⟩

theorem IsWhole.close (h : s.IsWhole) : (s.close p).IsWhole := by
  unfold Placer.close
  split
  · exact h
  · next u hu =>
    refine ⟨h.cursor, fun _ hnone => (nomatch hnone), h.unitStart, ?_⟩
    dsimp only
    split
    · exact forall_mem_snoc h.padding _ ((h.unit u hu).type.bitSize.sub (h.unit u hu).used)
    · rw [List.append_nil]
      exact h.padding

theorem IsWhole.closeUnless (h : s.IsWhole) (test : StorageUnit Quantity → Bool) :
    (s.closeUnless p test).IsWhole := by
  unfold Placer.closeUnless
  split
  · exact h
  · split
    · exact h
    · exact h.close

theorem IsWhole.restart (h : s.IsWhole) : (s.restart p width).IsWhole := by
  unfold Placer.restart
  split
  · exact h
  · next u hu =>
    split
    · exact h
    · next gap hgap =>
      have hgap := (h.unit u hu).skip? hgap
      split
      · refine ⟨h.cursor, ?_, h.unitStart, forall_mem_snoc h.padding _ hgap⟩
        rintro _ ⟨⟩
        exact (h.unit u hu).take hgap
      · exact h

theorem IsWhole.openUnit (h : s.IsWhole) (hd : d.IsWhole) (packed : Bool) :
    (s.openUnit packed d).IsWhole := by
  have haligned := h.align (alignmentOf packed d)
  refine ⟨haligned.cursor.add hd.size, ?_, haligned.cursor.isWhole, haligned.padding⟩
  rintro _ ⟨⟩
  exact ⟨hd, Quantity.isWhole_whole 0⟩

theorem IsWhole.takeBits (h : s.IsWhole) (hd : d.IsWhole) (hwidth : width.IsWhole)
    (htake : s.takeBits p packed m width d = (q, s')) : q.IsWhole ∧ s'.IsWhole := by
  have taken {s : Placer Quantity} {u : StorageUnit Quantity} (hs : s.IsWhole) (hu : u.IsWhole) :
      ∀ n ∈ [s.unitStart, d.size.val] ++
        [bitPosition p.bitfieldDirection u.used width u.type.bitSize, width], n.IsWhole := by
    have hposition := isWhole_bitPosition hu.used hwidth hu.type.bitSize p.bitfieldDirection
    simpa using ⟨hs.unitStart, hd.size.isWhole, hposition, hwidth⟩
  have used {s : Placer Quantity} {u : StorageUnit Quantity} (hs : s.IsWhole) (hu : u.IsWhole) :
      ({ s with unit := some (u.take width) } : Placer Quantity).IsWhole := by
    refine ⟨hs.cursor, ?_, hs.unitStart, hs.padding⟩
    rintro _ ⟨⟩
    exact hu.take hwidth
  unfold Placer.takeBits at htake
  cases hunit : s.unit with
  | some u =>
    rw [hunit] at htake
    obtain ⟨rfl, rfl⟩ := Prod.mk.inj htake
    exact ⟨taken h (h.unit u hunit), used h (h.unit u hunit)⟩
  | none =>
    rw [hunit] at htake
    obtain ⟨rfl, rfl⟩ := Prod.mk.inj htake
    have hopen := h.openUnit hd packed
    have hfresh : ({ type := d, used := whole 0 } : StorageUnit Quantity).IsWhole :=
      ⟨hd, Quantity.isWhole_whole 0⟩
    exact ⟨taken hopen hfresh, used hopen hfresh⟩

theorem IsWhole.placePlain (h : s.IsWhole) (hd : d.IsWhole)
    (hplace : s.placePlain p packed m d = (q, s')) : q.IsWhole ∧ s'.IsWhole := by
  obtain ⟨rfl, rfl⟩ := Prod.mk.inj hplace
  have haligned := (h.close (p := p)).align (alignmentOf packed d)
  refine ⟨?_, haligned.cursor.add hd.size, haligned.unit, haligned.unitStart, haligned.padding⟩
  exact List.forall_mem_cons.mpr ⟨haligned.cursor.isWhole, List.forall_mem_singleton.mpr
    hd.size.isWhole⟩

theorem IsWhole.place (h : s.IsWhole) (hm : m.IsWhole) (hd : d.IsWhole)
    (hplace : s.place p packed m d = .ok (q, s')) : q.IsWhole ∧ s'.IsWhole := by
  unfold Placer.place at hplace
  split at hplace
  · next width hbits =>
    obtain ⟨_, _, hplace⟩ := except_bind_eq_ok.mp hplace
    exact (((h.closeUnless _).restart).closeUnless _).takeBits hd (hm.bits hbits)
      (Except.ok.inj hplace)
  · exact h.placePlain hd (Except.ok.inj hplace)

theorem IsWhole.computed (h : s.IsWhole) : s.computed = .ok () := by
  unfold Placer.computed
  rw [h.cursor.isWhole.computed]
  cases hunit : s.unit with
  | none => rfl
  | some u => exact (h.unit u hunit).used.computed

end Placer

section Layouts

variable {p : MachineProfile Quantity} {packed : Bool} {a : Aggregate Quantity}
  {l : Layout Quantity} {typed : List (Member Quantity × TypeDescriptor Quantity)}

theorem isWhole_sum {qs : List Quantity} (h : ∀ q ∈ qs, q.IsWhole) : (Measure.sum qs).IsWhole :=
  List.foldlRecOn qs _ (Quantity.isWhole_whole 0) fun _ hsum q hq => hsum.add (h q hq)

theorem isNatural_foldl_larger {qs : List Quantity} (h : ∀ q ∈ qs, q.IsNatural) :
    (qs.foldl Measure.larger (whole 0)).IsNatural :=
  List.foldlRecOn qs _ Quantity.isNatural_zero fun _ hlargest q hq =>
    Quantity.isNatural_larger hlargest (h q hq)

theorem Padding.isWhole_bitCount {r : Padding Quantity} (h : r.length.IsWhole) :
    r.bitCount.IsWhole := by
  cases r with
  | bytes offset length => exact h.mul (Quantity.isWhole_whole 8)
  | bits => exact h

def WholeTypes (typed : List (Member Quantity × TypeDescriptor Quantity)) : Prop :=
  ∀ x ∈ typed, x.1.IsWhole ∧ x.2.IsWhole

structure Layout.IsWhole (l : Layout Quantity) : Prop where
  totalSize : l.totalSize.IsNatural
  paddingBits : l.paddingBits.IsWhole

theorem PartialStruct.isWhole_add {s s' : PartialStruct Quantity} {m : Member Quantity}
    {d : TypeDescriptor Quantity} (hs : s.placer.IsWhole) (hm : m.IsWhole) (hd : d.IsWhole)
    (hadd : s.add p packed m d = .ok s') : s'.placer.IsWhole := by
  obtain ⟨⟨q, placer⟩, hplace, hadd⟩ := except_bind_eq_ok.mp hadd
  obtain ⟨_, _, hadd⟩ := except_bind_eq_ok.mp hadd
  obtain ⟨_, _, hadd⟩ := except_bind_eq_ok.mp hadd
  obtain rfl := Except.ok.inj hadd
  exact (hs.place hm hd hplace).2

theorem PartialStruct.isWhole_foldlM {s s' : PartialStruct Quantity} (hs : s.placer.IsWhole)
    (htyped : WholeTypes typed)
    (h : typed.foldlM (fun (s : PartialStruct Quantity) x => s.add p packed x.1 x.2) s = .ok s') :
    s'.placer.IsWhole := by
  induction typed generalizing s with
  | nil =>
    obtain rfl := Except.ok.inj h
    exact hs
  | cons x rest ih =>
    obtain ⟨hx, hrest⟩ := List.forall_mem_cons.mp htyped
    rw [List.foldlM_cons, except_bind_eq_ok] at h
    obtain ⟨s₁, hadd, h⟩ := h
    exact ih (isWhole_add hs hx.1 hx.2 hadd) hrest h

def PartialStruct.Takes (p : MachineProfile Quantity) (packed : Bool)
    (typed : List (Member Quantity × TypeDescriptor Quantity)) (s : PartialStruct Quantity) :
    Prop :=
  typed.foldlM (fun (s : PartialStruct Quantity) x => s.add p packed x.1 x.2) {} = .ok s

theorem PartialStruct.Takes.isWhole {s : PartialStruct Quantity} (h : s.Takes p packed typed)
    (htyped : WholeTypes typed) : s.placer.IsWhole :=
  isWhole_foldlM Placer.isWhole_start htyped h

theorem PartialStruct.isWhole_finish {s : PartialStruct Quantity} (hs : s.placer.IsWhole) :
    (s.finish p a).IsWhole := by
  have hend := (hs.close (p := p)).align (if a.packed then .one else s.alignment)
  refine ⟨hend.cursor, isWhole_sum fun q hq => ?_⟩
  obtain ⟨r, hr, rfl⟩ := List.mem_map.mp hq
  exact Padding.isWhole_bitCount (hend.padding r hr)

theorem size_of_overlay {m : Member Quantity} {d : TypeDescriptor Quantity}
    {q : Placement Quantity} (h : overlay p m d = .ok q) : q.size = d.size := by
  unfold overlay at h
  split at h
  · obtain rfl := Except.ok.inj h
    rfl
  · obtain ⟨_, _, h⟩ := except_bind_eq_ok.mp h
    obtain rfl := Except.ok.inj h
    rfl

def largestSize (placements : List (Placement Quantity)) : Quantity :=
  (placements.map (·.size.val)).foldl Measure.larger (whole 0)

theorem isNatural_largestSize {placements : List (Placement Quantity)} (htyped : WholeTypes typed)
    (h : typed.mapM (fun x => overlay p x.1 x.2) = .ok placements) :
    (largestSize placements).IsNatural := by
  refine isNatural_foldl_larger (List.forall_mem_map.mpr ?_)
  have hplaced := mapM_eq_ok.mp h
  clear h
  induction hplaced with
  | nil => exact fun q hq => (nomatch hq)
  | @cons x q xs qs hoverlay _ ih =>
    obtain ⟨hx, hrest⟩ := List.forall_mem_cons.mp htyped
    refine List.forall_mem_cons.mpr ⟨?_, ih hrest⟩
    rw [size_of_overlay hoverlay]
    exact hx.2.size

theorem isWhole_finishUnion {placements : List (Placement Quantity)}
    (h : (largestSize placements).IsNatural) : (finishUnion a placements).IsWhole := by
  have hstart : ({ cursor := largestSize placements } : Placer Quantity).IsWhole :=
    ⟨h, fun _ hu => (nomatch hu), Quantity.isWhole_whole 0, fun _ hr => (nomatch hr)⟩
  have hend := hstart.align (finishUnion a placements).totalAlignment
  refine ⟨hend.cursor, isWhole_sum fun q hq => ?_⟩
  obtain ⟨r, hr, rfl⟩ := List.mem_map.mp hq
  exact Padding.isWhole_bitCount (hend.padding r hr)

theorem Layout.IsWhole.computed (h : l.IsWhole) : l.computed = .ok l := by
  unfold Layout.computed
  rw [h.totalSize.isWhole.computed]
  rfl

theorem Layout.IsWhole.descriptor (h : l.IsWhole) : l.descriptor.IsWhole :=
  TypeDescriptor.isWhole_sizeOf h.totalSize.isWhole

theorem Layout.isWhole_ofTypes (htyped : WholeTypes typed) (h : ofTypes p a typed = .ok l) :
    l.IsWhole := by
  unfold ofTypes at h
  cases hkind : a.kind with
  | struct =>
    rw [hkind] at h
    obtain ⟨s, hs, hl⟩ := except_bind_eq_ok.mp h
    have htakes : s.Takes p a.packed typed := hs
    have hfinish := PartialStruct.isWhole_finish (p := p) (a := a) (htakes.isWhole htyped)
    obtain rfl := Except.ok.inj (hfinish.computed.symm.trans hl)
    exact hfinish
  | union =>
    rw [hkind] at h
    obtain ⟨placements, hplaced, hl⟩ := except_bind_eq_ok.mp h
    have hfinish := isWhole_finishUnion (a := a) (isNatural_largestSize htyped hplaced)
    obtain rfl := Except.ok.inj (hfinish.computed.symm.trans hl)
    exact hfinish

end Layouts

structure Catalog.IsWhole (c : Catalog Quantity) : Prop where
  types : ∀ name d, c.types.find? name = some d → d.IsWhole
  aggregates : ∀ name a, c.aggregates.find? name = some a → a.IsWhole

structure Target.IsWhole (t : Target Quantity) : Prop where
  catalog : t.catalog.IsWhole
  maxDepth : t.maxDepth.IsWhole

def Memo.IsWhole (memo : Memo Quantity) : Prop := ∀ x ∈ memo, x.2.IsWhole

theorem Memo.isWhole_nil : Memo.IsWhole [] := fun _ hx => (nomatch hx)

namespace Target

variable {t : Target Quantity} {r : TypeRef Quantity} {a b : Aggregate Quantity}
  {m : Member Quantity} {d : TypeDescriptor Quantity} {memo memo' : Memo Quantity}
  {l : Layout Quantity} {typed : List (Member Quantity × TypeDescriptor Quantity)}
  {nested : Aggregate Quantity → Layouting Quantity (TypeDescriptor Quantity)}

theorem isWhole_describe (h : t.catalog.IsWhole) {name : String}
    (hd : t.catalog.describe name = .ok d) : d.IsWhole := by
  unfold Catalog.describe at hd
  dsimp only at hd
  split at hd
  · obtain rfl := Except.ok.inj hd
    exact TypeDescriptor.isWhole_sizeOf ⟨_, Quantity.integer?_measure _⟩
  · split at hd
    · next e he =>
      obtain rfl := Except.ok.inj hd
      exact h.types _ _ he
    · cases hd

theorem isWhole_flat? (h : t.catalog.IsWhole) (hr : r.IsWhole) (hd : t.flat? r = some d) :
    d.IsWhole := by
  cases hr with
  | descriptor hwhole =>
    obtain rfl := Option.some.inj hd
    exact hwhole
  | inline => cases hd
  | named name =>
    unfold flat? at hd
    dsimp only at hd
    split at hd
    · cases hd
    · cases hdescribe : t.catalog.describe name with
      | error e =>
        rw [hdescribe] at hd
        cases hd
      | ok e =>
        rw [hdescribe] at hd
        obtain rfl := Option.some.inj hd
        exact isWhole_describe h hdescribe

theorem isWhole_nested? (h : t.catalog.IsWhole) (hr : r.IsWhole) (hb : t.nested? r = some b) :
    b.IsWhole := by
  cases hr with
  | descriptor => cases hb
  | inline hwhole =>
    obtain rfl := Option.some.inj hb
    exact hwhole
  | named name =>
    change t.catalog.nested? name = some b at hb
    unfold Catalog.nested? at hb
    split at hb
    · cases hb
    · exact h.aggregates _ _ hb

def KeepsWhole (nested : Aggregate Quantity → Layouting Quantity (TypeDescriptor Quantity)) :
    Prop :=
  ∀ b memo d memo', b.IsWhole → memo.IsWhole → nested b memo = .ok (d, memo') →
    d.IsWhole ∧ memo'.IsWhole

theorem KeepsWhole.typeWith (hn : KeepsWhole nested) (ht : t.catalog.IsWhole) (hm : m.IsWhole)
    (hmemo : memo.IsWhole) (h : t.typeWith nested m memo = .ok (d, memo')) :
    d.IsWhole ∧ memo'.IsWhole := by
  obtain ⟨d₀, hdims, hd₀⟩ := typeWith_eq_ok.mp h
  have first : d₀.IsWhole ∧ memo'.IsWhole := by
    rcases hd₀ with ⟨hflat, rfl⟩ | ⟨b, hb, hnested⟩
    · exact ⟨isWhole_flat? ht hm.type hflat, hmemo⟩
    · exact hn b memo d₀ memo' (isWhole_nested? ht hm.type hb) hmemo hnested
  refine ⟨?_, first.2⟩
  rcases withDims_whole first.1 hm.dims with ⟨e, he, hwhole, _⟩ | ⟨f, hf, _⟩
  · obtain rfl := Except.ok.inj (he.symm.trans hdims)
    exact hwhole
  · cases hf.symm.trans hdims

theorem KeepsWhole.typing (hn : KeepsWhole nested) (ht : t.catalog.IsWhole)
    (hmembers : ∀ x ∈ typed, x.1.IsWhole) (hmemo : memo.IsWhole)
    (h : t.Typing nested memo typed memo') : WholeTypes typed ∧ memo'.IsWhole := by
  induction h with
  | nil => exact ⟨fun x hx => (nomatch hx), hmemo⟩
  | cons hd _ ih =>
    obtain ⟨hm, hrest⟩ := List.forall_mem_cons.mp hmembers
    obtain ⟨hwhole, hmemo₁⟩ := hn.typeWith ht hm hmemo hd
    obtain ⟨htyped, hmemo'⟩ := ih hrest hmemo₁
    exact ⟨List.forall_mem_cons.mpr ⟨⟨hm, hwhole⟩, htyped⟩, hmemo'⟩

theorem KeepsWhole.layoutAt {keep : Bool} {levels : Nat} {path : List String}
    (hn : ∀ path, KeepsWhole (t.nestedAt keep levels path)) (ht : t.catalog.IsWhole)
    (ha : a.IsWhole) (hmemo : memo.IsWhole)
    (h : t.layoutAt keep (levels + 1) path a memo = .ok (l, memo')) :
    l.IsWhole ∧ memo'.IsWhole := by
  obtain ⟨_, _, hwith⟩ := layoutAt_succ_eq_ok.mp h
  obtain ⟨typed, hmembers, htyping, hl⟩ := layoutWith_eq_ok.mp hwith
  have hwhole : ∀ x ∈ typed, x.1.IsWhole := fun x hx =>
    ha.member (hmembers ▸ List.mem_map_of_mem hx)
  obtain ⟨htyped, hmemo'⟩ := (hn _).typing ht hwhole hmemo htyping
  exact ⟨Layout.isWhole_ofTypes htyped hl, hmemo'⟩

theorem keepsWhole_nestedAt (ht : t.catalog.IsWhole) (keep : Bool) (levels : Nat)
    (path : List String) : KeepsWhole (t.nestedAt keep levels path) := by
  -- What is remembered is whole already, and with no level left nothing else is found.
  have found {b : Aggregate Quantity} {memo : Memo Quantity} {d : TypeDescriptor Quantity}
      (hmemo : memo.IsWhole) (hd : memo.find? b = some d) : d.IsWhole := by
    obtain ⟨x, hx, rfl⟩ := Option.map_eq_some_iff.mp hd
    exact hmemo x (List.mem_of_find?_eq_some hx)
  induction levels generalizing path with
  | zero =>
    intro b memo d memo' _ hmemo h
    rcases nestedAt_eq_ok.mp h with ⟨hd, rfl⟩ | ⟨_, l, memo₁, hl, _⟩
    · exact ⟨found hmemo hd, hmemo⟩
    · exact absurd hl layoutAt_zero_ne_ok
  | succ levels ih =>
    intro b memo d memo' hb hmemo h
    rcases nestedAt_eq_ok.mp h with ⟨hd, rfl⟩ | ⟨_, l, memo₁, hl, rfl, rfl⟩
    · exact ⟨found hmemo hd, hmemo⟩
    · obtain ⟨hwhole, hmemo₁⟩ := KeepsWhole.layoutAt ih ht hb hmemo hl
      refine ⟨hwhole.descriptor, ?_⟩
      cases keep with
      | false => exact hmemo₁
      | true => exact List.forall_mem_cons.mpr ⟨hwhole.descriptor, hmemo₁⟩

theorem isWhole_layoutAt (ht : t.catalog.IsWhole) {keep : Bool} {levels : Nat}
    {path : List String} (ha : a.IsWhole) (hmemo : memo.IsWhole)
    (h : t.layoutAt keep levels path a memo = .ok (l, memo')) : l.IsWhole ∧ memo'.IsWhole := by
  cases levels with
  | zero => exact absurd h layoutAt_zero_ne_ok
  | succ levels => exact KeepsWhole.layoutAt (keepsWhole_nestedAt ht keep levels) ht ha hmemo h

end Target

end AggregateLayout
