import Mathlib
import AggregateLayout.Profile.Builtin
import AggregateLayout.Proofs.Failing
import AggregateLayout.Proofs.WholeLayouts

/-!
The numbers that are written on the way to a layout, and what comes of one that has too many digits
for that. Apart from layout errors this is all that can go wrong where numbers are whole: a layout
fails on a number exactly when it gets to write one that is too long.
-/

namespace AggregateLayout

open AggregateLayout.Measure (whole)

section Written

variable {p : MachineProfile Quantity} {packed : Bool} {a : Aggregate Quantity}
  {m : Member Quantity} {d : TypeDescriptor Quantity} {width : Quantity} {fault : NumberFault}
  {typed : List (Member Quantity × TypeDescriptor Quantity)}

theorem forM_written_eq_error {ns : List Quantity} (h : ∀ n ∈ ns, n.IsWhole) :
    ns.forM Measure.written = .error fault ↔
      fault = .tooManyDigits ∧ ∃ n ∈ ns, n.IsTooLong := by
  induction ns with
  | nil => exact iff_of_false nofun fun ⟨_, _, hn, _⟩ => (nomatch hn)
  | cons n rest ih =>
    obtain ⟨hn, hrest⟩ := List.forall_mem_cons.mp h
    change (Measure.written n >>= fun _ => rest.forM Measure.written) = _ ↔ _
    rw [except_bind_eq_error, Quantity.written_eq_error hn, ih hrest]
    constructor
    · rintro (⟨hfault, hlong⟩ | ⟨_, _, hfault, k, hk, hlong⟩)
      · exact ⟨hfault, n, .head _, hlong⟩
      · exact ⟨hfault, k, .tail _ hk, hlong⟩
    · rintro ⟨rfl, k, hk, hlong⟩
      cases hw : Measure.written n with
      | error fault =>
        exact .inl ⟨rfl, ((Quantity.written_eq_error hn).mp hw).2⟩
      | ok _ =>
        rcases List.mem_cons.mp hk with rfl | hk
        · exact (nomatch hw.symm.trans ((Quantity.written_eq_error hn).mpr ⟨rfl, hlong⟩))
        · exact .inr ⟨_, rfl, rfl, k, hk, hlong⟩

theorem Placement.written_eq (q : Placement Quantity) :
    q.written = q.numbers.forM Measure.written := by
  unfold written numbers
  cases q.bits with
  | none => rfl
  | some bits =>
    change _ = (do
      Measure.written q.offset
      Measure.written q.size.val
      Measure.written bits.offset
      Measure.written bits.width
      pure ())
    rw [bind_pure_unit]

def Layout.totals (l : Layout Quantity) : List Quantity :=
  [l.totalSize, l.totalAlignment.measure, l.paddingBits]

theorem Layout.IsWhole.written_eq_error {l : Layout Quantity} (h : l.IsWhole) :
    l.written = .error fault ↔
      fault = .tooManyDigits ∧ ∃ n ∈ l.totals, n.IsTooLong := by
  have hwhole : ∀ n ∈ l.totals, n.IsWhole := by
    simp only [totals, List.forall_mem_cons]
    exact ⟨h.totalSize.isWhole, ⟨_, Quantity.integer?_measure _⟩, h.paddingBits,
      fun _ hn => (nomatch hn)⟩
  rw [← forM_written_eq_error hwhole]
  unfold written totals
  change _ ↔ (do
    Measure.written l.totalSize
    Measure.written l.totalAlignment.measure
    Measure.written l.paddingBits
    pure ()) = _
  rw [bind_pure_unit]

structure Member.BadWidth (m : Member Quantity) (width : Quantity) (d : TypeDescriptor Quantity) :
    Prop where
  single : m.isArray = false
  integer : (d.kind != .scalar || !d.isInteger) = false
  outside : (width ≤ whole 0 || d.bitSize < width) = true

theorem checkBitfield_number (hwidth : width.IsWhole) (hd : d.IsWhole) :
    checkBitfield m width d = .error (.number fault) ↔
      fault = .tooManyDigits ∧ m.BadWidth width d ∧ (width.IsTooLong ∨ d.bitSize.IsTooLong) := by
  unfold checkBitfield
  dsimp only
  split
  · next harray => exact iff_of_false nofun fun h => by simp [h.2.1.single] at harray
  split
  · next hkind => exact iff_of_false nofun fun h => by simp [h.2.1.integer] at hkind
  split
  · next harray hkind houtside =>
    have hbad : m.BadWidth width d :=
      ⟨Bool.not_eq_true _ |>.mp harray, Bool.not_eq_true _ |>.mp hkind, houtside⟩
    rw [and_iff_right hbad]
    have hnumbers := @forM_written_eq_error fault [width, d.bitSize]
      (List.forall_mem_cons.mpr ⟨hwidth, List.forall_mem_singleton.mpr hd.bitSize⟩)
    simp only [List.mem_cons, List.not_mem_nil, or_false, exists_eq_or_imp, exists_eq_left]
      at hnumbers
    rw [← hnumbers]
    change _ ↔ (do Measure.written width; Measure.written d.bitSize; pure ()) = _
    cases Measure.written width with
    | error fault' => simp [Except.mapError, bind, Except.bind]
    | ok _ =>
      cases Measure.written d.bitSize <;>
        simp [Except.mapError, bind, Except.bind, pure, Except.pure]
  · next houtside => exact iff_of_false nofun fun h => absurd h.2.1.outside houtside

def Member.Refuses (m : Member Quantity) (d : TypeDescriptor Quantity) (n : Quantity) : Prop :=
  ∃ width, m.bits = some width ∧ m.BadWidth width d ∧ (n = width ∨ n = d.bitSize)

theorem Member.refuses_number (hm : m.IsWhole) (hd : d.IsWhole) :
    (∃ width, m.bits = some width ∧ checkBitfield m width d = .error (.number fault)) ↔
      fault = .tooManyDigits ∧ ∃ n, m.Refuses d n ∧ n.IsTooLong := by
  constructor
  · rintro ⟨width, hbits, hcheck⟩
    obtain ⟨rfl, hbad, hlong⟩ := (checkBitfield_number (hm.bits hbits) hd).mp hcheck
    rcases hlong with hlong | hlong
    · exact ⟨rfl, _, ⟨width, hbits, hbad, .inl rfl⟩, hlong⟩
    · exact ⟨rfl, _, ⟨width, hbits, hbad, .inr rfl⟩, hlong⟩
  · rintro ⟨rfl, n, ⟨width, hbits, hbad, hn⟩, hlong⟩
    refine ⟨width, hbits, (checkBitfield_number (hm.bits hbits) hd).mpr ⟨rfl, hbad, ?_⟩⟩
    rcases hn with rfl | rfl
    · exact .inl hlong
    · exact .inr hlong

theorem Placer.place_eq_error {s : Placer Quantity} {f : LayoutFailure Quantity} :
    s.place p packed m d = .error f ↔
      ∃ width, m.bits = some width ∧ checkBitfield m width d = .error f := by
  unfold place
  cases m.bits with
  | none => simp
  | some width =>
    unfold placeBitfield
    simp only [except_bind_eq_error, Option.some.injEq, exists_eq_left', or_iff_left_iff_imp]
    rintro ⟨_, _, h⟩
    cases h

theorem overlay_eq_error {f : LayoutFailure Quantity} :
    overlay p m d = .error f ↔
      ∃ width, m.bits = some width ∧ checkBitfield m width d = .error f := by
  unfold overlay
  cases m.bits with
  | none => simp [pure, Except.pure]
  | some width =>
    simp only [except_bind_eq_error, Option.some.injEq, exists_eq_left', or_iff_left_iff_imp]
    rintro ⟨_, _, h⟩
    cases h

inductive Layout.Writes (p : MachineProfile Quantity) (a : Aggregate Quantity)
    (typed : List (Member Quantity × TypeDescriptor Quantity)) (m : Member Quantity)
    (d : TypeDescriptor Quantity) : Quantity → Prop
  | refused {n : Quantity} (h : m.Refuses d n) : Writes p a typed m d n
  | placed {s : PartialStruct Quantity} {q : Placement Quantity} {placer : Placer Quantity}
    {n : Quantity} (hkind : a.kind = .struct)
    (hs : s.Takes p a.packed typed)
    (hplace : s.placer.place p a.packed m d = .ok (q, placer)) (hn : n ∈ q.numbers) :
    Writes p a typed m d n

theorem PartialStruct.add_number {s : PartialStruct Quantity} (hs : s.placer.IsWhole)
    (hm : m.IsWhole) (hd : d.IsWhole) :
    s.add p packed m d = .error (.number fault) ↔
      (∃ width, m.bits = some width ∧ checkBitfield m width d = .error (.number fault)) ∨
        ∃ q placer, s.placer.place p packed m d = .ok (q, placer) ∧
          q.written = .error fault := by
  unfold add
  rw [except_bind_eq_error, Placer.place_eq_error, Prod.exists]
  refine or_congr_right (exists_congr fun q => exists_congr fun placer => ?_)
  refine and_congr_right fun hplace => ?_
  dsimp only
  rw [(hs.place hm hd hplace).2.computed]
  cases q.written with
  | ok _ => exact iff_of_false nofun nofun
  | error fault' =>
    change Except.error (LayoutFailure.number fault') = _ ↔ _
    simp

theorem add_number {s : PartialStruct Quantity} (hkind : a.kind = .struct)
    (htyped : WholeTypes typed) (hm : m.IsWhole) (hd : d.IsWhole)
    (hs : s.Takes p a.packed typed) :
    s.add p a.packed m d = .error (.number fault) ↔
      fault = .tooManyDigits ∧ ∃ n, Layout.Writes p a typed m d n ∧ n.IsTooLong := by
  have hwhole := hs.isWhole htyped
  have hplaced {q : Placement Quantity} {placer : Placer Quantity}
      (hplace : s.placer.place p a.packed m d = .ok (q, placer)) := by
    have hnumbers := @forM_written_eq_error fault _ (hwhole.place hm hd hplace).1
    rwa [← q.written_eq] at hnumbers
  rw [PartialStruct.add_number hwhole hm hd, Member.refuses_number hm hd]
  constructor
  · rintro (⟨rfl, n, hrefuses, hlong⟩ | ⟨q, placer, hplace, hwritten⟩)
    · exact ⟨rfl, n, .refused hrefuses, hlong⟩
    · obtain ⟨rfl, n, hn, hlong⟩ := (hplaced hplace).mp hwritten
      exact ⟨rfl, n, .placed hkind hs hplace hn, hlong⟩
  · rintro ⟨rfl, n, hwrites, hlong⟩
    cases hwrites with
    | refused hrefuses => exact .inl ⟨rfl, n, hrefuses, hlong⟩
    | @placed s' q placer _ _ hs' hplace hn =>
      obtain rfl := Except.ok.inj (hs'.symm.trans hs)
      exact .inr ⟨q, placer, hplace, (hplaced hplace).mpr ⟨rfl, n, hn, hlong⟩⟩

theorem overlay_number (hkind : a.kind = .union) (hm : m.IsWhole) (hd : d.IsWhole) :
    overlay p m d = .error (.number fault) ↔
      fault = .tooManyDigits ∧ ∃ n, Layout.Writes p a typed m d n ∧ n.IsTooLong := by
  rw [overlay_eq_error, Member.refuses_number hm hd]
  refine and_congr_right fun _ => exists_congr fun n => and_congr_left fun _ => ?_
  refine ⟨.refused, fun hwrites => ?_⟩
  cases hwrites with
  | refused hrefuses => exact hrefuses
  | placed hstruct => cases hstruct.symm.trans hkind

end Written

namespace Layouting

variable {α β : Type} {memo : Memo Quantity} {e : LayoutFailure Quantity}

theorem bind_eq_error {x : Layouting Quantity α} {f : α → Layouting Quantity β} :
    (x >>= f) memo = .error e ↔
      x memo = .error e ∨ ∃ a memo', x memo = .ok (a, memo') ∧ f a memo' = .error e := by
  change (x memo >>= fun r => f r.1 r.2) = _ ↔ _
  rw [except_bind_eq_error, Prod.exists]

theorem lift_eq_error {x : Except (LayoutFailure Quantity) α} :
    (liftM x : Layouting Quantity α) memo = .error e ↔ x = .error e := by
  change (x >>= fun a => Except.ok (a, memo)) = _ ↔ _
  rw [except_bind_eq_error]
  exact or_iff_left fun ⟨_, _, h⟩ => (nomatch h)

theorem foldlM_eq_error {f : β → α → Layouting Quantity β} {as : List α} {b : β} :
    as.foldlM f b memo = .error e ↔ ∃ earlier a later, as = earlier ++ a :: later ∧
      ∃ b' memo', earlier.foldlM f b memo = .ok (b', memo') ∧ f b' a memo' = .error e := by
  induction as generalizing b memo with
  | nil =>
    refine iff_of_false nofun ?_
    rintro ⟨earlier, a, later, h, _⟩
    exact absurd h.symm (by simp)
  | cons a rest ih =>
    simp only [List.foldlM_cons, bind_eq_error, ih]
    constructor
    · rintro (h | ⟨b₁, memo₁, hb, earlier, c, later, rfl, b', memo', hearlier, hc⟩)
      · exact ⟨[], a, rest, rfl, b, memo, rfl, h⟩
      · refine ⟨a :: earlier, c, later, rfl, b', memo', ?_, hc⟩
        rw [List.foldlM_cons, bind_eq_ok]
        exact ⟨b₁, memo₁, hb, hearlier⟩
    · rintro ⟨earlier, c, later, hsplit, b', memo', hearlier, hc⟩
      cases earlier with
      | nil =>
        obtain ⟨rfl, _⟩ := List.cons.inj hsplit
        obtain ⟨rfl, rfl⟩ := pure_eq_ok.mp hearlier
        exact .inl hc
      | cons x earlier =>
        obtain ⟨rfl, rfl⟩ := List.cons.inj hsplit
        rw [List.foldlM_cons, bind_eq_ok] at hearlier
        obtain ⟨b₁, memo₁, hb, hearlier⟩ := hearlier
        exact .inr ⟨b₁, memo₁, hb, earlier, c, later, rfl, b', memo', hearlier, hc⟩

theorem mapM_eq_error {f : α → Layouting Quantity β} {as : List α} :
    as.mapM f memo = .error e ↔ ∃ earlier a later, as = earlier ++ a :: later ∧
      ∃ bs memo', earlier.mapM f memo = .ok (bs, memo') ∧ f a memo' = .error e := by
  induction as generalizing memo with
  | nil =>
    refine iff_of_false nofun ?_
    rintro ⟨earlier, a, later, h, _⟩
    exact absurd h.symm (by simp)
  | cons a rest ih =>
    simp only [List.mapM_cons, bind_eq_error, ih]
    constructor
    · rintro (h | ⟨b, memo₁, hb, ⟨earlier, c, later, rfl, bs, memo', hearlier, hc⟩ |
        ⟨_, _, _, h⟩⟩)
      · exact ⟨[], a, rest, rfl, [], memo, rfl, h⟩
      · refine ⟨a :: earlier, c, later, rfl, b :: bs, memo', ?_, hc⟩
        rw [List.mapM_cons, bind_eq_ok]
        exact ⟨b, memo₁, hb, bind_eq_ok.mpr ⟨bs, memo', hearlier, rfl⟩⟩
      · cases h
    · rintro ⟨earlier, c, later, hsplit, bs, memo', hearlier, hc⟩
      cases earlier with
      | nil =>
        obtain ⟨rfl, _⟩ := List.cons.inj hsplit
        obtain ⟨rfl, rfl⟩ := pure_eq_ok.mp hearlier
        exact .inl hc
      | cons x earlier =>
        obtain ⟨rfl, rfl⟩ := List.cons.inj hsplit
        rw [List.mapM_cons, bind_eq_ok] at hearlier
        obtain ⟨b, memo₁, hb, hearlier⟩ := hearlier
        obtain ⟨bs', memo₂, hrest, hend⟩ := bind_eq_ok.mp hearlier
        obtain ⟨rfl, rfl⟩ := pure_eq_ok.mp hend
        exact .inr ⟨b, memo₁, hb, .inl ⟨earlier, c, later, rfl, bs', memo₂, hrest, hc⟩⟩

end Layouting

namespace Target

variable {t : Target Quantity} {a b : Aggregate Quantity} {m : Member Quantity}
  {d : TypeDescriptor Quantity} {memo memo' : Memo Quantity} {fault : NumberFault}
  {typed : List (Member Quantity × TypeDescriptor Quantity)} {levels : Nat} {path : List String}
  {nested : Aggregate Quantity → Layouting Quantity (TypeDescriptor Quantity)}

theorem placing_number {α : Type} {x : Layouting Quantity α} :
    placing a m x memo = .error (.number fault) ↔ x memo = .error (.number fault) := by
  unfold placing
  cases x memo with
  | ok r => exact iff_of_false nofun nofun
  | error f => cases f <;> simp [Except.mapError, LayoutFailure.located]

theorem KeepsWhole.typeWith_number (hn : KeepsWhole nested) (ht : t.catalog.IsWhole)
    (hm : m.IsWhole) (hmemo : memo.IsWhole) :
    t.typeWith nested m memo = .error (.number fault) ↔
      ∃ b, t.nested? m.type = some b ∧ nested b memo = .error (.number fault) := by
  have dims {d : TypeDescriptor Quantity} (hd : d.IsWhole) :
      withDims m d ≠ .error (.number fault) := by
    intro hfails
    rcases withDims_whole hd hm.dims with ⟨e, he, _⟩ | ⟨f, hf, _, rfl⟩
    · cases he.symm.trans hfails
    · cases hf.symm.trans hfails
  have first {x : Layouting Quantity (TypeDescriptor Quantity)}
      (hx : ∀ d memo', x memo = .ok (d, memo') → d.IsWhole) :
      (x >>= fun d => liftM (withDims m d)) memo = .error (.number fault) ↔
        x memo = .error (.number fault) := by
    rw [Layouting.bind_eq_error]
    simp only [Layouting.lift_eq_error]
    refine or_iff_left ?_
    rintro ⟨d, memo', hd, hfails⟩
    exact dims (hx d memo' hd) hfails
  have hnested {b : Aggregate Quantity} (hb : t.nested? m.type = some b) :
      ∀ d memo', nested b memo = .ok (d, memo') → d.IsWhole := fun d memo' h =>
    (hn b memo d memo' (isWhole_nested? ht hm.type hb) hmemo h).1
  unfold Target.typeWith
  cases htype : m.type with
  | descriptor e =>
    refine (first fun d memo' h => ?_).trans (iff_of_false ?_ ?_)
    · obtain ⟨rfl, _⟩ := Layouting.pure_eq_ok.mp h
      exact isWhole_flat? ht hm.type (congrArg t.flat? htype)
    · intro h
      cases h
    · rintro ⟨_, hb, _⟩
      cases hb
  | inline c =>
    rw [first (hnested (congrArg t.nested? htype))]
    simp [nested?]
  | named name =>
    dsimp only
    cases hname : t.catalog.nested? name with
    | some c =>
      rw [first (hnested ((congrArg t.nested? htype).trans hname))]
      simp [nested?, hname]
    | none =>
      refine (first fun d memo' h => ?_).trans (iff_of_false ?_ ?_)
      · obtain ⟨hd, _⟩ := Layouting.lift_eq_ok.mp h
        exact isWhole_describe ht (mapError_eq_ok.mp hd)
      · rw [Layouting.lift_eq_error]
        intro h
        cases hd : t.catalog.describe name <;> rw [hd] at h <;> cases h
      · simp [nested?, hname]

theorem exists_ofTypes_struct {p : MachineProfile Quantity} (hkind : a.kind = .struct)
    (htyped : WholeTypes typed) :
    (∃ l, Layout.ofTypes p a typed = .ok l) ↔
      ∃ s : PartialStruct Quantity, s.Takes p a.packed typed := by
  unfold Layout.ofTypes
  rw [hkind]
  dsimp only
  constructor
  · rintro ⟨l, hl⟩
    exact (except_bind_eq_ok.mp hl).imp fun s hs => hs.1
  · rintro ⟨s, hs⟩
    have hwhole := hs.isWhole htyped
    exact ⟨_, except_bind_eq_ok.mpr ⟨s, hs, (PartialStruct.isWhole_finish hwhole).computed⟩⟩

theorem exists_ofTypes_union {p : MachineProfile Quantity} (hkind : a.kind = .union)
    (htyped : WholeTypes typed) :
    (∃ l, Layout.ofTypes p a typed = .ok l) ↔
      ∃ placements, typed.mapM (fun x => overlay p x.1 x.2) = .ok placements := by
  unfold Layout.ofTypes
  rw [hkind]
  dsimp only
  constructor
  · rintro ⟨l, hl⟩
    exact (except_bind_eq_ok.mp hl).imp fun placements hs => hs.1
  · rintro ⟨placements, hs⟩
    have hlargest := isNatural_largestSize htyped hs
    exact ⟨_, except_bind_eq_ok.mpr ⟨placements, hs, (isWhole_finishUnion hlargest).computed⟩⟩

structure ComesTo (t : Target Quantity)
    (nested : Aggregate Quantity → Layouting Quantity (TypeDescriptor Quantity))
    (a : Aggregate Quantity) (memo : Memo Quantity)
    (typed : List (Member Quantity × TypeDescriptor Quantity)) (m : Member Quantity)
    (memo' : Memo Quantity) : Prop where
  members : ∃ later, a.members = typed.map Prod.fst ++ m :: later
  typing : t.Typing nested memo typed memo'
  fits : ∃ l, Layout.ofTypes t.profile a typed = .ok l

theorem ComesTo.isWhole (h : t.ComesTo nested a memo typed m memo') (hn : KeepsWhole nested)
    (ht : t.catalog.IsWhole) (ha : a.IsWhole) (hmemo : memo.IsWhole) :
    m.IsWhole ∧ WholeTypes typed ∧ memo'.IsWhole := by
  obtain ⟨later, hmembers⟩ := h.members
  have hwhole : ∀ n ∈ typed.map Prod.fst ++ m :: later, n.IsWhole :=
    hmembers ▸ fun n hn => ha.member hn
  rw [List.forall_mem_append, List.forall_mem_map, List.forall_mem_cons] at hwhole
  exact ⟨hwhole.2.1, hn.typing ht hwhole.1 hmemo h.typing⟩

def Blocked (t : Target Quantity)
    (nested : Aggregate Quantity → Layouting Quantity (TypeDescriptor Quantity))
    (a : Aggregate Quantity) (typed : List (Member Quantity × TypeDescriptor Quantity))
    (m : Member Quantity) (memo : Memo Quantity) (fault : NumberFault) : Prop :=
  t.typeWith nested m memo = .error (.number fault) ∨
    ∃ d memo', t.typeWith nested m memo = .ok (d, memo') ∧ fault = .tooManyDigits ∧
      ∃ n, Layout.Writes t.profile a typed m d n ∧ n.IsTooLong

theorem KeepsWhole.earlier {later : List (Member Quantity)} (hn : KeepsWhole nested)
    (ht : t.catalog.IsWhole) (ha : a.IsWhole) (hmemo : memo.IsWhole)
    (hmembers : a.members = typed.map Prod.fst ++ later)
    (h : t.Typing nested memo typed memo') : WholeTypes typed ∧ memo'.IsWhole :=
  hn.typing ht (fun _ hx => ha.member (hmembers ▸ List.mem_append_left _ (List.mem_map_of_mem hx)))
    hmemo h

theorem KeepsWhole.struct_number (hn : KeepsWhole nested) (ht : t.catalog.IsWhole)
    (ha : a.IsWhole) (hmemo : memo.IsWhole) (hkind : a.kind = .struct) :
    t.layoutWith nested a memo = .error (.number fault) ↔
      ∃ typed m memo', t.ComesTo nested a memo typed m memo' ∧
        t.Blocked nested a typed m memo' fault := by
  unfold layoutWith Blocked
  rw [hkind]
  dsimp only
  rw [Layouting.bind_eq_error, or_iff_left, Layouting.foldlM_eq_error]
  · simp only [foldlM_add_eq_ok, placing_number, Layouting.bind_eq_error,
      Layouting.lift_eq_error]
    constructor
    · rintro ⟨earlier, m, later, hmembers, s, memo', ⟨typed, rfl, htyping, hs⟩, hfails⟩
      obtain ⟨htyped, hmemo'⟩ := hn.earlier ht ha hmemo hmembers htyping
      have hm : m.IsWhole := ha.member (hmembers ▸ List.mem_append_right _ (.head _))
      refine ⟨typed, m, memo', ⟨⟨later, hmembers⟩, htyping,
        (exists_ofTypes_struct hkind htyped).mpr ⟨s, hs⟩⟩, hfails.imp_right ?_⟩
      rintro ⟨d, memo₂, hd, hadd⟩
      have hdwhole := (hn.typeWith ht hm hmemo' hd).1
      exact ⟨d, memo₂, hd, (add_number hkind htyped hm hdwhole hs).mp hadd⟩
    · rintro ⟨typed, m, memo', hreach, hblocked⟩
      obtain ⟨hm, htyped, hmemo'⟩ := hreach.isWhole hn ht ha hmemo
      obtain ⟨later, hmembers⟩ := hreach.members
      obtain ⟨s, hs⟩ := (exists_ofTypes_struct hkind htyped).mp hreach.fits
      refine ⟨_, m, later, hmembers, s, memo', ⟨typed, rfl, hreach.typing, hs⟩,
        hblocked.imp_right ?_⟩
      rintro ⟨d, memo₂, hd, hwrites⟩
      have hdwhole := (hn.typeWith ht hm hmemo' hd).1
      exact ⟨d, memo₂, hd, (add_number hkind htyped hm hdwhole hs).mpr hwrites⟩
  · rintro ⟨s, memo', hs, hfails⟩
    obtain ⟨typed, hmembers, htyping, hs⟩ := foldlM_add_eq_ok.mp hs
    have htyped := (hn.earlier ht ha hmemo (hmembers.symm.trans (List.append_nil _).symm) htyping).1
    have htakes : s.Takes t.profile a.packed typed := hs
    have hwhole := htakes.isWhole htyped
    rw [Layouting.lift_eq_error, (PartialStruct.isWhole_finish hwhole).computed] at hfails
    cases hfails

theorem KeepsWhole.union_number (hn : KeepsWhole nested) (ht : t.catalog.IsWhole)
    (ha : a.IsWhole) (hmemo : memo.IsWhole) (hkind : a.kind = .union) :
    t.layoutWith nested a memo = .error (.number fault) ↔
      ∃ typed m memo', t.ComesTo nested a memo typed m memo' ∧
        t.Blocked nested a typed m memo' fault := by
  unfold layoutWith Blocked
  rw [hkind]
  dsimp only
  rw [Layouting.bind_eq_error, or_iff_left, Layouting.mapM_eq_error]
  · simp only [mapM_overlay_eq_ok, placing_number, Layouting.bind_eq_error,
      Layouting.lift_eq_error]
    constructor
    · rintro ⟨earlier, m, later, hmembers, placements, memo', ⟨typed, rfl, htyping, hs⟩, hfails⟩
      obtain ⟨htyped, hmemo'⟩ := hn.earlier ht ha hmemo hmembers htyping
      have hm : m.IsWhole := ha.member (hmembers ▸ List.mem_append_right _ (.head _))
      refine ⟨typed, m, memo', ⟨⟨later, hmembers⟩, htyping,
        (exists_ofTypes_union hkind htyped).mpr ⟨placements, hs⟩⟩, hfails.imp_right ?_⟩
      rintro ⟨d, memo₂, hd, hoverlay⟩
      have hdwhole := (hn.typeWith ht hm hmemo' hd).1
      exact ⟨d, memo₂, hd, (overlay_number hkind hm hdwhole).mp hoverlay⟩
    · rintro ⟨typed, m, memo', hreach, hblocked⟩
      obtain ⟨hm, htyped, hmemo'⟩ := hreach.isWhole hn ht ha hmemo
      obtain ⟨later, hmembers⟩ := hreach.members
      obtain ⟨placements, hs⟩ := (exists_ofTypes_union hkind htyped).mp hreach.fits
      refine ⟨_, m, later, hmembers, placements, memo', ⟨typed, rfl, hreach.typing, hs⟩,
        hblocked.imp_right ?_⟩
      rintro ⟨d, memo₂, hd, hwrites⟩
      have hdwhole := (hn.typeWith ht hm hmemo' hd).1
      exact ⟨d, memo₂, hd, (overlay_number hkind hm hdwhole).mpr hwrites⟩
  · rintro ⟨placements, memo', hs, hfails⟩
    obtain ⟨typed, hmembers, htyping, hs⟩ := mapM_overlay_eq_ok.mp hs
    have htyped := (hn.earlier ht ha hmemo (hmembers.symm.trans (List.append_nil _).symm) htyping).1
    rw [Layouting.lift_eq_error,
      (isWhole_finishUnion (isNatural_largestSize htyped hs)).computed] at hfails
    cases hfails

theorem KeepsWhole.layoutWith_number (hn : KeepsWhole nested) (ht : t.catalog.IsWhole)
    (ha : a.IsWhole) (hmemo : memo.IsWhole) :
    t.layoutWith nested a memo = .error (.number fault) ↔
      ∃ typed m memo', t.ComesTo nested a memo typed m memo' ∧
        t.Blocked nested a typed m memo' fault := by
  cases hkind : a.kind with
  | struct => exact hn.struct_number ht ha hmemo hkind
  | union => exact hn.union_number ht ha hmemo hkind

variable (t) in
inductive Writes : Nat → List String → Memo Quantity → Aggregate Quantity → Quantity → Prop
  | deep {path : List String} {memo : Memo Quantity} {a : Aggregate Quantity}
    (hclear : checkCycle path a = .ok ()) : Writes 0 path memo a t.maxDepth
  | member {levels : Nat} {path : List String} {memo memo' memo₂ : Memo Quantity}
    {a : Aggregate Quantity} {typed : List (Member Quantity × TypeDescriptor Quantity)}
    {m : Member Quantity} {d : TypeDescriptor Quantity} {n : Quantity}
    (hclear : checkCycle path a = .ok ()) (hnames : checkNames a [] a.members = .ok ())
    (hreach : t.ComesTo (t.nestedAt true levels (path ++ [orAnonymous a.name])) a memo typed m
      memo')
    (hd : t.typeWith (t.nestedAt true levels (path ++ [orAnonymous a.name])) m memo' =
      .ok (d, memo₂))
    (hn : Layout.Writes t.profile a typed m d n) : Writes (levels + 1) path memo a n
  | nested {levels : Nat} {path : List String} {memo memo' : Memo Quantity}
    {a b : Aggregate Quantity} {typed : List (Member Quantity × TypeDescriptor Quantity)}
    {m : Member Quantity} {n : Quantity}
    (hclear : checkCycle path a = .ok ()) (hnames : checkNames a [] a.members = .ok ())
    (hreach : t.ComesTo (t.nestedAt true levels (path ++ [orAnonymous a.name])) a memo typed m
      memo')
    (hb : t.nested? m.type = some b) (hnew : memo'.find? b = none)
    (hn : Writes levels (path ++ [orAnonymous a.name]) memo' b n) :
    Writes (levels + 1) path memo a n

theorem checkNames_ne_number {seen : List String} {members : List (Member Quantity)} :
    checkNames a seen members ≠ .error (.number fault) := by
  induction members generalizing seen with
  | nil =>
    intro h
    cases h
  | cons m rest ih =>
    unfold checkNames
    intro h
    split at h
    · cases h
    · split at h
      · cases h
      · exact ih h

theorem checkCycle_ne_number : checkCycle path a ≠ .error (.number fault) := by
  unfold checkCycle
  split <;> exact nofun

theorem layoutAt_succ_number :
    t.layoutAt true (levels + 1) path a memo = .error (.number fault) ↔
      checkCycle path a = .ok () ∧ checkNames a [] a.members = .ok () ∧
        t.layoutWith (t.nestedAt true levels (path ++ [orAnonymous a.name])) a memo =
          .error (.number fault) := by
  conv_lhs => unfold layoutAt
  simp only [Layouting.bind_eq_error, Layouting.lift_eq_error, Layouting.lift_eq_ok,
    checkCycle_ne_number, checkNames_ne_number, false_or]
  constructor
  · rintro ⟨_, _, ⟨hclear, rfl⟩, _, _, ⟨hnames, rfl⟩, h⟩
    exact ⟨hclear, hnames, h⟩
  · rintro ⟨hclear, hnames, h⟩
    exact ⟨_, _, ⟨hclear, rfl⟩, _, _, ⟨hnames, rfl⟩, h⟩

theorem layoutAt_zero_number (ht : t.IsWhole) :
    t.layoutAt true 0 path a memo = .error (.number fault) ↔
      checkCycle path a = .ok () ∧ fault = .tooManyDigits ∧ t.maxDepth.IsTooLong := by
  unfold layoutAt
  simp only [Layouting.bind_eq_error, Layouting.lift_eq_error, Layouting.lift_eq_ok,
    checkCycle_ne_number, false_or]
  rw [← Quantity.written_eq_error ht.maxDepth]
  have hdeep : (throw (t.tooDeep a) : Layouting Quantity (Layout Quantity)) memo =
      .error (.number fault) ↔ Measure.written t.maxDepth = .error fault := by
    change Except.error (t.tooDeep a) = _ ↔ _
    unfold tooDeep
    cases Measure.written t.maxDepth <;> simp
  constructor
  · rintro ⟨_, _, ⟨hclear, rfl⟩, h⟩
    exact ⟨hclear, hdeep.mp h⟩
  · rintro ⟨hclear, h⟩
    exact ⟨_, _, ⟨hclear, rfl⟩, hdeep.mpr h⟩

theorem layoutAt_number (ht : t.IsWhole) (ha : a.IsWhole) (hmemo : memo.IsWhole) :
    t.layoutAt true levels path a memo = .error (.number fault) ↔
      fault = .tooManyDigits ∧ ∃ n, t.Writes levels path memo a n ∧ n.IsTooLong := by
  induction levels generalizing path a memo with
  | zero =>
    rw [layoutAt_zero_number ht]
    constructor
    · rintro ⟨hclear, rfl, hlong⟩
      exact ⟨rfl, _, .deep hclear, hlong⟩
    · rintro ⟨rfl, n, hwrites, hlong⟩
      cases hwrites with
      | deep hclear => exact ⟨hclear, rfl, hlong⟩
  | succ levels ih =>
    have hn := keepsWhole_nestedAt ht.catalog true levels (path ++ [orAnonymous a.name])
    rw [layoutAt_succ_number, hn.layoutWith_number ht.catalog ha hmemo]
    constructor
    · rintro ⟨hclear, hnames, typed, m, memo', hreach, hbehind | ⟨d, memo₂, hd, rfl, n, hn', hlong⟩⟩
      · obtain ⟨hm, _, hmemo'⟩ := hreach.isWhole hn ht.catalog ha hmemo
        obtain ⟨b, hb, hfails⟩ := (hn.typeWith_number ht.catalog hm hmemo').mp hbehind
        obtain ⟨hnew, hfails⟩ := nestedAt_eq_error.mp hfails
        have hwhole := isWhole_nested? ht.catalog hm.type hb
        obtain ⟨rfl, n, hwrites, hlong⟩ := (ih hwhole hmemo').mp hfails
        exact ⟨rfl, n, .nested hclear hnames hreach hb hnew hwrites, hlong⟩
      · exact ⟨rfl, n, .member hclear hnames hreach hd hn', hlong⟩
    · rintro ⟨rfl, n, hwrites, hlong⟩
      cases hwrites with
      | member hclear hnames hreach hd hn' =>
        exact ⟨hclear, hnames, _, _, _, hreach, .inr ⟨_, _, hd, rfl, n, hn', hlong⟩⟩
      | nested hclear hnames hreach hb hnew hwrites =>
        obtain ⟨hm, _, hmemo'⟩ := hreach.isWhole hn ht.catalog ha hmemo
        have hwhole := isWhole_nested? ht.catalog hm.type hb
        have hfails := (ih hwhole hmemo').mpr ⟨rfl, n, hwrites, hlong⟩
        have hbehind := (hn.typeWith_number ht.catalog hm hmemo').mpr
          ⟨_, hb, nestedAt_eq_error.mpr ⟨hnew, hfails⟩⟩
        exact ⟨hclear, hnames, _, _, _, hreach, .inl hbehind⟩

theorem noted_number {x : Layouting Quantity (Layout Quantity)} :
    noted x = .error (.number fault) ↔
      x [] = .error (.number fault) ∨
        ∃ l memo, x [] = .ok (l, memo) ∧ l.written = .error fault := by
  unfold noted
  change (((·.1) <$> x []) >>= fun l => _) = _ ↔ _
  cases x [] with
  | error f => simp [bind, Except.bind, Functor.map, Except.map]
  | ok r =>
    obtain ⟨l, memo⟩ := r
    change ((l.written.mapError LayoutFailure.number) >>= fun _ => _) = _ ↔ _
    cases hw : l.written with
    | error fault' => simp [bind, Except.bind, Except.mapError, hw]
    | ok _ => simp [bind, Except.bind, Except.mapError, pure, Except.pure, hw]

variable (t a) in
/-- What is written on the way to the layout of an aggregate: the numbers of its members and of
those inside, and its totals in the end. -/
inductive Notes : Quantity → Prop
  | member {n : Quantity} (h : t.Writes t.levels [] [] a n) : Notes n
  | total {l : Layout Quantity} {memo : Memo Quantity} {n : Quantity}
    (hl : t.layoutAt true t.levels [] a [] = .ok (l, memo)) (hn : n ∈ l.totals) : Notes n

theorem layout_number (ht : t.IsWhole) (ha : a.IsWhole) :
    t.layout a = .error (.number fault) ↔
      fault = .tooManyDigits ∧ ∃ n, t.Notes a n ∧ n.IsTooLong := by
  unfold layout
  rw [noted_number, layoutAt_number ht ha Memo.isWhole_nil]
  constructor
  · rintro (⟨rfl, n, hwrites, hlong⟩ | ⟨l, memo, hl, hwritten⟩)
    · exact ⟨rfl, n, .member hwrites, hlong⟩
    · have hwhole := (isWhole_layoutAt ht.catalog ha Memo.isWhole_nil hl).1
      obtain ⟨rfl, n, hn, hlong⟩ := hwhole.written_eq_error.mp hwritten
      exact ⟨rfl, n, .total hl hn, hlong⟩
  · rintro ⟨rfl, n, hnotes, hlong⟩
    cases hnotes with
    | member hwrites => exact .inl ⟨rfl, n, hwrites, hlong⟩
    | total hl hn =>
      have hwhole := (isWhole_layoutAt ht.catalog ha Memo.isWhole_nil hl).1
      exact .inr ⟨_, _, hl, hwhole.written_eq_error.mpr ⟨rfl, n, hn, hlong⟩⟩

end Target

def Aggregate.unwritable : Aggregate Quantity where
  name := "s"
  members :=
    [{ name := "cells", type := .named "char", dims := [.whole (10 ^ 2200), .whole (10 ^ 2200)] },
      { name := "tail", type := .named "mystery" }]

theorem Aggregate.isWhole_unwritable : Aggregate.unwritable.IsWhole := by
  refine .mk (List.forall_mem_cons.mpr ⟨.mk (.named _) ?_ nofun, List.forall_mem_singleton.mpr
    (.mk (.named _) nofun nofun)⟩)
  exact List.forall_mem_cons.mpr ⟨⟨_, rfl⟩, List.forall_mem_singleton.mpr ⟨_, rfl⟩⟩

theorem layout_unwritable :
    (Target.ofProfile .lp64).layout .unwritable = .error (.number .tooManyDigits) := by
  decide +kernel

end AggregateLayout
