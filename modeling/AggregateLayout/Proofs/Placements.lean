import Mathlib
import AggregateLayout.Proofs.Filled
import AggregateLayout.Proofs.Sound

namespace AggregateLayout

namespace TypeDescriptor

variable {d e : TypeDescriptor Int}

theorem size_of_plain_eq (h : d.plain = e.plain) : d.size = e.size := by
  rw [← d.size_plain, h, e.size_plain]

theorem alignment_of_plain_eq (h : d.plain = e.plain) : d.alignment.val = e.alignment.val := by
  have same := congrArg alignment h
  rw [d.alignment_plain, e.alignment_plain] at same
  exact PowerOfTwo.plain_eq_iff.mp same

end TypeDescriptor

def Placement.InsideUnit (q : Placement Int) : Prop :=
  ∀ bits, q.bits = some bits → 0 ≤ bits.offset ∧ bits.offset + bits.width ≤ q.size.val * 8

structure Placement.Holds (q : Placement Int) (m : Member Int) (d : TypeDescriptor Int) :
    Prop where
  name : q.name = m.name
  size : q.size = d.size
  alignment : q.alignment = d.alignment
  width : q.bits.map (·.width) = m.bits
  inside : q.InsideUnit

theorem bitPosition_inside (direction : BitfieldDirection) {used width bits : Int}
    (hused : 0 ≤ used) (hfits : used + width ≤ bits) :
    0 ≤ bitPosition direction used width bits ∧
      bitPosition direction used width bits + width ≤ bits := by
  cases direction with
  | lowToHigh => exact ⟨hused, hfits⟩
  | highToLow =>
    change 0 ≤ bits - used - width ∧ bits - used - width + width ≤ bits
    omega

theorem overlay_holds {p : MachineProfile Int} {m : Member Int} {d : TypeDescriptor Int}
    {q : Placement Int} (h : overlay p m d = .ok q) : q.Holds m d ∧ q.offset = 0 := by
  unfold overlay at h
  cases hbits : m.bits with
  | none =>
    rw [hbits] at h
    obtain rfl := Except.ok.inj h
    exact ⟨⟨rfl, rfl, rfl, hbits.symm, fun bits hb => (nomatch hb)⟩, rfl⟩
  | some width =>
    rw [hbits] at h
    obtain ⟨_, hcheck, h⟩ := except_bind_eq_ok.mp h
    obtain rfl := Except.ok.inj h
    have hfits : 0 + width ≤ d.bitSize := by
      have := (checkBitfield_eq_ok.mp hcheck).within
      rw [d.bitSize_int]
      omega
    refine ⟨⟨rfl, rfl, rfl, hbits.symm, ?_⟩, rfl⟩
    rintro _ ⟨⟩
    exact bitPosition_inside p.bitfieldDirection le_rfl hfits

namespace Placer

variable {p : MachineProfile Int} {packed : Bool} {m : Member Int} {d : TypeDescriptor Int}
  {s s' : Placer Int} {q : Placement Int} {u : StorageUnit Int} {width : Int}

/-- One member more: behind everything placed so far, or in the unit that is open. -/
inductive Step (packed : Bool) (d : TypeDescriptor Int) (s : Placer Int) (q : Placement Int)
    (s' : Placer Int) : Prop
  | alone (hbits : q.bits = none) (hoffset : q.offset = roundUp s.cursor (alignmentOf packed d))
    (hunit : s'.unit = none) (hcursor : s'.cursor = q.offset + d.size.val)
  | opens {u : StorageUnit Int} (hbits : q.bits.isSome)
    (hoffset : q.offset = roundUp s.cursor (alignmentOf packed d)) (hunit : s'.unit = some u)
    (htype : u.type = d) (hstart : s'.unitStart = q.offset)
    (hcursor : s'.cursor = q.offset + d.size.val)
  | joins {u u' : StorageUnit Int} (hbits : q.bits.isSome) (hunit : s.unit = some u)
    (htype : u.type.plain = d.plain) (hoffset : q.offset = s.unitStart)
    (hunit' : s'.unit = some u') (htype' : u'.type = u.type) (hstart : s'.unitStart = s.unitStart)
    (hcursor : s'.cursor = s.cursor)

theorem close_keeps (p : MachineProfile Int) (s : Placer Int) :
    (s.close p).cursor = s.cursor ∧ (s.close p).unitStart = s.unitStart := by
  unfold close
  split <;> exact ⟨rfl, rfl⟩

theorem closeUnless_keeps (p : MachineProfile Int) (test : StorageUnit Int → Bool)
    (s : Placer Int) :
    (s.closeUnless p test).cursor = s.cursor ∧
      (s.closeUnless p test).unitStart = s.unitStart := by
  unfold closeUnless
  split
  · exact ⟨rfl, rfl⟩
  · split
    · exact ⟨rfl, rfl⟩
    · exact close_keeps p s

theorem restart_keeps (p : MachineProfile Int) (width : Int) (s : Placer Int) :
    (s.restart p width).cursor = s.cursor ∧ (s.restart p width).unitStart = s.unitStart := by
  unfold restart
  split
  · exact ⟨rfl, rfl⟩
  · split
    · exact ⟨rfl, rfl⟩
    · split <;> exact ⟨rfl, rfl⟩

theorem unit_restart {μ : Type} [Measure μ] {p : MachineProfile μ} {s : Placer μ} {width : μ}
    {u : StorageUnit μ} (hu : (s.restart p width).unit = some u) :
    ∃ u₀, s.unit = some u₀ ∧ u.type = u₀.type := by
  unfold restart at hu
  split at hu
  · exact ⟨u, hu, rfl⟩
  · next u₀ hu₀ =>
    refine ⟨u₀, hu₀, ?_⟩
    split at hu
    · rw [hu₀] at hu
      cases hu
      rfl
    · split at hu
      · cases hu
        rfl
      · rw [hu₀] at hu
        cases hu
        rfl

def ready {μ : Type} [Measure μ] (p : MachineProfile μ) (d : TypeDescriptor μ) (width : μ)
    (s : Placer μ) : Placer μ :=
  ((s.closeUnless p (·.type.sameAs d)).restart p width).closeUnless p (·.fits width)

theorem ready_keeps (p : MachineProfile Int) (d : TypeDescriptor Int) (width : Int)
    (s : Placer Int) :
    (s.ready p d width).cursor = s.cursor ∧ (s.ready p d width).unitStart = s.unitStart := by
  unfold ready
  rw [(closeUnless_keeps ..).1, (restart_keeps ..).1, (closeUnless_keeps ..).1,
    (closeUnless_keeps ..).2, (restart_keeps ..).2, (closeUnless_keeps ..).2]
  exact ⟨rfl, rfl⟩

theorem open_ready {μ : Type} [Measure μ] {p : MachineProfile μ} {d : TypeDescriptor μ}
    {s : Placer μ} {width : μ} {u : StorageUnit μ} (hu : (s.ready p d width).unit = some u) :
    u.fits width = true ∧
      ∃ u₀, s.unit = some u₀ ∧ u.type = u₀.type ∧ u₀.type.sameAs d = true := by
  obtain ⟨hclosed, hfits⟩ := unit_closeUnless hu
  unfold ready at hu
  rw [hclosed] at hu
  obtain ⟨u₀, hu₀, htype⟩ := unit_restart hu
  obtain ⟨hopen, hsame⟩ := unit_closeUnless hu₀
  rw [hopen] at hu₀
  exact ⟨hfits, u₀, hu₀, htype, hsame⟩

theorem unit_ready (hu : (s.ready p d width).unit = some u) :
    u.used + width ≤ u.type.size.val * 8 ∧
      ∃ u₀, s.unit = some u₀ ∧ u.type = u₀.type ∧ u₀.type.plain = d.plain := by
  obtain ⟨hfits, u₀, hu₀, htype, hsame⟩ := open_ready hu
  exact ⟨StorageUnit.fits_iff.mp hfits, u₀, hu₀, htype, TypeDescriptor.plain_eq_of_sameAs hsame⟩

theorem Tiled.ready {es : List Extent} (hs : s.Tiled p.bitfieldDirection es)
    (hw : 0 ≤ width) : (s.ready p d width).Tiled p.bitfieldDirection es :=
  ((hs.closeUnless _).restart hw).closeUnless _

theorem place_step (h : s.place p packed m d = .ok (q, s')) : Step packed d s q s' := by
  rcases place_eq_ok.mp h with ⟨_, h⟩ | ⟨width, _, _, h⟩
  · obtain ⟨rfl, rfl⟩ := Prod.mk.inj h
    refine .alone rfl ?_ ?_ rfl
    · rw [← (close_keeps p s).1]
      exact align_cursor _ _
    · exact (align_unit _ _).trans (close_unit p s)
  · obtain ⟨hcursor, hstart⟩ := ready_keeps p d width s
    change (s.ready p d width).takeBits p packed m width d = _ at h
    unfold takeBits at h
    cases hr : (s.ready p d width).unit with
    | some u =>
      obtain ⟨_, u₀, hu₀, htype, hsame⟩ := unit_ready hr
      rw [hr] at h
      obtain ⟨rfl, rfl⟩ := Prod.mk.inj h
      exact .joins rfl hu₀ hsame hstart rfl htype hstart hcursor
    | none =>
      rw [hr] at h
      obtain ⟨rfl, rfl⟩ := Prod.mk.inj h
      refine .opens rfl ?_ rfl rfl rfl rfl
      rw [← hcursor]
      exact align_cursor _ _

theorem place_size (h : s.place p packed m d = .ok (q, s')) : q.size = d.size := by
  rcases place_eq_ok.mp h with ⟨_, h⟩ | ⟨width, _, _, h⟩
  · obtain rfl := congrArg Prod.fst h
    rfl
  · change (s.ready p d width).takeBits p packed m width d = _ at h
    obtain rfl := congrArg Prod.fst h
    unfold takeBits
    cases (s.ready p d width).unit <;> rfl

theorem Tiled.holds {es : List Extent} (hs : s.Tiled p.bitfieldDirection es)
    (h : s.place p packed m d = .ok (q, s')) : q.Holds m d := by
  rcases place_eq_ok.mp h with ⟨hm, h⟩ | ⟨width, hm, fits, h⟩
  · obtain ⟨rfl, _⟩ := Prod.mk.inj h
    exact ⟨rfl, rfl, rfl, hm.symm, fun bits hb => (nomatch hb)⟩
  · have hw := fits.positive
    have hwithin := fits.within
    have ht := hs.ready (d := d) (show 0 ≤ width by omega)
    change (s.ready p d width).takeBits p packed m width d = _ at h
    unfold Placer.takeBits at h
    cases hr : (s.ready p d width).unit with
    | some u =>
      obtain ⟨hfits, u₀, _, htype, hsame⟩ := unit_ready hr
      have hsize : u.type.size = d.size := htype ▸ TypeDescriptor.size_of_plain_eq hsame
      have hinside := bitPosition_inside p.bitfieldDirection (ht.unit u hr).1 hfits
      rw [hr] at h
      obtain ⟨rfl, _⟩ := Prod.mk.inj h
      refine ⟨rfl, rfl, rfl, hm.symm, ?_⟩
      rintro _ ⟨⟩
      dsimp only
      rw [← hsize]
      exact hinside
    | none =>
      have hfits : 0 + width ≤ d.size.val * 8 := by omega
      rw [hr] at h
      obtain ⟨rfl, _⟩ := Prod.mk.inj h
      refine ⟨rfl, rfl, rfl, hm.symm, ?_⟩
      rintro _ ⟨⟩
      exact bitPosition_inside p.bitfieldDirection le_rfl hfits

end Placer

section Lists

variable {α β : Type} {R : α → β → Prop} {as : List α} {bs : List β}

theorem forall₂_find? {key : α → String} {key' : β → String} {name : String} {a : α} {b : β}
    (h : List.Forall₂ R as bs) (hkey : ∀ a b, R a b → key a = key' b)
    (ha : as.find? (key · == name) = some a) (hb : bs.find? (key' · == name) = some b) :
    a ∈ as ∧ R a b := by
  induction h with
  | nil => cases ha
  | @cons x y xs ys hxy _ ih =>
    rw [List.find?_cons, hkey x y hxy] at ha
    rw [List.find?_cons] at hb
    by_cases hname : key' y == name
    · rw [hname] at ha hb
      cases ha
      cases hb
      exact ⟨.head _, hxy⟩
    · rw [Bool.not_eq_true _ |>.mp hname] at ha hb
      obtain ⟨hmem, hab⟩ := ih ha hb
      exact ⟨.tail _ hmem, hab⟩

end Lists

variable {p : MachineProfile Int} {a b : Aggregate Int} {l inner : Layout Int}
  {typed : List (Member Int × TypeDescriptor Int)} {m : Member Int} {q : Placement Int}
  {name : String}

theorem PartialStruct.holds_foldlM {packed : Bool} {s s' : PartialStruct Int}
    (hs : s.placer.Tiled p.bitfieldDirection (s.placements.map Placement.extent))
    (h : typed.foldlM (fun (s : PartialStruct Int) x => s.add p packed x.1 x.2) s = .ok s') :
    ∃ qs, s'.placements = qs.reverse ++ s.placements ∧
      List.Forall₂ (fun x q => q.Holds x.1 x.2) typed qs := by
  induction typed generalizing s with
  | nil =>
    obtain rfl := Except.ok.inj h
    exact ⟨[], rfl, .nil⟩
  | cons x rest ih =>
    rw [List.foldlM_cons, except_bind_eq_ok] at h
    obtain ⟨s₁, hx, h⟩ := h
    have hs₁ := tiled_add hs hx
    obtain ⟨q, placer, hplace, rfl⟩ := add_eq_ok.mp hx
    obtain ⟨qs, hqs, hrest⟩ := ih hs₁ h
    refine ⟨q :: qs, ?_, .cons (hs.holds hplace) hrest⟩
    rw [hqs, List.reverse_cons, List.append_assoc]
    rfl

namespace Layout

theorem holds_ofTypes (h : ofTypes p a typed = .ok l) :
    List.Forall₂ (fun x q => q.Holds x.1 x.2) typed l.placements := by
  cases ha : a.kind with
  | struct =>
    obtain ⟨s, hs, rfl⟩ := ofTypes_struct ha h
    obtain ⟨qs, hqs, hholds⟩ := PartialStruct.holds_foldlM .start hs
    have hplacements : (s.finish p a).placements = qs := by
      change s.placements.reverse = qs
      rw [hqs, List.append_nil, List.reverse_reverse]
    rw [hplacements]
    exact hholds
  | union =>
    obtain ⟨placements, hs, rfl⟩ := ofTypes_union ha h
    exact (mapM_eq_ok.mp hs).imp fun x q hq => (overlay_holds hq).1

theorem offset_union (ha : a.kind = .union) (h : ofTypes p a typed = .ok l) :
    ∀ q ∈ l.placements, q.offset = 0 := by
  obtain ⟨placements, hs, rfl⟩ := ofTypes_union ha h
  have start : List.Forall₂ (fun (q : Placement Int) x => q.offset = 0 ∧ overlay p x.1 x.2 = .ok q)
      placements typed :=
    (mapM_eq_ok.mp hs).flip.imp fun _ _ hq => ⟨(overlay_holds hq).2, hq⟩
  exact ((List.forall₂_and_left _ _).mp start).1

theorem totalSize_finish (s : PartialStruct Int) :
    (s.finish p a).totalSize = roundUp s.placer.cursor (s.finish p a).totalAlignment := by
  rw [← (Placer.close_keeps p s.placer).1]
  exact Placer.align_cursor _ _

theorem totalSize_finishUnion (placements : List (Placement Int)) :
    (finishUnion a placements).totalSize =
      roundUp ((placements.map (·.size.val)).foldl Measure.larger 0)
        (finishUnion a placements).totalAlignment :=
  Placer.align_cursor _ _

theorem totalSize_nonneg (h : ofTypes p a typed = .ok l) : 0 ≤ l.totalSize := by
  cases ha : a.kind with
  | struct => exact (tiled_ofTypes ha h).size_nonneg
  | union =>
    obtain ⟨placements, _, rfl⟩ := ofTypes_union ha h
    rw [totalSize_finishUnion]
    exact (le_foldl_larger 0 _).trans (le_roundUp _ _)

theorem size_descriptor (h : ofTypes p a typed = .ok l) : l.descriptor.size.val = l.totalSize := by
  change (Size.of l.totalSize).val = _
  rw [TypeDescriptor.val_sizeOf, max_eq_left (totalSize_nonneg h)]

end Layout

namespace Target

variable {t : Target Int}

theorem Lays.holds (h : t.Lays a l) (hm : a.member? name = some m)
    (hq : l.placement? name = some q) : ∃ d, t.Types m d ∧ q.Holds m d := by
  obtain ⟨_, typed, hmembers, htyped, hl⟩ := h
  have hmember : (typed.map Prod.fst).find? (·.name == name) = some m := by
    rw [hmembers]
    exact hm
  rw [List.find?_map] at hmember
  obtain ⟨x, hx, rfl⟩ := Option.map_eq_some_iff.mp hmember
  obtain ⟨hmem, hholds⟩ := forall₂_find? (Layout.holds_ofTypes hl)
    (fun x q h => h.name.symm) hx hq
  exact ⟨x.2, htyped x hmem, hholds⟩

theorem alignment_withDims {d e : TypeDescriptor Int} (h : withDims m d = .ok e) :
    e.alignment = d.alignment :=
  withDims_induction (P := fun e => e.alignment = d.alignment) (fun _ _ he => he) rfl h

theorem Types.of_nested {d : TypeDescriptor Int} (h : t.Types m d)
    (hb : t.nested? m.type = some b) (hinner : t.Lays b inner) :
    ∃ d₀, d₀.plain = inner.descriptor.plain ∧ withDims m d₀ = .ok d := by
  cases h with
  | flat hf => exact absurd hb (nested?_ne_some_of_flat? hf)
  | nested hb' hnames hmembers htyped hl h₀ hd =>
    obtain rfl := Option.some.inj (hb'.symm.trans hb)
    have laid : t.Lays _ _ := ⟨hnames, _, hmembers, htyped, hl⟩
    exact ⟨_, h₀.symm.trans (descriptor_plain_eq (laid.unique hinner)), hd⟩

theorem Sound.bits_nested (h : t.Sound a) (hm : m ∈ a.members)
    (hb : t.nested? m.type = some b) : m.bits = none := by
  cases hbits : m.bits with
  | none => rfl
  | some width =>
    obtain ⟨f, hf, _⟩ := h.bitfields m hm width hbits
    exact absurd hb (nested?_ne_some_of_flat? hf)

theorem Lays.holds_nested (h : t.Lays a l) (hm : a.member? name = some m)
    (hq : l.placement? name = some q) (hb : t.nested? m.type = some b) (hinner : t.Lays b inner) :
    q.bits = none ∧ q.alignment.val = inner.totalAlignment.val ∧
      (m.dims = [] → q.size.val = inner.totalSize) := by
  obtain ⟨d, hd, hholds⟩ := h.holds hm hq
  obtain ⟨d₀, hplain, hd⟩ := hd.of_nested hb hinner
  have hbits : m.bits = none := h.sound.bits_nested (List.mem_of_find?_eq_some hm) hb
  have halignment : d₀.alignment.val = inner.totalAlignment.val :=
    TypeDescriptor.alignment_of_plain_eq hplain
  refine ⟨Option.map_eq_none_iff.mp (hholds.width.trans hbits), ?_, fun hdims => ?_⟩
  · rw [hholds.alignment, alignment_withDims hd, halignment]
  · obtain rfl := Except.ok.inj ((withDims_nil hdims).symm.trans hd)
    obtain ⟨_, _, _, _, hinner⟩ := hinner
    rw [hholds.size, TypeDescriptor.size_of_plain_eq hplain, Layout.size_descriptor hinner]

end Target

end AggregateLayout
