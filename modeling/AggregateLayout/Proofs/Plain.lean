import Mathlib
import AggregateLayout.Proofs.Layouting

namespace AggregateLayout

variable {μ : Type} [Measure μ]

open AggregateLayout.Measure (whole)

def PowerOfTwo.plain (a : PowerOfTwo) : PowerOfTwo := { val := a.val, isPower := a.isPower }

theorem PowerOfTwo.plain_eq_iff {a b : PowerOfTwo} : a.plain = b.plain ↔ a.val = b.val := by
  simp [plain]

theorem PowerOfTwo.plain_max (a b : PowerOfTwo) : (a.max b).plain = a.plain.max b.plain := by
  unfold max
  split
  · next h => rw [if_pos (show a.plain.val < b.plain.val from h)]
  · next h => rw [if_neg (show ¬ a.plain.val < b.plain.val from h)]

theorem PowerOfTwo.plain_ite (packed : Bool) (a : PowerOfTwo) :
    (if packed then .one else a : PowerOfTwo).plain = if packed then .one else a.plain := by
  cases packed <;> rfl

namespace TypeDescriptor

def plain : TypeDescriptor μ → TypeDescriptor μ
  | .basic name size alignment kind isInteger => .basic name size alignment.plain kind isInteger
  | .array element count => .array element.plain count

@[simp] theorem name_plain (d : TypeDescriptor μ) : d.plain.name = d.name := by
  induction d with
  | basic => rfl
  | array element count ih => simp only [plain, name, ih]

@[simp] theorem size_plain (d : TypeDescriptor μ) : d.plain.size = d.size := by
  induction d with
  | basic => rfl
  | array element count ih => simp only [plain, size, ih]

@[simp] theorem alignment_plain (d : TypeDescriptor μ) :
    d.plain.alignment = d.alignment.plain := by
  induction d with
  | basic => rfl
  | array element count ih => simp only [plain, alignment, ih]

@[simp] theorem kind_plain (d : TypeDescriptor μ) : d.plain.kind = d.kind := by cases d <;> rfl

@[simp] theorem isInteger_plain (d : TypeDescriptor μ) : d.plain.isInteger = d.isInteger := by
  cases d <;> rfl

@[simp] theorem bitSize_plain (d : TypeDescriptor μ) : d.plain.bitSize = d.bitSize := by
  simp only [bitSize, size_plain]

theorem sameAs_plain (d e : TypeDescriptor μ) : d.plain.sameAs e.plain = d.sameAs e := by
  induction d generalizing e with
  | basic => cases e <;> rfl
  | array element count ih =>
    cases e with
    | basic => rfl
    | array element' count' => simp only [plain, sameAs, ih]

theorem plain_eq_of_sameAs {d e : TypeDescriptor Int} (h : d.sameAs e = true) :
    d.plain = e.plain := by
  induction d generalizing e with
  | basic =>
    cases e with
    | basic =>
      simp only [sameAs, Bool.and_eq_true, beq_iff_eq] at h
      obtain ⟨⟨⟨⟨hn, hs⟩, ha⟩, hk⟩, hi⟩ := h
      simp only [plain, basic.injEq]
      exact ⟨hn, Size.ext hs, PowerOfTwo.plain_eq_iff.mpr ha, hk, hi⟩
    | array => cases h
  | array element count ih =>
    cases e with
    | basic => cases h
    | array element' count' =>
      simp only [sameAs, Bool.and_eq_true, beq_iff_eq] at h
      simp only [plain, array.injEq]
      exact ⟨ih h.1, Size.ext h.2⟩

theorem sameAs_refl (d : TypeDescriptor Int) : d.sameAs d = true := by
  induction d with
  | basic => simp [sameAs]
  | array element count ih => simp [sameAs, ih]

end TypeDescriptor

theorem plain_arrayOf (d : TypeDescriptor μ) (count : μ) :
    TypeDescriptor.arrayOf d.plain count =
      (TypeDescriptor.arrayOf d count).map TypeDescriptor.plain := by
  unfold TypeDescriptor.arrayOf
  simp only [TypeDescriptor.name_plain, TypeDescriptor.size_plain]
  cases (Measure.written count).mapError TypeFault.number with
  | error f => rfl
  | ok u =>
    simp only [bind, Except.bind]
    split
    · rfl
    · cases (Measure.computed (d.size.val * count)).mapError (TypeFault.number (μ := μ)) <;> rfl

def Member.bare (m : Member μ) : Member μ := { m with type := .named m.type.name }

def Placement.plain (p : Placement μ) : Placement μ := { p with alignment := p.alignment.plain }

def StorageUnit.plain (u : StorageUnit μ) : StorageUnit μ := { u with type := u.type.plain }

def Placer.plain (s : Placer μ) : Placer μ := { s with unit := s.unit.map StorageUnit.plain }

def PartialStruct.plain (q : PartialStruct μ) : PartialStruct μ where
  placer := q.placer.plain
  alignment := q.alignment.plain
  placements := q.placements.map Placement.plain

def Layout.plain (l : Layout μ) : Layout μ :=
  { l with
    placements := l.placements.map Placement.plain
    totalAlignment := l.totalAlignment.plain }

theorem StorageUnit.skip?_plain (u : StorageUnit μ) (width : μ) :
    u.plain.skip? width = u.skip? width := by
  simp only [skip?, fits, take, plain, TypeDescriptor.bitSize_plain]
  rfl

theorem checkBitfield_plain (m : Member μ) (width : μ) (d : TypeDescriptor μ) :
    checkBitfield m width d.plain = checkBitfield m width d := by
  simp only [checkBitfield, TypeDescriptor.kind_plain, TypeDescriptor.isInteger_plain,
    TypeDescriptor.name_plain, TypeDescriptor.bitSize_plain]

namespace Placer

variable (p : MachineProfile μ) (packed : Bool) (m : Member μ) (d : TypeDescriptor μ)
  (s : Placer μ)

theorem plain_align (a : PowerOfTwo) : s.plain.align a.plain = (s.align a).plain := by
  unfold align
  dsimp only
  by_cases h : s.cursor < roundUp s.cursor a
  · rw [if_pos h, if_pos (show s.plain.cursor < roundUp s.plain.cursor a.plain from h)]
    rfl
  · rw [if_neg h, if_neg (show ¬ s.plain.cursor < roundUp s.plain.cursor a.plain from h)]
    rfl

theorem plain_close : s.plain.close p = (s.close p).plain := by
  obtain ⟨cursor, unit, unitStart, padding⟩ := s
  cases unit with
  | none => rfl
  | some u =>
    simp only [close, plain, Option.map_some, Option.map_none, StorageUnit.padding,
      StorageUnit.plain, TypeDescriptor.bitSize_plain]

theorem plain_closeUnless (test test' : StorageUnit μ → Bool)
    (h : ∀ u : StorageUnit μ, test' u.plain = test u) :
    s.plain.closeUnless p test' = (s.closeUnless p test).plain := by
  obtain ⟨cursor, unit, unitStart, padding⟩ := s
  cases unit with
  | none => rfl
  | some u =>
    simp only [closeUnless, plain, Option.map_some, h]
    split
    · rfl
    · exact plain_close p { cursor, unit := some u, unitStart, padding }

theorem plain_restart (width : μ) : s.plain.restart p width = (s.restart p width).plain := by
  obtain ⟨cursor, unit, unitStart, padding⟩ := s
  cases unit with
  | none => rfl
  | some u =>
    simp only [restart, plain, Option.map_some, StorageUnit.skip?_plain]
    cases u.skip? width with
    | none => rfl
    | some gap =>
      simp only
      split
      · simp only [StorageUnit.padding, StorageUnit.plain, StorageUnit.take,
          TypeDescriptor.bitSize_plain, Option.map_some]
      · rfl

theorem plain_alignmentOf : alignmentOf packed d.plain = (alignmentOf packed d).plain := by
  cases packed
  · exact d.alignment_plain
  · rfl

theorem plain_openUnit : s.plain.openUnit packed d.plain = (s.openUnit packed d).plain := by
  unfold openUnit
  simp only [plain_alignmentOf, plain_align, TypeDescriptor.size_plain]
  rfl

theorem plain_takeBits (width : μ) :
    s.plain.takeBits p packed m width d.plain =
      ((s.takeBits p packed m width d).1.plain, (s.takeBits p packed m width d).2.plain) := by
  unfold takeBits
  cases hu : s.unit with
  | some u =>
    have : s.plain.unit = some u.plain := by simp [plain, hu]
    simp only [this, StorageUnit.plain, TypeDescriptor.bitSize_plain, TypeDescriptor.size_plain,
      TypeDescriptor.alignment_plain]
    rfl
  | none =>
    have : s.plain.unit = none := by simp [plain, hu]
    simp only [this, plain_openUnit, TypeDescriptor.bitSize_plain, TypeDescriptor.size_plain,
      TypeDescriptor.alignment_plain]
    rfl

theorem plain_placePlain :
    s.plain.placePlain p packed m d.plain =
      ((s.placePlain p packed m d).1.plain, (s.placePlain p packed m d).2.plain) := by
  unfold placePlain
  simp only [plain_close, plain_alignmentOf, plain_align, TypeDescriptor.size_plain,
    TypeDescriptor.alignment_plain]
  rfl

theorem plain_place :
    s.plain.place p packed m d.plain =
      (s.place p packed m d).map fun r => (r.1.plain, r.2.plain) := by
  unfold place
  cases m.bits with
  | none => exact congrArg Except.ok (plain_placePlain p packed m d s)
  | some width =>
    simp only [placeBitfield, checkBitfield_plain]
    cases checkBitfield m width d with
    | error f => rfl
    | ok u =>
      rw [plain_closeUnless p s (·.type.sameAs d) _ fun u => TypeDescriptor.sameAs_plain u.type d,
        plain_restart, plain_closeUnless p _ (·.fits width) _ fun u => by
          simp only [StorageUnit.fits, StorageUnit.plain, TypeDescriptor.bitSize_plain]]
      exact congrArg Except.ok (plain_takeBits p packed m d _ width)

theorem plain_computed : s.plain.computed = s.computed := by
  unfold computed
  cases hu : s.unit with
  | none =>
    have : s.plain.unit = none := by simp [plain, hu]
    simp only [this]
    rfl
  | some u =>
    have : s.plain.unit = some u.plain := by simp [plain, hu]
    simp only [this]
    rfl

end Placer

def bareTyped (x : Member μ × TypeDescriptor μ) : Member μ × TypeDescriptor μ :=
  (x.1.bare, x.2.plain)

namespace PartialStruct

variable (p : MachineProfile μ) (packed : Bool) (q : PartialStruct μ)

theorem plain_add (x : Member μ × TypeDescriptor μ) :
    q.plain.add p packed (bareTyped x).1 (bareTyped x).2 =
      (q.add p packed x.1 x.2).map PartialStruct.plain := by
  have hplace : q.plain.placer.place p packed x.1.bare x.2.plain =
      (q.placer.place p packed x.1 x.2).map fun r => (r.1.plain, r.2.plain) :=
    Placer.plain_place p packed x.1 x.2 q.placer
  unfold add
  simp only [bareTyped, hplace]
  cases q.placer.place p packed x.1 x.2 with
  | error f => rfl
  | ok r =>
    obtain ⟨placement, placer⟩ := r
    simp only [Except.map, bind, Except.bind, Placer.plain_computed,
      show placement.plain.written = placement.written from rfl]
    cases placer.computed.mapError (LayoutFailure.number (μ := μ)) with
    | error f => rfl
    | ok _ =>
      cases placement.written.mapError (LayoutFailure.number (μ := μ)) with
      | error f => rfl
      | ok _ =>
        simp only [pure, Except.pure, plain, PowerOfTwo.plain_max, TypeDescriptor.alignment_plain,
          List.map_cons]

theorem plain_foldlM (typed : List (Member μ × TypeDescriptor μ)) :
    (typed.map bareTyped).foldlM (fun (q : PartialStruct μ) x => q.add p packed x.1 x.2) q.plain =
      (typed.foldlM (fun (q : PartialStruct μ) x => q.add p packed x.1 x.2) q).map
        PartialStruct.plain := by
  induction typed generalizing q with
  | nil => rfl
  | cons x rest ih =>
    rw [List.map_cons, List.foldlM_cons, List.foldlM_cons, plain_add]
    cases q.add p packed x.1 x.2 with
    | error f => rfl
    | ok q₁ => exact ih q₁

theorem plain_finish (a : Aggregate μ) : q.plain.finish p a = (q.finish p a).plain := by
  have halign := PowerOfTwo.plain_ite a.packed q.alignment
  have hplacer : (q.plain.placer.close p).align (if a.packed then .one else q.alignment).plain =
      ((q.placer.close p).align (if a.packed then .one else q.alignment)).plain := by
    rw [show q.plain.placer = q.placer.plain from rfl, Placer.plain_close, Placer.plain_align]
  unfold finish
  dsimp only
  rw [show q.plain.alignment = q.alignment.plain from rfl, ← halign, hplacer]
  unfold Layout.plain
  dsimp only
  rw [List.map_reverse]
  rfl

end PartialStruct

theorem plain_overlay (p : MachineProfile μ) (x : Member μ × TypeDescriptor μ) :
    overlay p (bareTyped x).1 (bareTyped x).2 = (overlay p x.1 x.2).map Placement.plain := by
  unfold overlay bareTyped
  simp only [show x.1.bare.bits = x.1.bits from rfl, TypeDescriptor.alignment_plain,
    TypeDescriptor.bitSize_plain, TypeDescriptor.size_plain]
  cases x.1.bits with
  | none => rfl
  | some width =>
    dsimp only
    rw [show checkBitfield x.1.bare width x.2.plain = checkBitfield x.1 width x.2 from
      checkBitfield_plain x.1 width x.2]
    cases checkBitfield x.1 width x.2 <;> rfl

theorem plain_mapM_overlay (p : MachineProfile μ) (typed : List (Member μ × TypeDescriptor μ)) :
    (typed.map bareTyped).mapM (fun x => overlay p x.1 x.2) =
      (typed.mapM fun x => overlay p x.1 x.2).map (List.map Placement.plain) := by
  induction typed with
  | nil => rfl
  | cons x rest ih =>
    rw [List.map_cons, List.mapM_cons, List.mapM_cons, plain_overlay, ih]
    cases overlay p x.1 x.2 with
    | error f => rfl
    | ok q => cases rest.mapM fun x => overlay p x.1 x.2 <;> rfl

theorem plain_foldl_max (placements : List (Placement μ)) (b : PowerOfTwo) :
    ((placements.map Placement.plain).map (·.alignment)).foldl PowerOfTwo.max b.plain =
      ((placements.map (·.alignment)).foldl PowerOfTwo.max b).plain := by
  induction placements generalizing b with
  | nil => rfl
  | cons q rest ih =>
    simp only [List.map_cons, List.foldl_cons] at ih ⊢
    rw [← ih, PowerOfTwo.plain_max]
    rfl

theorem plain_finishUnion (a : Aggregate μ) (placements : List (Placement μ)) :
    finishUnion a (placements.map Placement.plain) = (finishUnion a placements).plain := by
  have hsize : (placements.map Placement.plain).map (·.size.val) =
      placements.map (·.size.val) := by
    rw [List.map_map]
    rfl
  have hwidest := plain_foldl_max placements .one
  rw [show PowerOfTwo.one.plain = .one from rfl] at hwidest
  unfold finishUnion
  dsimp only
  rw [hsize, hwidest, ← PowerOfTwo.plain_ite]
  generalize (if a.packed then PowerOfTwo.one else _) = alignment
  have hplacer := Placer.plain_align
    { cursor := (placements.map (·.size.val)).foldl Measure.larger (whole 0) } alignment
  unfold Layout.plain
  dsimp only
  rw [show Placer.plain { cursor := (placements.map (·.size.val)).foldl Measure.larger (whole 0) } =
    { cursor := (placements.map (·.size.val)).foldl Measure.larger (whole 0) } from rfl] at hplacer
  rw [hplacer]
  rfl

theorem plain_computed (l : Layout μ) : l.plain.computed = l.computed.map Layout.plain := by
  unfold Layout.computed
  rw [show l.plain.totalSize = l.totalSize from rfl]
  cases Measure.computed l.totalSize <;> rfl

theorem Layout.plain_ofTypes (p : MachineProfile μ) (a : Aggregate μ)
    (typed : List (Member μ × TypeDescriptor μ)) :
    ofTypes p a (typed.map bareTyped) = (ofTypes p a typed).map Layout.plain := by
  unfold ofTypes
  cases a.kind with
  | struct =>
    have hq := PartialStruct.plain_foldlM p a.packed {} typed
    rw [show PartialStruct.plain (μ := μ) {} = {} from rfl] at hq
    dsimp only
    rw [hq]
    cases typed.foldlM (fun (q : PartialStruct μ) x => q.add p a.packed x.1 x.2) {} with
    | error f => rfl
    | ok q =>
      change (q.plain.finish p a).computed = (q.finish p a).computed.map Layout.plain
      rw [PartialStruct.plain_finish, plain_computed]
  | union =>
    dsimp only
    rw [plain_mapM_overlay]
    cases typed.mapM fun x => overlay p x.1 x.2 with
    | error f => rfl
    | ok placements =>
      change (finishUnion a (placements.map Placement.plain)).computed =
        (finishUnion a placements).computed.map Layout.plain
      rw [plain_finishUnion, plain_computed]

end AggregateLayout
