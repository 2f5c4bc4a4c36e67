import Mathlib
import AggregateLayout.Proofs.Fronts

namespace AggregateLayout

namespace Front

variable {p : MachineProfile Int} {packed : Bool} {s : Front} {bits : Option Int}
  {d e : TypeDescriptor Int} {used k : Int} {g : Member Int → TypeDescriptor Int}
  {m : Member Int} {members : List (Member Int)}

def ClosedTo (s : Front) (d : TypeDescriptor Int) : Prop :=
  ∀ e used, s.unit = some (e, used) → e.sameAs d = false

theorem advance_of_closedTo (h : bits.isSome → s.ClosedTo d) :
    s.advance p packed bits d = Front.advance p packed bits d { cursor := s.cursor } := by
  cases bits with
  | none => rfl
  | some width =>
    have hroom : s.room? p width d = none := by
      cases hr : s.room? p width d with
      | none => rfl
      | some start =>
        obtain ⟨e, used, hu, hsame, _⟩ := room?_eq_some.mp hr
        rw [h rfl e used hu] at hsame
        cases hsame
    unfold advance
    dsimp only
    rw [hroom]
    rfl

theorem advance_unit (h : (s.advance p packed bits d).unit = some (e, used)) :
    bits.isSome ∧ e = d := by
  unfold advance at h
  cases bits with
  | none => cases h
  | some width =>
    dsimp only at h
    split at h <;> cases h <;> exact ⟨rfl, rfl⟩

def along (p : MachineProfile Int) (g : Member Int → TypeDescriptor Int)
    (members : List (Member Int)) (s : Front) : Front :=
  members.foldl (fun s m => s.advance p true m.bits (g m)) s

def bytes (p : MachineProfile Int) (g : Member Int → TypeDescriptor Int)
    (members : List (Member Int)) : Int :=
  (Front.along p g members { cursor := 0 }).cursor

theorem along_append (others : List (Member Int)) :
    s.along p g (members ++ others) = (s.along p g members).along p g others := List.foldl_append

theorem along_shift : (s.shift k).along p g members = (s.along p g members).shift k := by
  induction members generalizing s with
  | nil => rfl
  | cons m rest ih =>
    change ((s.shift k).advance p true m.bits (g m)).along p g rest = _
    rw [advance_shift (one_dvd k), ih]
    rfl

theorem along_of_closedTo (h : m.bits.isSome → s.ClosedTo (g m)) :
    (s.along p g (m :: members)).cursor = s.cursor + bytes p g (m :: members) := by
  have start : s.advance p true m.bits (g m) =
      Front.advance p true m.bits (g m) (shift s.cursor { cursor := 0 }) := by
    rw [advance_of_closedTo h, shift, zero_add]
  change ((s.advance p true m.bits (g m)).along p g members).cursor = _
  rw [start]
  change (along p g (m :: members) (shift s.cursor { cursor := 0 })).cursor = _
  rw [along_shift, add_comm]
  rfl

theorem along_unit (hmembers : members ≠ [])
    (h : (s.along p g members).unit = some (e, used)) :
    (members.getLast hmembers).bits.isSome ∧ e = g (members.getLast hmembers) := by
  rw [← List.dropLast_append_getLast hmembers, along_append] at h
  exact advance_unit h

theorem along_flatten {joins : Member Int → Member Int → Bool} {runs : List (List (Member Int))}
    (hruns : [] ∉ runs)
    (hchain : runs.IsChain fun r r' => ∃ hr hr', joins (r.getLast hr) (r'.head hr') = false)
    (hjoins : ∀ m ∈ runs.flatten, ∀ n ∈ runs.flatten, joins m n = false →
      m.bits.isSome → n.bits.isSome → (g m).sameAs (g n) = false)
    (hs : ∀ m ∈ runs.flatten.head?, m.bits.isSome → s.ClosedTo (g m)) :
    (s.along p g runs.flatten).cursor = s.cursor + (runs.map (bytes p g)).sum := by
  induction runs generalizing s with
  | nil => exact (add_zero _).symm
  | cons r rest ih =>
    obtain ⟨hr, hrest⟩ := List.ne_and_not_mem_of_not_mem_cons hruns
    obtain ⟨m, tail, rfl⟩ := List.exists_cons_of_ne_nil (Ne.symm hr)
    rw [List.flatten_cons, along_append, ih hrest hchain.tail, List.map_cons, List.sum_cons,
      along_of_closedTo (hs m rfl), add_assoc]
    · intro x hx y hy
      exact hjoins x (List.mem_append_right _ hx) y (List.mem_append_right _ hy)
    · intro n hn hbits e used hu
      cases rest with
      | nil => cases hn
      | cons r' others =>
        obtain ⟨⟨hlast, hhead, hfalse⟩, _⟩ := List.isChain_cons_cons.mp hchain
        obtain ⟨hfield, rfl⟩ := along_unit hlast hu
        obtain ⟨n', tail', rfl⟩ := List.exists_cons_of_ne_nil hhead
        obtain rfl := Option.some.inj hn
        refine hjoins _ ?_ _ ?_ hfalse hfield hbits
        · exact List.mem_append_left _ (List.getLast_mem hlast)
        · exact List.mem_append_right _ (.head _)

theorem bytes_splitBy {joins : Member Int → Member Int → Bool}
    (hjoins : ∀ m ∈ members, ∀ n ∈ members, joins m n = false →
      m.bits.isSome → n.bits.isSome → (g m).sameAs (g n) = false) :
    bytes p g members = ((members.splitBy joins).map (bytes p g)).sum := by
  have hruns := along_flatten (p := p) (s := { cursor := 0 })
    (List.nil_notMem_splitBy joins members) (List.isChain_getLast_head_splitBy joins members)
    (by rwa [List.flatten_splitBy]) (fun _ _ _ _ _ hu => (nomatch hu))
  rwa [List.flatten_splitBy, zero_add] at hruns

end Front

theorem Layout.totalSize_packed {p : MachineProfile Int} {a : Aggregate Int} {l : Layout Int}
    {typed : List (Member Int × TypeDescriptor Int)} {g : Member Int → TypeDescriptor Int}
    (hg : ∀ x ∈ typed, x.2.plain = g x.1) (ha : a.kind = .struct) (hpacked : a.packed = true)
    (h : ofTypes p a typed = .ok l) : l.totalSize = Front.bytes p g (typed.map Prod.fst) := by
  have hfields : (typed.map fun x => (x.1.bits, x.2.plain)) =
      (typed.map Prod.fst).map fun m => (m.bits, g m) := by
    rw [List.map_map]
    apply List.map_congr_left
    intro x hx
    rw [hg x hx]
    rfl
  have hone : l.totalAlignment = .one := by
    rw [totalAlignment_ofTypes ha h, if_pos hpacked]
  rw [totalSize_advance ha h, hone, roundUp_one, hpacked, hfields, List.foldl_map]
  rfl

namespace Target

def joins (t : Target Int) (m n : Member Int) : Bool :=
  m.isBitfield && n.isBitfield &&
    match t.flat? m.type, t.flat? n.type with
    | some d, some e => d.sameAs e
    | _, _ => false

def fieldRuns (t : Target Int) (members : List (Member Int)) : List (List (Member Int)) :=
  members.splitBy t.joins

variable {t : Target Int} {a a' : Aggregate Int} {l l' : Layout Int} {m n : Member Int}
  {members : List (Member Int)} {g : Member Int → TypeDescriptor Int}

theorem joins_plain (h : m.isBitfield = false) : t.joins m n = false := by
  simp [joins, h]

theorem fieldRuns_plain (h : ∀ m ∈ members, m.isBitfield = false) :
    t.fieldRuns members = members.map fun m => [m] := by
  refine List.splitBy_eq_iff.mpr ⟨?_, by simp, ?_, ?_⟩
  · rw [← List.flatMap_def, List.flatMap_singleton']
  · intro r hr
    obtain ⟨m, _, rfl⟩ := List.mem_map.mp hr
    exact .singleton m
  · rw [List.isChain_map]
    refine (List.pairwise_of_forall_mem_list fun m hm n _ => ?_).isChain
    exact ⟨List.cons_ne_nil _ _, List.cons_ne_nil _ _, joins_plain (h m hm)⟩

theorem Types.exists_flat {d : TypeDescriptor Int} (h : t.Types m d) (fits : m.Fits d)
    (hbits : m.bits.isSome) : ∃ f, t.flat? m.type = some f ∧ f.plain = d.plain := by
  obtain ⟨width, hwidth⟩ := Option.isSome_iff_exists.mp hbits
  obtain ⟨f, hf, hfits⟩ := h.bitfield (fits width hwidth)
  exact ⟨f, hf, Types.unique (.flat hf rfl (withDims_nil hfits.single)) h⟩

theorem sameAs_of_joins {typed : List (Member Int × TypeDescriptor Int)}
    (hg : ∀ m d, t.Types m d → d.plain = g m) (htyped : ∀ x ∈ typed, t.Types x.1 x.2)
    (hfits : ∀ x ∈ typed, x.1.Fits x.2) (hm : m ∈ typed.map Prod.fst)
    (hn : n ∈ typed.map Prod.fst) (h : t.joins m n = false) (hmbits : m.bits.isSome)
    (hnbits : n.bits.isSome) : (g m).sameAs (g n) = false := by
  have flat {m : Member Int} (hm : m ∈ typed.map Prod.fst) (hbits : m.bits.isSome) :
      ∃ f, t.flat? m.type = some f ∧ f.plain = g m := by
    obtain ⟨x, hx, rfl⟩ := List.mem_map.mp hm
    rw [← hg x.1 x.2 (htyped x hx)]
    exact (htyped x hx).exists_flat (hfits x hx) hbits
  obtain ⟨f, hf, hfm⟩ := flat hm hmbits
  obtain ⟨e, he, hen⟩ := flat hn hnbits
  rw [← hfm, ← hen, TypeDescriptor.sameAs_plain]
  simpa [joins, Member.isBitfield, hmbits, hnbits, hf, he] using h

theorem Lays.totalSize_runs (hg : ∀ m d, t.Types m d → d.plain = g m) (ha : a.kind = .struct)
    (hpacked : a.packed = true) (h : t.Lays a l) :
    l.totalSize = ((t.fieldRuns a.members).map (Front.bytes t.profile g)).sum := by
  obtain ⟨_, typed, hm, htyped, hl⟩ := h
  have hfits := Layout.exists_ofTypes_iff.mp ⟨l, hl⟩
  rw [Layout.totalSize_packed (fun x hx => hg x.1 x.2 (htyped x hx)) ha hpacked hl, ← hm]
  exact Front.bytes_splitBy fun m hm n hn => sameAs_of_joins hg htyped hfits hm hn

end Target

theorem Layout.totalSize_ofUnion {p : MachineProfile Int} {a : Aggregate Int} {l : Layout Int}
    {typed : List (Member Int × TypeDescriptor Int)} (ha : a.kind = .union)
    (h : ofTypes p a typed = .ok l) :
    l.totalSize = roundUp ((typed.map (·.2.size.val)).foldl max 0)
      (if a.packed then .one else (typed.map (·.2.alignment)).foldl PowerOfTwo.max .one) := by
  obtain ⟨placements, hs, rfl⟩ := ofTypes_union ha h
  have hholds : List.Forall₂ (fun x (q : Placement Int) => q.Holds x.1 x.2) typed placements :=
    (mapM_eq_ok.mp hs).imp fun x q hq => (overlay_holds hq).1
  have hsizes : placements.map (·.size.val) = typed.map (·.2.size.val) := by
    rw [← List.forall₂_eq_eq_eq, List.forall₂_map_left_iff, List.forall₂_map_right_iff]
    exact hholds.flip.imp fun q x hq => congrArg Size.val hq.size
  have halignments : placements.map (·.alignment) = typed.map (·.2.alignment) := by
    rw [← List.forall₂_eq_eq_eq, List.forall₂_map_left_iff, List.forall₂_map_right_iff]
    exact hholds.flip.imp fun q x hq => hq.alignment
  rw [totalSize_finishUnion, hsizes, ← halignments]
  have hlarger : (Measure.larger : Int → Int → Int) = max := funext₂ Measure.larger_int
  rw [hlarger]
  rfl

theorem Target.Lays.totalSize_union {t : Target Int} {a a' : Aggregate Int} {l l' : Layout Int}
    (h : t.Lays a l) (h' : t.Lays a' l') (ha : a.kind = .union) (ha' : a'.kind = .union)
    (hpacked : a.packed = a'.packed) (hp : a.members.Perm a'.members) :
    l.totalSize = l'.totalSize := by
  obtain ⟨_, typed, hm, htyped, hl⟩ := h
  obtain ⟨_, typed', hm', htyped', hl'⟩ := h'
  have perm := bareTyped_perm (hm ▸ hm' ▸ hp) htyped htyped'
  have sizes := perm.map (·.2.size.val)
  simp only [List.map_map, Function.comp_def, bareTyped, TypeDescriptor.size_plain] at sizes
  rw [Layout.totalSize_ofUnion ha hl, Layout.totalSize_ofUnion ha' hl', sizes.foldl_eq, hpacked]
  apply roundUp_congr
  split
  · rfl
  · exact alignments_perm perm

theorem layout_size_perm (t : Target Int) (a : Aggregate Int) (members : List (Member Int))
    (l l' : Layout Int) (ha : a.hasFixedSize = true) (hp : members.Perm a.members)
    (hruns : a.isUnion = true ∨ (∀ m ∈ a.members, m.isBitfield = false) ∨
      (t.fieldRuns members).Perm (t.fieldRuns a.members))
    (h : t.layout a = .ok l) (h' : t.layout { a with members } = .ok l') :
    l'.totalSize = l.totalSize := by
  have laid := Target.lays_of_layout h
  have laid' := Target.lays_of_layout h'
  cases hkind : a.kind with
  | union => exact laid'.totalSize_union laid hkind hkind rfl hp
  | struct =>
    have hunion : a.isUnion = false := by simp [Aggregate.isUnion, hkind]
    have hpacked : a.packed = true := by simpa [Aggregate.hasFixedSize, hunion] using ha
    have perm : (t.fieldRuns members).Perm (t.fieldRuns a.members) := by
      rcases hruns with hunion' | hplain | hruns
      · exact absurd (hunion.symm.trans hunion') Bool.false_ne_true
      · rw [Target.fieldRuns_plain hplain,
          Target.fieldRuns_plain fun m hm => hplain m (hp.subset hm)]
        exact hp.map _
      · exact hruns
    obtain ⟨g, hg⟩ := t.exists_type
    rw [laid.totalSize_runs hg hkind hpacked,
      Target.Lays.totalSize_runs (a := { a with members }) hg hkind hpacked laid']
    exact (perm.map _).sum_eq

def firstBit : Member Int where
  name := "a"
  type := .descriptor (integer .four)
  bits := some 1

def secondBit : Member Int where
  name := "b"
  type := .descriptor (integer .four)
  bits := some 1

def plainByte : Member Int where
  name := "c"
  type := .descriptor (integer .one)

def bitsAndByte : Aggregate Int where
  name := "packed"
  packed := true
  members := [firstBit, secondBit, plainByte]

theorem layout_size_perm_bitsAndByte : ∃ l l' : Layout Int,
    (Target.ofProfile .lp64).layout bitsAndByte = .ok l ∧
    (Target.ofProfile .lp64).layout
      { bitsAndByte with members := [plainByte, firstBit, secondBit] } = .ok l' ∧
    l'.totalSize = l.totalSize := by
  have perm : [plainByte, firstBit, secondBit].Perm bitsAndByte.members :=
    (List.Perm.swap firstBit plainByte _).trans (.cons _ (.swap secondBit plainByte []))
  have runs : ((Target.ofProfile .lp64).fieldRuns [plainByte, firstBit, secondBit]).Perm
      ((Target.ofProfile .lp64).fieldRuns bitsAndByte.members) :=
    .swap [firstBit, secondBit] [plainByte] []
  exact ⟨_, _, rfl, rfl, layout_size_perm (.ofProfile .lp64) bitsAndByte _ _ _ rfl perm
    (.inr (.inr runs)) rfl rfl⟩

theorem layout_size_differs_bitsAndByte : ∃ l l' : Layout Int,
    [firstBit, plainByte, secondBit].Perm bitsAndByte.members ∧ bitsAndByte.packed = true ∧
    (Target.ofProfile .lp64).layout bitsAndByte = .ok l ∧
    (Target.ofProfile .lp64).layout
      { bitsAndByte with members := [firstBit, plainByte, secondBit] } = .ok l' ∧
    l.totalSize = 5 ∧ l'.totalSize = 9 :=
  ⟨_, _, .cons _ (.swap secondBit plainByte []), rfl, rfl, rfl, rfl, rfl⟩

end AggregateLayout
