import Mathlib
import AggregateLayout.Proofs.Placements

/-!
A struct from its first byte to its last. It is a row of blocks, each of which starts where the one
before it ends: plain members, filler, and storage units with their fields and the bits between them
that no field has. A member either starts a block behind all others, or it goes into the unit that
is open, which is the last block.
-/

namespace AggregateLayout

/-- A part of a struct that has its bytes to itself. -/
inductive Block
  | plain (q : Placement Int)
  | filler (offset length : Int)
  | unit (start size : Int) (fields : List (Placement Int)) (rest : List (Padding Int))

namespace Block

def start : Block → Int
  | plain q => q.offset
  | filler offset _ => offset
  | unit start _ _ _ => start

def size : Block → Int
  | plain q => q.size.val
  | filler _ length => length
  | unit _ size _ _ => size

def placements : Block → List (Placement Int)
  | plain q => [q]
  | filler _ _ => []
  | unit _ _ fields _ => fields

def padding : Block → List (Padding Int)
  | plain _ => []
  | filler offset length => [.bytes offset length]
  | unit _ _ _ rest => rest

structure Field (start size : Int) (q : Placement Int) : Prop where
  bits : q.bits.isSome
  offset : q.offset = start
  size : q.size.val = size

inductive Sound : Block → Prop
  | plain {q : Placement Int} (hbits : q.bits = none) : Sound (.plain q)
  | filler {offset length : Int} (hlength : 0 < length) : Sound (.filler offset length)
  | unit {start size : Int} {fields : List (Placement Int)} {rest : List (Padding Int)}
    (hsize : 0 < size) (hnonempty : fields ≠ []) (hfields : ∀ q ∈ fields, Field start size q)
    (hrest : ∀ r ∈ rest, ∃ bitOffset length, r = .bits start bitOffset length) :
    Sound (.unit start size fields rest)

def isFiller : Block → Bool
  | filler _ _ => true
  | _ => false

variable {b : Block} {q : Placement Int} {r : Padding Int}

theorem Sound.size_nonneg (h : b.Sound) : 0 ≤ b.size := by
  cases h with
  | plain => exact Size.val_nonneg _
  | filler hlength => exact hlength.le
  | unit hsize => exact hsize.le

theorem Sound.offset_placement (h : b.Sound) (hq : q ∈ b.placements) : q.offset = b.start := by
  cases h with
  | plain => rw [List.mem_singleton.mp hq]; rfl
  | filler => cases hq
  | unit _ _ hfields => exact (hfields q hq).offset

theorem Sound.offset_padding (h : b.Sound) (hr : r ∈ b.padding) :
    r.offset = b.start ∧ 0 < b.size := by
  cases h with
  | plain => cases hr
  | filler hlength =>
    obtain rfl := List.mem_singleton.mp hr
    exact ⟨rfl, hlength⟩
  | unit hsize _ _ hrest =>
    obtain ⟨_, _, rfl⟩ := hrest r hr
    exact ⟨rfl, hsize⟩

end Block

inductive Abut : Int → List Block → Int → Prop
  | nil (cursor : Int) : Abut cursor [] cursor
  | cons {cursor stop : Int} {b : Block} {bs : List Block} (hstart : b.start = cursor)
    (hrest : Abut (cursor + b.size) bs stop) : Abut cursor (b :: bs) stop

namespace Abut

variable {cursor middle stop : Int} {b b' : Block} {bs bs' : List Block}

theorem append (h : Abut cursor bs middle) (h' : Abut middle bs' stop) :
    Abut cursor (bs ++ bs') stop := by
  induction h with
  | nil => exact h'
  | cons hstart _ ih => exact .cons hstart (ih h')

theorem push (h : Abut cursor bs b.start) : Abut cursor (bs ++ [b]) (b.start + b.size) :=
  h.append (.cons rfl (.nil _))

theorem amend (h : Abut cursor (bs ++ [b]) stop) (hstart : b'.start = b.start)
    (hsize : b'.size = b.size) : Abut cursor (bs ++ [b']) stop := by
  induction bs generalizing cursor with
  | nil =>
    cases h with
    | cons hb hrest => exact .cons (hstart.trans hb) (hsize ▸ hrest)
  | cons c rest ih =>
    cases h with
    | cons hc hrest => exact .cons hc (ih hrest)

theorem le_start (h : Abut cursor bs stop) (hsound : ∀ b ∈ bs, b.Sound) :
    ∀ b ∈ bs, cursor ≤ b.start := by
  induction h with
  | nil => exact fun b hb => (nomatch hb)
  | cons hstart _ ih =>
    rw [List.forall_mem_cons] at hsound
    have hnonneg := hsound.1.size_nonneg
    refine List.forall_mem_cons.mpr ⟨hstart.ge, fun c hc => ?_⟩
    have hlater := ih hsound.2 c hc
    omega

theorem pairwise (h : Abut cursor bs stop) (hsound : ∀ b ∈ bs, b.Sound) :
    bs.Pairwise fun b c => b.start + b.size ≤ c.start := by
  induction h with
  | nil => exact .nil
  | cons hstart hrest ih =>
    rw [List.forall_mem_cons] at hsound
    exact .cons (fun c hc => hstart ▸ hrest.le_start hsound.2 c hc) (ih hsound.2)

end Abut

variable {p : MachineProfile Int} {packed : Bool} {m : Member Int} {d : TypeDescriptor Int}

namespace Placer

/-- The blocks hold the members and the padding so far, and end at the cursor. An open unit is the
last of them. In a packed struct there is no filler. -/
structure Reads (packed : Bool) (s : Placer Int) (qs : List (Placement Int)) (bs : List Block) :
    Prop where
  sound : ∀ b ∈ bs, b.Sound
  abut : Abut 0 bs s.cursor
  placements : bs.flatMap Block.placements = qs
  padding : bs.flatMap Block.padding = s.padding
  opened : ∀ u, s.unit = some u →
    ∃ earlier fields rest, bs = earlier ++ [.unit s.unitStart u.type.size.val fields rest]
  snug : packed = true → ∀ b ∈ bs, b.isFiller = false

namespace Reads

variable {s s' : Placer Int} {qs : List (Placement Int)} {bs : List Block} {q : Placement Int}

theorem start : Reads packed {} [] [] where
  sound _ hb := nomatch hb
  abut := .nil 0
  placements := rfl
  padding := rfl
  opened _ hu := nomatch hu
  snug _ _ hb := nomatch hb

theorem push {b : Block} (h : s.Reads packed qs bs) (hb : b.Sound) (hstart : b.start = s.cursor)
    (hsnug : packed = true → b.isFiller = false) (hcursor : s'.cursor = s.cursor + b.size)
    (hpadding : s'.padding = s.padding ++ b.padding)
    (hopened : ∀ u, s'.unit = some u →
      ∃ fields rest, b = .unit s'.unitStart u.type.size.val fields rest) :
    s'.Reads packed (qs ++ b.placements) (bs ++ [b]) where
  sound := List.forall_mem_append.mpr ⟨h.sound, List.forall_mem_singleton.mpr hb⟩
  abut := by
    rw [hcursor, ← hstart]
    exact (hstart ▸ h.abut).push
  placements := by rw [List.flatMap_append, h.placements, List.flatMap_singleton]
  padding := by rw [List.flatMap_append, h.padding, List.flatMap_singleton, hpadding]
  opened u hu := by
    obtain ⟨fields, rest, hb⟩ := hopened u hu
    exact ⟨bs, fields, rest, by rw [hb]⟩
  snug hpacked := List.forall_mem_append.mpr
    ⟨h.snug hpacked, List.forall_mem_singleton.mpr (hsnug hpacked)⟩

theorem amend {u : StorageUnit Int} {more : List (Placement Int)} {left : List (Padding Int)}
    (h : s.Reads packed qs bs) (hu : s.unit = some u)
    (hmore : ∀ q ∈ more, Block.Field s.unitStart u.type.size.val q)
    (hleft : ∀ r ∈ left, ∃ bitOffset length, r = .bits s.unitStart bitOffset length)
    (hcursor : s'.cursor = s.cursor) (hpadding : s'.padding = s.padding ++ left)
    (hopened : ∀ v, s'.unit = some v →
      s'.unitStart = s.unitStart ∧ v.type.size.val = u.type.size.val) :
    ∃ bs', s'.Reads packed (qs ++ more) bs' := by
  obtain ⟨earlier, fields, rest, rfl⟩ := h.opened u hu
  obtain ⟨hearlier, hlast⟩ := List.forall_mem_append.mp h.sound
  obtain ⟨hsnug, _⟩ := forall_and.mp fun hpacked => List.forall_mem_append.mp (h.snug hpacked)
  have hplacements := h.placements
  have hpads := h.padding
  rw [List.flatMap_append, List.flatMap_singleton] at hplacements hpads
  refine ⟨earlier ++ [.unit s.unitStart u.type.size.val (fields ++ more) (rest ++ left)],
    ?_, ?_, ?_, ?_, fun v hv => ?_, fun hpacked => ?_⟩
  · refine List.forall_mem_append.mpr ⟨hearlier, List.forall_mem_singleton.mpr ?_⟩
    cases List.forall_mem_singleton.mp hlast with
    | unit hsize hnonempty hfields hrest =>
      exact .unit hsize (List.append_ne_nil_of_left_ne_nil hnonempty _)
        (List.forall_mem_append.mpr ⟨hfields, hmore⟩) (List.forall_mem_append.mpr ⟨hrest, hleft⟩)
  · rw [hcursor]
    exact h.abut.amend rfl rfl
  · rw [List.flatMap_append, List.flatMap_singleton, ← hplacements, List.append_assoc]
    rfl
  · rw [List.flatMap_append, List.flatMap_singleton, hpadding, ← hpads, List.append_assoc]
    rfl
  · obtain ⟨hstart, hsize⟩ := hopened v hv
    exact ⟨earlier, _, _, by rw [hstart, hsize]⟩
  · exact List.forall_mem_append.mpr ⟨hsnug hpacked, List.forall_mem_singleton.mpr rfl⟩

theorem close (h : s.Reads packed qs bs) : ∃ bs', (s.close p).Reads packed qs bs' := by
  unfold Placer.close
  cases hu : s.unit with
  | none => exact ⟨bs, h⟩
  | some u =>
    dsimp only
    rw [← List.append_nil qs]
    refine h.amend hu (List.forall_mem_nil _) (fun r hr => ?_) rfl rfl fun _ hv => (nomatch hv)
    split at hr
    · exact ⟨_, _, List.mem_singleton.mp hr⟩
    · cases hr

theorem closeUnless (h : s.Reads packed qs bs) (test : StorageUnit Int → Bool) :
    ∃ bs', (s.closeUnless p test).Reads packed qs bs' := by
  unfold Placer.closeUnless
  split
  · exact ⟨bs, h⟩
  · split
    · exact ⟨bs, h⟩
    · exact h.close

theorem restart (h : s.Reads packed qs bs) (width : Int) :
    ∃ bs', (s.restart p width).Reads packed qs bs' := by
  unfold Placer.restart
  cases hu : s.unit with
  | none => exact ⟨bs, h⟩
  | some u =>
    dsimp only
    split
    · exact ⟨bs, h⟩
    · split
      · rw [← List.append_nil qs]
        refine h.amend hu (List.forall_mem_nil _) (fun r hr => ?_) rfl rfl ?_
        · exact ⟨_, _, List.mem_singleton.mp hr⟩
        · rintro _ ⟨⟩
          exact ⟨rfl, rfl⟩
      · exact ⟨bs, h⟩

theorem ready (h : s.Reads packed qs bs) (d : TypeDescriptor Int) (width : Int) :
    ∃ bs', (s.ready p d width).Reads packed qs bs' := by
  obtain ⟨_, h⟩ := h.closeUnless (p := p) (·.type.sameAs d)
  obtain ⟨_, h⟩ := h.restart (p := p) width
  exact h.closeUnless _

theorem align (h : s.Reads packed qs bs) (hu : s.unit = none) (a : PowerOfTwo)
    (ha : packed = true → a = .one) : ∃ bs', (s.align a).Reads packed qs bs' := by
  have hle := le_roundUp s.cursor a
  unfold Placer.align
  dsimp only
  split
  · next hlt =>
    have hlength : 0 < roundUp s.cursor a - s.cursor := sub_pos.mpr hlt
    refine ⟨_, List.append_nil qs ▸ h.push (.filler hlength) rfl (fun hpacked => ?_) ?_ rfl ?_⟩
    · rw [ha hpacked, roundUp_one] at hlt
      exact absurd hlt (lt_irrefl _)
    · exact (add_sub_cancel _ _).symm
    · exact fun u hv => (nomatch hu.symm.trans hv)
  · next hlt =>
    have hstay : roundUp s.cursor a = s.cursor := by omega
    rw [hstay]
    exact ⟨bs, h⟩

theorem align_member (h : s.Reads packed qs bs) (hu : s.unit = none) (d : TypeDescriptor Int) :
    ∃ bs', (s.align (alignmentOf packed d)).Reads packed qs bs' := by
  refine h.align hu _ fun hpacked => ?_
  rw [alignmentOf, if_pos hpacked]

theorem placePlain (h : s.Reads packed qs bs) (hs : s.placePlain p packed m d = (q, s')) :
    ∃ bs', s'.Reads packed (qs ++ [q]) bs' := by
  obtain ⟨_, h⟩ := h.close (p := p)
  obtain ⟨_, h⟩ := h.align_member (close_unit p s) d
  have hunit := (align_unit (s.close p) (alignmentOf packed d)).trans (close_unit p s)
  obtain ⟨rfl, rfl⟩ := Prod.mk.inj hs
  refine ⟨_, h.push (.plain rfl) rfl (fun _ => rfl) rfl (List.append_nil _).symm ?_⟩
  exact fun u hu => (nomatch hunit.symm.trans hu)

theorem takeBits {width : Int} (h : s.Reads packed qs bs) (hsize : 0 < d.size.val)
    (hopen : ∀ u, s.unit = some u → d.size = u.type.size)
    (hs : s.takeBits p packed m width d = (q, s')) : ∃ bs', s'.Reads packed (qs ++ [q]) bs' := by
  unfold Placer.takeBits at hs
  cases hu : s.unit with
  | some u =>
    rw [hu] at hs
    obtain ⟨rfl, rfl⟩ := Prod.mk.inj hs
    refine h.amend hu (List.forall_mem_singleton.mpr ?_) (List.forall_mem_nil _) rfl
      (List.append_nil _).symm ?_
    · exact ⟨rfl, rfl, congrArg Size.val (hopen u hu)⟩
    · rintro _ ⟨⟩
      exact ⟨rfl, rfl⟩
  | none =>
    obtain ⟨_, h⟩ := h.align_member hu d
    rw [hu] at hs
    obtain ⟨hq, rfl⟩ := Prod.mk.inj hs
    have field : Block.Field (s.align (alignmentOf packed d)).cursor d.size.val q := by
      rw [← hq]
      exact ⟨rfl, rfl, rfl⟩
    have sound := Block.Sound.unit hsize (List.cons_ne_nil q [])
      (List.forall_mem_singleton.mpr field) (List.forall_mem_nil _)
    refine ⟨_, h.push sound rfl (fun _ => rfl) rfl (List.append_nil _).symm ?_⟩
    rintro _ ⟨⟩
    exact ⟨_, _, rfl⟩

theorem place (h : s.Reads packed qs bs) (hs : s.place p packed m d = .ok (q, s')) :
    ∃ bs', s'.Reads packed (qs ++ [q]) bs' := by
  rcases place_eq_ok.mp hs with ⟨_, hs⟩ | ⟨width, _, fits, hs⟩
  · exact h.placePlain hs
  · obtain ⟨_, h⟩ := h.ready (p := p) d width
    refine h.takeBits fits.size_pos (fun u hu => ?_) hs
    obtain ⟨_, _, _, htype, hsame⟩ := unit_ready hu
    exact (htype ▸ TypeDescriptor.size_of_plain_eq hsame).symm

end Reads

end Placer

/-- The blocks hold the members and the padding of a layout from its first byte to its last. -/
structure Layout.Reads (l : Layout Int) (bs : List Block) : Prop where
  sound : ∀ b ∈ bs, b.Sound
  abut : Abut 0 bs l.totalSize
  placements : bs.flatMap Block.placements = l.placements
  padding : bs.flatMap Block.padding = l.padding
  snug : l.packed = true → ∀ b ∈ bs, b.isFiller = false

theorem PartialStruct.reads_foldlM {typed : List (Member Int × TypeDescriptor Int)}
    {s s' : PartialStruct Int}
    (h : ∃ bs, s.placer.Reads packed s.placements.reverse bs)
    (hs : typed.foldlM (fun (s : PartialStruct Int) x => s.add p packed x.1 x.2) s = .ok s') :
    ∃ bs, s'.placer.Reads packed s'.placements.reverse bs := by
  apply foldlM_invariant (P := fun s : PartialStruct Int =>
    ∃ bs, s.placer.Reads packed s.placements.reverse bs) _ h hs
  rintro x s s' ⟨bs, h⟩ hx
  obtain ⟨q, placer, hplace, rfl⟩ := add_eq_ok.mp hx
  rw [List.reverse_cons]
  exact h.place hplace

theorem Layout.exists_reads {a : Aggregate Int} {l : Layout Int}
    {typed : List (Member Int × TypeDescriptor Int)} (ha : a.kind = .struct)
    (h : ofTypes p a typed = .ok l) : ∃ bs, l.Reads bs := by
  obtain ⟨s, hs, rfl⟩ := ofTypes_struct ha h
  obtain ⟨_, h⟩ := PartialStruct.reads_foldlM ⟨[], .start⟩ hs
  obtain ⟨_, h⟩ := h.close (p := p)
  obtain ⟨bs, h⟩ := h.align (Placer.close_unit p s.placer) (if a.packed then .one else s.alignment)
    fun hpacked => if_pos hpacked
  exact ⟨bs, h.sound, h.abut, h.placements, h.padding, h.snug⟩

end AggregateLayout
