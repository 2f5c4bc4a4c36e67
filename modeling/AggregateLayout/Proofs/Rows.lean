import Mathlib
import AggregateLayout.Proofs.Blocks
import AggregateLayout.Report

namespace AggregateLayout

section Sorting

variable {α : Type} {le : α → α → Bool} {xs ys : List α}

def alike (le : α → α → Bool) (x y : α) : Bool := le x y && le y x

theorem mem_of_filter_alike (refl : ∀ x, le x x = true) {x : α} (hx : x ∈ xs)
    (h : xs.filter (alike le x) = ys.filter (alike le x)) : x ∈ ys := by
  have hself : alike le x x = true := by rw [alike, refl, Bool.and_self]
  have hmem := List.mem_filter.mpr ⟨hx, hself⟩
  rw [h] at hmem
  exact (List.mem_filter.mp hmem).1

theorem eq_of_filter_alike (refl : ∀ x, le x x = true) (hxs : xs.Pairwise (le · ·))
    (hys : ys.Pairwise (le · ·))
    (h : ∀ x, xs.filter (alike le x) = ys.filter (alike le x)) : xs = ys := by
  induction xs generalizing ys with
  | nil =>
    refine (List.eq_nil_iff_forall_not_mem.mpr fun y hy => ?_).symm
    exact List.not_mem_nil (mem_of_filter_alike refl hy (h y).symm)
  | cons x xs ih =>
    cases ys with
    | nil => exact absurd (mem_of_filter_alike refl (.head _) (h x)) List.not_mem_nil
    | cons y ys =>
      have hxy : le x y = true := by
        rcases List.mem_cons.mp (mem_of_filter_alike refl (.head _) (h y).symm) with rfl | hy
        · exact refl y
        · exact List.rel_of_pairwise_cons hxs hy
      have hyx : le y x = true := by
        rcases List.mem_cons.mp (mem_of_filter_alike refl (.head _) (h x)) with rfl | hx
        · exact refl x
        · exact List.rel_of_pairwise_cons hys hx
      have hfirst := h x
      rw [List.filter_cons_of_pos (by rw [alike, refl, Bool.and_self]),
        List.filter_cons_of_pos (by rw [alike, hxy, hyx, Bool.and_self])] at hfirst
      obtain rfl := (List.cons.inj hfirst).1
      refine congrArg (x :: ·) (ih hxs.tail hys.tail fun z => ?_)
      have hz := h z
      rw [List.filter_cons, List.filter_cons] at hz
      split at hz
      · exact (List.cons.inj hz).2
      · exact hz

theorem filter_alike_mergeSort (trans : ∀ x y z, le x y = true → le y z = true → le x z = true)
    (total : ∀ x y, (le x y || le y x) = true) (x : α) :
    (xs.mergeSort le).filter (alike le x) = xs.filter (alike le x) := by
  have hsorted : (xs.filter (alike le x)).Pairwise (le · ·) := by
    refine List.pairwise_filter.mpr (List.pairwise_of_forall fun y z hy hz => ?_)
    rw [alike, Bool.and_eq_true] at hy hz
    exact trans y x z hy.2 hz.1
  have hsublist := (List.sublist_mergeSort trans total hsorted List.filter_sublist).filter
    (alike le x)
  simp only [List.filter_filter, Bool.and_self] at hsublist
  exact (hsublist.eq_of_length ((List.mergeSort_perm xs le).filter _).length_eq.symm).symm

theorem mergeSort_eq_of_filter_alike
    (trans : ∀ x y z, le x y = true → le y z = true → le x z = true)
    (total : ∀ x y, (le x y || le y x) = true) (hys : ys.Pairwise (le · ·))
    (h : ∀ x, ys.filter (alike le x) = xs.filter (alike le x)) : xs.mergeSort le = ys := by
  refine eq_of_filter_alike (fun x => by simpa using total x x)
    (List.pairwise_mergeSort trans total xs) hys fun x => ?_
  rw [filter_alike_mergeSort trans total, h]

end Sorting

namespace ReportRow

variable {r s t : ReportRow Int} {q : Placement Int} {x : Padding Int}

def Last (r : ReportRow Int) : Prop := r.name = none ∧ r.bitOffset = none

theorem precedes_iff : r.precedes s = true ↔
    r.offset < s.offset ∨ r.offset = s.offset ∧ (r.Last → s.Last) := by
  have hlast (r : ReportRow Int) : (r.isPadding && r.bitOffset.isNone) = true ↔ r.Last := by
    rw [Bool.and_eq_true, isPadding, Option.isNone_iff_eq_none, Option.isNone_iff_eq_none]
    rfl
  have hsame : (r.offset == s.offset) = true ↔ r.offset = s.offset := beq_iff_eq
  unfold precedes
  dsimp only
  split
  · next h =>
    rw [hsame] at h
    rw [Bool.or_eq_true, Bool.not_eq_true', ← Bool.not_eq_true, hlast, hlast, ← imp_iff_not_or, h]
    simp
  · next h =>
    rw [hsame] at h
    rw [Bool.not_eq_true', decide_eq_false_iff_not, not_lt]
    refine ⟨fun hle => .inl (lt_of_le_of_ne hle h), fun hor => ?_⟩
    exact hor.elim le_of_lt fun hor => absurd hor.1 h

theorem precedes_trans (h : r.precedes s = true) (h' : s.precedes t = true) :
    r.precedes t = true := by
  rw [precedes_iff] at *
  rcases h with h | ⟨h, hlast⟩ <;> rcases h' with h' | ⟨h', hlast'⟩
  · exact .inl (h.trans h')
  · exact .inl (h.trans_eq h')
  · exact .inl (h.trans_lt h')
  · exact .inr ⟨h.trans h', fun hr => hlast' (hlast hr)⟩

theorem precedes_total (r s : ReportRow Int) : (r.precedes s || s.precedes r) = true := by
  rw [Bool.or_eq_true, precedes_iff, precedes_iff]
  rcases lt_trichotomy r.offset s.offset with h | h | h
  · exact .inl (.inl h)
  · by_cases hlast : r.Last → s.Last
    · exact .inl (.inr ⟨h, hlast⟩)
    · exact .inr (.inr ⟨h.symm, fun hs => absurd (fun _ => hs) hlast⟩)
  · exact .inr (.inl h)

theorem offset_ofPlacement (q : Placement Int) : (ofPlacement q).offset = q.offset := by
  unfold ofPlacement
  split <;> rfl

theorem offset_ofPadding (x : Padding Int) : (ofPadding x).offset = x.offset := by
  cases x <;> rfl

theorem not_last_ofPlacement (q : Placement Int) : ¬ (ofPlacement q).Last := by
  unfold ofPlacement
  split <;> exact fun h => nomatch h.1

end ReportRow

namespace Block

variable {b : Block} {r s : ReportRow Int}

def rows (b : Block) : List (ReportRow Int) :=
  b.placements.map .ofPlacement ++ b.padding.map .ofPadding

theorem Sound.offset_row (h : b.Sound) (hr : r ∈ b.rows) : r.offset = b.start := by
  rcases List.mem_append.mp hr with hr | hr
  · obtain ⟨q, hq, rfl⟩ := List.mem_map.mp hr
    rw [ReportRow.offset_ofPlacement, h.offset_placement hq]
  · obtain ⟨x, hx, rfl⟩ := List.mem_map.mp hr
    rw [ReportRow.offset_ofPadding, (h.offset_padding hx).1]

theorem Sound.last (h : b.Sound) (hr : r ∈ b.rows) (hlast : r.Last) :
    b.rows = [r] ∧ 0 < b.size := by
  cases h with
  | plain =>
    obtain rfl := List.mem_singleton.mp hr
    exact absurd hlast (ReportRow.not_last_ofPlacement _)
  | filler hlength => exact ⟨by rw [List.mem_singleton.mp hr]; rfl, hlength⟩
  | unit _ _ _ hrest =>
    rcases List.mem_append.mp hr with hr | hr
    · obtain ⟨q, _, rfl⟩ := List.mem_map.mp hr
      exact absurd hlast (ReportRow.not_last_ofPlacement q)
    · obtain ⟨x, hx, rfl⟩ := List.mem_map.mp hr
      obtain ⟨_, _, rfl⟩ := hrest x hx
      exact nomatch hlast.2

theorem Sound.pairwise_rows (h : b.Sound) : b.rows.Pairwise (·.precedes ·) := by
  by_cases hlast : ∃ r ∈ b.rows, r.Last
  · obtain ⟨r, hr, hlast⟩ := hlast
    rw [(h.last hr hlast).1]
    exact List.pairwise_singleton _ _
  · refine List.pairwise_of_forall_mem_list fun r hr s hs => ReportRow.precedes_iff.mpr (.inr ?_)
    exact ⟨(h.offset_row hr).trans (h.offset_row hs).symm, fun hr' => absurd ⟨r, hr, hr'⟩ hlast⟩

theorem Sound.precedes {c : Block} (hb : b.Sound) (hc : c.Sound) (h : b.start + b.size ≤ c.start)
    (hr : r ∈ b.rows) (hs : s ∈ c.rows) : r.precedes s = true := by
  have hsize := hb.size_nonneg
  rw [ReportRow.precedes_iff, hb.offset_row hr, hc.offset_row hs]
  by_cases hlast : r.Last
  · have hbytes := (hb.last hr hlast).2
    exact .inl (by omega)
  · rcases lt_or_eq_of_le (show b.start ≤ c.start by omega) with hlt | heq
    · exact .inl hlt
    · exact .inr ⟨heq, fun h => absurd h hlast⟩

end Block

section Reading

variable {bs : List Block} {cursor stop : Int}

theorem Abut.pairwise_rows (h : Abut cursor bs stop) (hsound : ∀ b ∈ bs, b.Sound) :
    (bs.flatMap Block.rows).Pairwise (·.precedes ·) := by
  refine List.pairwise_flatMap.mpr ⟨fun b hb => (hsound b hb).pairwise_rows, ?_⟩
  refine (h.pairwise hsound).imp_of_mem fun hb hc hle r hr s hs => ?_
  exact (hsound _ hb).precedes (hsound _ hc) hle hr hs

theorem Abut.filter_rows (h : Abut cursor bs stop) (hsound : ∀ b ∈ bs, b.Sound)
    {test : ReportRow Int → Bool}
    (htest : ∀ r s, test r = true → test s = true → r.offset = s.offset) :
    (bs.flatMap Block.rows).filter test =
      ((bs.flatMap Block.placements).map ReportRow.ofPlacement ++
        (bs.flatMap Block.padding).map ReportRow.ofPadding).filter test := by
  induction h with
  | nil => rfl
  | @cons cursor stop b bs hstart hrest ih =>
    rw [List.forall_mem_cons] at hsound
    -- Where the padding of a block is looked for, no later member starts.
    have hapart : (b.padding.map ReportRow.ofPadding).filter test = [] ∨
        ((bs.flatMap Block.placements).map ReportRow.ofPlacement).filter test = [] := by
      by_contra hboth
      rw [not_or] at hboth
      obtain ⟨r, hr⟩ := List.exists_mem_of_ne_nil _ hboth.1
      obtain ⟨s, hs⟩ := List.exists_mem_of_ne_nil _ hboth.2
      obtain ⟨hr, htr⟩ := List.mem_filter.mp hr
      obtain ⟨hs, hts⟩ := List.mem_filter.mp hs
      have hsame := htest r s htr hts
      obtain ⟨x, hx, rfl⟩ := List.mem_map.mp hr
      obtain ⟨q, hq, rfl⟩ := List.mem_map.mp hs
      obtain ⟨c, hc, hq⟩ := List.mem_flatMap.mp hq
      obtain ⟨hoffset, hbytes⟩ := hsound.1.offset_padding hx
      have hlater := hrest.le_start hsound.2 c hc
      rw [ReportRow.offset_ofPadding, ReportRow.offset_ofPlacement, hoffset,
        (hsound.2 c hc).offset_placement hq] at hsame
      omega
    simp only [List.flatMap_cons, List.map_append, List.filter_append, Block.rows] at ih ⊢
    rw [ih hsound.2]
    rcases hapart with hnone | hnone <;> simp [hnone]

theorem Layout.Reads.rowsOf {l : Layout Int} (h : l.Reads bs) :
    Listing.rowsOf l = bs.flatMap Block.rows := by
  unfold Listing.rowsOf
  rw [← h.placements, ← h.padding]
  refine mergeSort_eq_of_filter_alike (fun _ _ _ => ReportRow.precedes_trans)
    ReportRow.precedes_total (h.abut.pairwise_rows h.sound) fun r => ?_
  refine h.abut.filter_rows h.sound fun s t hs ht => ?_
  rw [alike, Bool.and_eq_true, ReportRow.precedes_iff, ReportRow.precedes_iff] at hs ht
  omega

theorem Abut.filter_flatMap {α : Type} {f : Block → List α} {test : α → Bool} {b : Block}
    (h : Abut cursor bs stop) (hsound : ∀ b ∈ bs, b.Sound) (hb : b ∈ bs)
    (htest : ∀ c ∈ bs, ∀ x ∈ f c, test x = true → c.start = b.start ∧ 0 < c.size)
    (hall : ∀ x ∈ f b, test x = true) (hbytes : 0 < b.size) :
    (bs.flatMap f).filter test = f b := by
  obtain ⟨earlier, later, rfl⟩ := List.append_of_mem hb
  have hapart := List.pairwise_append.mp (h.pairwise hsound)
  have hearlier : (earlier.flatMap f).filter test = [] := by
    refine List.filter_eq_nil_iff.mpr fun x hx htrue => ?_
    obtain ⟨c, hc, hx⟩ := List.mem_flatMap.mp hx
    obtain ⟨hstart, hsize⟩ := htest c (List.mem_append_left _ hc) x hx htrue
    have hbefore := hapart.2.2 c hc b (.head _)
    omega
  have hlater : (later.flatMap f).filter test = [] := by
    refine List.filter_eq_nil_iff.mpr fun x hx htrue => ?_
    obtain ⟨c, hc, hx⟩ := List.mem_flatMap.mp hx
    obtain ⟨hstart, hsize⟩ := htest c (List.mem_append_right _ (.tail _ hc)) x hx htrue
    have hbehind := List.rel_of_pairwise_cons hapart.2.1 hc
    omega
  rw [List.flatMap_append, List.flatMap_cons, List.filter_append, List.filter_append, hearlier,
    hlater, List.nil_append, List.append_nil, List.filter_eq_self.mpr hall]

end Reading

def Placement.isIn (start : Int) (q : Placement Int) : Bool := q.bits.isSome && q.offset == start

def Padding.isIn (start : Int) : Padding Int → Bool
  | .bits unit _ _ => unit == start
  | .bytes _ _ => false

theorem Block.Sound.start_of_isIn {b : Block} {q : Placement Int} {start : Int} (h : b.Sound)
    (hq : q ∈ b.placements) (hin : q.isIn start = true) : b.start = start ∧ 0 < b.size := by
  rw [Placement.isIn, Bool.and_eq_true, beq_iff_eq] at hin
  refine ⟨(h.offset_placement hq).symm.trans hin.2, ?_⟩
  cases h with
  | plain hbits =>
    rw [List.mem_singleton.mp hq, hbits] at hin
    exact nomatch hin.1
  | filler => cases hq
  | unit hsize => exact hsize

theorem Layout.Reads.unit_eq {l : Layout Int} {bs : List Block} {start size : Int}
    {fields : List (Placement Int)} {rest : List (Padding Int)} (h : l.Reads bs)
    (hb : .unit start size fields rest ∈ bs) :
    fields = l.placements.filter (·.isIn start) ∧ rest = l.padding.filter (·.isIn start) := by
  have hunit := h.sound _ hb
  rw [← h.placements, ← h.padding]
  cases hunit with
  | unit hsize _ hfields hrest =>
    have hplacements : (bs.flatMap Block.placements).filter (·.isIn start) =
        Block.placements (.unit start size fields rest) := by
      refine h.abut.filter_flatMap h.sound hb (fun c hc q hq hin => ?_) (fun q hq => ?_) hsize
      · exact (h.sound c hc).start_of_isIn hq hin
      · rw [Placement.isIn, (hfields q hq).bits, (hfields q hq).offset, beq_self_eq_true]
        rfl
    have hpadding : (bs.flatMap Block.padding).filter (·.isIn start) =
        Block.padding (.unit start size fields rest) := by
      refine h.abut.filter_flatMap h.sound hb (fun c hc r hr hin => ?_) (fun r hr => ?_) hsize
      · obtain ⟨hoffset, hbytes⟩ := (h.sound c hc).offset_padding hr
        cases r with
        | bytes => cases hin
        | bits => exact ⟨hoffset.symm.trans (beq_iff_eq.mp hin), hbytes⟩
      · obtain ⟨_, _, rfl⟩ := hrest r hr
        exact beq_self_eq_true start
    exact ⟨hplacements.symm, hpadding.symm⟩

/-- The layout has no bytes, or the bits of its padding and of all its bytes have binary64 numbers
that are nearest to them. -/
def Layout.HasPercentage (l : Layout Int) : Prop :=
  l.totalSize = 0 ∨ (∃ x, Measure.nearest l.paddingBits = .ok x) ∧
    ∃ x, Measure.nearest (l.totalSize * 8) = .ok x

theorem nearest_cases (n : Int) :
    (∃ x, Measure.nearest n = .ok x) ∨ Measure.nearest n = .error .tooLarge := by
  cases hn : Decimal.ofInt? n with
  | none => exact .inr (by simp only [Measure.nearest, hn])
  | some x => exact .inl ⟨x, by simp only [Measure.nearest, hn]⟩

theorem wastePercent_cases (l : Layout Int) :
    (l.HasPercentage ∧ ∃ waste, l.wastePercent = .ok waste) ∨
      ¬ l.HasPercentage ∧ l.wastePercent = .error .tooLarge := by
  unfold Layout.HasPercentage Layout.wastePercent
  have hzero : (l.totalSize == Measure.whole 0) = true ↔ l.totalSize = 0 := beq_iff_eq
  by_cases hsize : l.totalSize = 0
  · exact .inl ⟨.inl hsize, 0, if_pos (hzero.mpr hsize)⟩
  · rw [if_neg (hzero.not.mpr hsize)]
    rcases nearest_cases l.paddingBits with ⟨x, hx⟩ | hx
    · rcases nearest_cases (l.totalSize * 8) with ⟨y, hy⟩ | hy
      · exact .inl ⟨.inr ⟨⟨x, hx⟩, y, hy⟩, 100 * x / y, by rw [hx, Measure.whole_int, hy]; rfl⟩
      · refine .inr ⟨?_, by rw [hx, Measure.whole_int, hy]; rfl⟩
        simp [hsize, hy]
    · refine .inr ⟨?_, by rw [hx]; rfl⟩
      simp [hsize, hx]

theorem listing_reads (t : Target Int) (a : Aggregate Int) (l : Layout Int)
    (ha : a.kind = .struct) (h : t.layout a = .ok l) :
    ∃ bs : List Block, l.Reads bs ∧
      (l.HasPercentage → ∃ waste, Listing.ofLayout l =
        .ok { layout := l, rows := bs.flatMap Block.rows, waste }) ∧
      (¬ l.HasPercentage → Listing.ofLayout l = .error .tooLarge) ∧
      (bs.flatMap Block.rows).Perm
        (l.placements.map ReportRow.ofPlacement ++ l.padding.map ReportRow.ofPadding) ∧
      ∀ start size fields rest, .unit start size fields rest ∈ bs →
        fields = l.placements.filter (·.isIn start) ∧ rest = l.padding.filter (·.isIn start) := by
  obtain ⟨typed, _, hl⟩ := Target.layout_typed h
  obtain ⟨bs, hreads⟩ := Layout.exists_reads ha hl
  refine ⟨bs, hreads, fun hpercentage => ?_, fun hpercentage => ?_, ?_,
    fun _ _ _ _ hb => hreads.unit_eq hb⟩
  · rcases wastePercent_cases l with ⟨_, waste, hwaste⟩ | ⟨hnot, _⟩
    · refine ⟨waste, ?_⟩
      unfold Listing.ofLayout
      rw [hwaste, ← hreads.rowsOf]
      rfl
    · exact absurd hpercentage hnot
  · rcases wastePercent_cases l with ⟨hpercentage', _⟩ | ⟨_, hwaste⟩
    · exact absurd hpercentage' hpercentage
    · unfold Listing.ofLayout
      rw [hwaste]
      rfl
  · rw [← hreads.rowsOf]
    exact List.mergeSort_perm _ _

theorem listing_reads_fieldsAndArray : ∃ (l : Layout Int) (bs : List Block),
    restartingTarget.layout fieldsAndArray = .ok l ∧ l.Reads bs ∧
      (bs.flatMap Block.rows).length = 7 ∧
      ∀ size fields rest, .unit 4 size fields rest ∈ bs →
        fields.map (·.name) = ["low", "high"] ∧ rest = [.bits 4 24 3, .bits 4 0 18] := by
  obtain ⟨bs, hreads, _, _, hperm, hunit⟩ := listing_reads restartingTarget fieldsAndArray _ rfl rfl
  refine ⟨_, bs, rfl, hreads, hperm.length_eq, fun size fields rest hb => ?_⟩
  obtain ⟨rfl, rfl⟩ := hunit 4 size fields rest hb
  exact ⟨rfl, rfl⟩

end AggregateLayout
