import Mathlib
import AggregateLayout.Proofs.Transparency
import AggregateLayout.Proofs.Verdict

/-!
The descriptors with which aggregates take part in others, at any depth, each with the path, the
levels and the memo that a run has by then. All of them tell the size and the alignment of the
layout that the aggregate has on its own, and the place of a member tells those of its type.
-/

namespace AggregateLayout

open Relation (TransGen)

theorem TypeDescriptor.sameAs_of_plain_eq {d e : TypeDescriptor Int} (h : d.plain = e.plain) :
    d.sameAs e = true := by
  rw [← sameAs_plain, h, sameAs_refl]

mutual

theorem Aggregate.sameAs_of_sameAs : (a : Aggregate Int) → ∀ {b c : Aggregate Int},
    a.sameAs b = true → a.sameAs c = true → b.sameAs c = true
  | ⟨name, kind, members, packed, disjoint⟩, b, c, hb, hc => by
    rw [Aggregate.sameAs_iff] at hb hc ⊢
    obtain ⟨rfl, rfl, rfl, hb⟩ := hb
    exact ⟨hc.1, hc.2.1, hc.2.2.1, sameMembers_of_sameMembers members hb hc.2.2.2⟩
termination_by structural a => a

theorem sameMembers_of_sameMembers : (ms : List (Member Int)) → ∀ {ns os : List (Member Int)},
    sameMembers ms ns = true → sameMembers ms os = true → sameMembers ns os = true
  | [], [], [], _, _ => rfl
  | m :: ms, n :: ns, o :: os, hn, ho => by
    simp only [sameMembers, Bool.and_eq_true] at hn ho ⊢
    exact ⟨Member.sameAs_of_sameAs m hn.1 ho.1, sameMembers_of_sameMembers ms hn.2 ho.2⟩
termination_by structural ms => ms

theorem Member.sameAs_of_sameAs : (m : Member Int) → ∀ {n o : Member Int},
    m.sameAs n = true → m.sameAs o = true → n.sameAs o = true
  | ⟨name, type, dims, bits, group⟩, n, o, hn, ho => by
    rw [Member.sameAs_iff] at hn ho ⊢
    obtain ⟨rfl, hn, rfl, rfl, rfl⟩ := hn
    exact ⟨ho.1, TypeRef.sameAs_of_sameAs type hn ho.2.1, ho.2.2⟩
termination_by structural m => m

theorem TypeRef.sameAs_of_sameAs : (r : TypeRef Int) → ∀ {s u : TypeRef Int},
    r.sameAs s = true → r.sameAs u = true → s.sameAs u = true
  | .named _, .named _, .named _, hs, hu => by
    simp only [TypeRef.sameAs, beq_iff_eq] at hs hu ⊢
    exact hs.symm.trans hu
  | .descriptor _, .descriptor _, .descriptor _, hs, hu =>
    TypeDescriptor.sameAs_of_plain_eq ((TypeDescriptor.plain_eq_of_sameAs hs).symm.trans
      (TypeDescriptor.plain_eq_of_sameAs hu))
  | .inline a, .inline _, .inline _, hs, hu => Aggregate.sameAs_of_sameAs a hs hu
termination_by structural r => r

end

namespace Aggregate

variable {a b c : Aggregate Int}

theorem sameAs_symm (h : a.sameAs b = true) : b.sameAs a = true :=
  a.sameAs_of_sameAs h a.sameAs_refl

theorem sameAs_trans (hab : a.sameAs b = true) (hbc : b.sameAs c = true) : a.sameAs c = true :=
  b.sameAs_of_sameAs (sameAs_symm hab) hbc

end Aggregate

namespace Target

variable {t : Target Int} {a b c : Aggregate Int} {m n : Member Int} {d : TypeDescriptor Int}
  {l : Layout Int} {levels : Nat} {path : List String} {memo memo' : Memo Int}
  {typed : List (Member Int × TypeDescriptor Int)}

theorem Nests.of_sameAs (h : t.Nests a c) (hab : a.sameAs b = true) :
    ∃ c', t.Nests b c' ∧ c.sameAs c' = true := by
  obtain ⟨m, hm, hc⟩ := h
  have hmembers := sameMembers_iff.mp (Aggregate.sameAs_iff.mp hab).2.2.2
  obtain ⟨n, hn, hmn⟩ := exists_of_forall₂ hmembers hm
  obtain ⟨c', hc', hcc'⟩ := nested?_of_sameAs (Member.sameAs_iff.mp hmn).2.1 hc
  exact ⟨c', ⟨n, hn, hc'⟩, hcc'⟩

variable (t) in
def Comes (levels : Nat) (path : List String) (memo : Memo Int) (a : Aggregate Int)
    (memo' : Memo Int) (m : Member Int) : Prop :=
  ∃ earlier later, a.members = earlier.map Prod.fst ++ m :: later ∧
    t.Typing (t.nestedAt true levels (path ++ [orAnonymous a.name])) memo earlier memo'

variable (t) in
inductive TakesPart (b : Aggregate Int) (d : TypeDescriptor Int) :
    Nat → List String → Memo Int → Member Int → Prop
  | here {levels : Nat} {path : List String} {memo memo' : Memo Int} {m : Member Int}
    (hb : t.nested? m.type = some b) (hd : t.nestedAt true levels path b memo = .ok (d, memo')) :
    TakesPart b d levels path memo m
  | within {levels : Nat} {path : List String} {memo memo' : Memo Int} {m n : Member Int}
    {c : Aggregate Int} (hc : t.nested? m.type = some c) (hfresh : memo.find? c = none)
    (hn : t.Comes levels path memo c memo' n)
    (h : TakesPart b d levels (path ++ [orAnonymous c.name]) memo' n) :
    TakesPart b d (levels + 1) path memo m

variable (t) in
/-- An aggregate takes part with a descriptor when another one is laid out, or when the type of one
of its members is asked for. -/
inductive Occurs (a b : Aggregate Int) (d : TypeDescriptor Int) : Prop
  | layout {levels : Nat} {memo : Memo Int} {m : Member Int} (hlevels : t.levels = levels + 1)
    (hm : t.Comes levels [] [] a memo m) (h : t.TakesPart b d levels [orAnonymous a.name] memo m)
  | memberType {m : Member Int} (hm : m ∈ a.members) (h : t.TakesPart b d t.levels [] [] m)

theorem Remembers.comes (hmemo : t.Remembers memo) (h : t.Comes levels path memo a memo' m) :
    t.Remembers memo' := by
  obtain ⟨_, _, _, htyping⟩ := h
  exact ((finds_nestedAt true levels _).typing hmemo htyping).2

theorem TakesPart.lays (h : t.TakesPart b d levels path memo m) (hmemo : t.Remembers memo) :
    ∃ l, t.Lays b l ∧ l.descriptor.plain = d.plain := by
  induction h with
  | here _ hd => exact (finds_nestedAt true _ _ _ _ _ _ hmemo hd).1
  | within _ _ hn _ ih => exact ih (hmemo.comes hn)

theorem Occurs.lays (h : t.Occurs a b d) : ∃ l, t.Lays b l ∧ l.descriptor.plain = d.plain := by
  cases h with
  | layout _ hm h => exact h.lays (remembers_nil.comes hm)
  | memberType _ h => exact h.lays remembers_nil

theorem Lays.size_descriptor (h : t.Lays a l) : l.descriptor.size.val = l.totalSize := by
  obtain ⟨_, _, _, _, hl⟩ := h
  exact Layout.size_descriptor hl

variable (t) in
def Closed (memo : Memo Int) : Prop :=
  ∀ x ∈ memo, ∀ b, t.Nests x.1 b → ∃ y ∈ memo, y.1.sameAs b = true

variable (t) in
structure Adds (levels : Nat) (path : List String) (memo : Memo Int) (m : Member Int)
    (memo' : Memo Int) : Prop where
  keeps : ∀ x ∈ memo, x ∈ memo'
  closed : t.Closed memo → t.Closed memo'
  found : ∀ b, t.nested? m.type = some b → ∃ x ∈ memo', x.1.sameAs b = true
  partake : ∀ x ∈ memo', x ∈ memo ∨ t.TakesPart x.1 x.2 levels path memo m

variable (t) in
structure AddsAll (levels : Nat) (path : List String) (memo : Memo Int)
    (typed : List (Member Int × TypeDescriptor Int)) (memo' : Memo Int) : Prop where
  keeps : ∀ x ∈ memo, x ∈ memo'
  closed : t.Closed memo → t.Closed memo'
  found : ∀ y ∈ typed, ∀ b, t.nested? y.1.type = some b → ∃ x ∈ memo', x.1.sameAs b = true
  partake : ∀ x ∈ memo', x ∈ memo ∨ ∃ earlier y later memo₁, typed = earlier ++ y :: later ∧
    t.Typing (t.nestedAt true levels path) memo earlier memo₁ ∧
    t.TakesPart x.1 x.2 levels path memo₁ y.1

theorem exists_sameAs_of_find? (h : memo.find? b = some d) : ∃ x ∈ memo, x.1.sameAs b = true := by
  obtain ⟨x, hx, _⟩ := Option.map_eq_some_iff.mp h
  exact ⟨x, List.mem_of_find?_eq_some hx, by simpa using List.find?_some hx⟩

theorem addsAll_of_typing
    (hadds : ∀ m b memo d memo', t.nested? m.type = some b →
      t.nestedAt true levels path b memo = .ok (d, memo') → t.Adds levels path memo m memo')
    (h : t.Typing (t.nestedAt true levels path) memo typed memo') :
    t.AddsAll levels path memo typed memo' := by
  induction h with
  | nil memo =>
    exact ⟨fun _ hx => hx, id, fun y hy => (nomatch hy), fun _ hx => .inl hx⟩
  | @cons memo memo₁ memo₂ m d rest hd hrest ih =>
    have hfirst : t.Adds levels path memo m memo₁ := by
      obtain ⟨d₀, _, ⟨hflat, rfl⟩ | ⟨b, hb, hbd⟩⟩ := typeWith_eq_ok.mp hd
      · exact ⟨fun _ hx => hx, id, fun b hb => absurd hb (nested?_ne_some_of_flat? hflat),
          fun _ hx => .inl hx⟩
      · exact hadds m b memo d₀ memo₁ hb hbd
    refine ⟨fun x hx => ih.keeps x (hfirst.keeps x hx), ih.closed ∘ hfirst.closed, ?_, ?_⟩
    · intro y hy b hb
      rcases List.mem_cons.mp hy with rfl | hy
      · obtain ⟨x, hx, hxb⟩ := hfirst.found b hb
        exact ⟨x, ih.keeps x hx, hxb⟩
      · exact ih.found y hy b hb
    · intro x hx
      rcases ih.partake x hx with hx | ⟨earlier, y, later, memo₃, rfl, htyping, hpart⟩
      · rcases hfirst.partake x hx with hx | hpart
        · exact .inl hx
        · exact .inr ⟨[], (m, d), _, memo, rfl, .nil memo, hpart⟩
      · exact .inr ⟨(m, d) :: earlier, y, later, memo₃, rfl, .cons hd htyping, hpart⟩

theorem addsAll_of_layoutAt
    (hadds : ∀ path m b memo d memo', t.nested? m.type = some b →
      t.nestedAt true levels path b memo = .ok (d, memo') → t.Adds levels path memo m memo')
    (h : t.layoutAt true (levels + 1) path a memo = .ok (l, memo')) :
    ∃ typed : List (Member Int × TypeDescriptor Int), typed.map Prod.fst = a.members ∧
      t.AddsAll levels (path ++ [orAnonymous a.name]) memo typed memo' := by
  obtain ⟨_, _, hw⟩ := layoutAt_succ_eq_ok.mp h
  obtain ⟨typed, hm, htyping, _⟩ := layoutWith_eq_ok.mp hw
  exact ⟨typed, hm, addsAll_of_typing (hadds _) htyping⟩

theorem AddsAll.nests (h : t.AddsAll levels path memo typed memo')
    (hm : typed.map Prod.fst = a.members) (hb : t.Nests a b) :
    ∃ x ∈ memo', x.1.sameAs b = true := by
  obtain ⟨m, hmem, hb⟩ := hb
  rw [← hm] at hmem
  obtain ⟨y, hy, rfl⟩ := List.mem_map.mp hmem
  exact h.found y hy b hb

theorem AddsAll.comes {x : Aggregate Int × TypeDescriptor Int}
    (h : t.AddsAll levels (path ++ [orAnonymous a.name]) memo typed memo')
    (hm : typed.map Prod.fst = a.members) (hx : x ∈ memo') :
    x ∈ memo ∨ ∃ memo₁ n, t.Comes levels path memo a memo₁ n ∧
      t.TakesPart x.1 x.2 levels (path ++ [orAnonymous a.name]) memo₁ n := by
  rcases h.partake x hx with hx | ⟨earlier, y, later, memo₁, rfl, htyping, hpart⟩
  · exact .inl hx
  · rw [List.map_append, List.map_cons] at hm
    exact .inr ⟨memo₁, y.1, ⟨earlier, later.map Prod.fst, hm.symm, htyping⟩, hpart⟩

theorem adds_of_find? (hb : t.nested? m.type = some b) (hd : memo.find? b = some d) :
    t.Adds levels path memo m memo where
  keeps _ hx := hx
  closed := id
  found _ hc := Option.some.inj (hb.symm.trans hc) ▸ exists_sameAs_of_find? hd
  partake _ hx := .inl hx

theorem adds_of_nestedAt (hb : t.nested? m.type = some b)
    (h : t.nestedAt true levels path b memo = .ok (d, memo')) :
    t.Adds levels path memo m memo' := by
  induction levels generalizing path m b memo d memo' with
  | zero =>
    rcases nestedAt_eq_ok.mp h with ⟨hd, rfl⟩ | ⟨_, _, _, hl, _⟩
    · exact adds_of_find? hb hd
    · exact absurd hl layoutAt_zero_ne_ok
  | succ levels ih =>
    rcases nestedAt_eq_ok.mp h with ⟨hd, rfl⟩ | ⟨hfresh, l, memo₁, hl, rfl, rfl⟩
    · exact adds_of_find? hb hd
    · obtain ⟨typed, hm, hall⟩ := addsAll_of_layoutAt (fun _ _ _ _ _ _ => ih) hl
      refine ⟨fun x hx => .tail _ (hall.keeps x hx), fun hclosed => ?_, fun c hc => ?_, ?_⟩
      · -- What the new entry nests was noted before it.
        refine List.forall_mem_cons.mpr ⟨fun c hc => ?_, fun x hx c hc => ?_⟩
        · obtain ⟨y, hy, hyc⟩ := hall.nests hm hc
          exact ⟨y, .tail _ hy, hyc⟩
        · obtain ⟨y, hy, hyc⟩ := hall.closed hclosed x hx c hc
          exact ⟨y, .tail _ hy, hyc⟩
      · obtain rfl := Option.some.inj (hb.symm.trans hc)
        exact ⟨_, .head _, b.sameAs_refl⟩
      · refine List.forall_mem_cons.mpr ⟨.inr (.here hb h), fun x hx => ?_⟩
        rcases hall.comes hm hx with hx | ⟨memo₂, n, hn, hpart⟩
        · exact .inl hx
        · exact .inr (.within hb hfresh hn hpart)

theorem exists_occurs (h : t.layout a = .ok l) (hb : TransGen t.Nests a b) :
    ∃ c d, c.sameAs b = true ∧ t.Occurs a c d := by
  obtain ⟨⟨memo, hl⟩, _⟩ := layout_eq_ok.mp h
  obtain ⟨levels, hlevels⟩ : ∃ levels, t.levels = levels + 1 := by
    cases hn : t.levels with
    | zero => exact absurd (hn ▸ hl) layoutAt_zero_ne_ok
    | succ levels => exact ⟨levels, rfl⟩
  rw [hlevels] at hl
  obtain ⟨typed, hm, hall⟩ := addsAll_of_layoutAt (fun _ _ _ _ _ _ => adds_of_nestedAt) hl
  have hclosed := hall.closed fun _ hx => (nomatch hx)
  have hnoted : ∃ x ∈ memo, x.1.sameAs b = true := by
    induction hb with
    | single hb => exact hall.nests hm hb
    | tail _ hc ih =>
      obtain ⟨x, hx, hxb⟩ := ih
      obtain ⟨c', hc', hcc'⟩ := hc.of_sameAs (Aggregate.sameAs_symm hxb)
      obtain ⟨y, hy, hyc'⟩ := hclosed x hx c' hc'
      exact ⟨y, hy, Aggregate.sameAs_trans hyc' (Aggregate.sameAs_symm hcc')⟩
  obtain ⟨x, hx, hxb⟩ := hnoted
  rcases hall.comes hm hx with hx | ⟨memo₁, n, hn, hpart⟩
  · cases hx
  · exact ⟨x.1, x.2, hxb, .layout hlevels hn hpart⟩

theorem placement_of_memberType (h : t.Lays a l) (hm : m ∈ a.members)
    (hd : t.memberType m = .ok d) :
    ∃ q, l.placement? m.name = some q ∧ q.size = d.size ∧ q.alignment.val = d.alignment.val := by
  have hmember := (Aggregate.member?_eq_some h.sound.distinct).mpr ⟨hm, rfl⟩
  obtain ⟨q, hq⟩ := h.exists_placement hmember
  obtain ⟨e, he, hholds⟩ := h.holds hmember hq
  have hplain := he.unique (types_of_memberType hd)
  refine ⟨q, hq, ?_, ?_⟩
  · rw [hholds.size, TypeDescriptor.size_of_plain_eq hplain]
  · rw [hholds.alignment, TypeDescriptor.alignment_of_plain_eq hplain]

theorem Occurs.describe {lb : Layout Int} (h : t.Occurs a c d) (hcb : c.sameAs b = true)
    (hb : t.layout b = .ok lb) :
    d.size.val = lb.totalSize ∧ d.alignment.val = lb.totalAlignment.val ∧
      ∃ e, t.describe b = .ok e ∧ d.sameAs e = true := by
  have hlb := lays_of_layout hb
  obtain ⟨l, hl, hld⟩ := h.lays
  obtain ⟨l', hl', hll'⟩ := hl.congr hcb
  have hplain : d.plain = lb.descriptor.plain :=
    hld.symm.trans ((descriptor_plain_eq hll').trans (descriptor_plain_eq (hl'.unique hlb)))
  refine ⟨?_, TypeDescriptor.alignment_of_plain_eq hplain, lb.descriptor, ?_,
    TypeDescriptor.sameAs_of_plain_eq hplain⟩
  · rw [TypeDescriptor.size_of_plain_eq hplain, hlb.size_descriptor]
  · unfold Target.describe
    rw [hb]
    rfl

end Target

theorem layout_agrees (t : Target Int) (a : Aggregate Int) (l : Layout Int)
    (h : t.layout a = .ok l) :
    (∀ m ∈ a.members, ∀ d, t.memberType m = .ok d →
      ∃ q, l.placement? m.name = some q ∧ q.size = d.size ∧ q.alignment.val = d.alignment.val) ∧
    ∀ b, TransGen t.Nests a b →
      (∃ c d, c.sameAs b = true ∧ t.Occurs a c d) ∧
      ∀ lb, t.layout b = .ok lb → ∀ c d, c.sameAs b = true → t.Occurs a c d →
        d.size.val = lb.totalSize ∧ d.alignment.val = lb.totalAlignment.val ∧
          ∃ e, t.describe b = .ok e ∧ d.sameAs e = true :=
  ⟨fun _ hm _ hd => Target.placement_of_memberType (Target.lays_of_layout h) hm hd,
    fun _ hb => ⟨Target.exists_occurs h hb, fun _ hlb _ _ hcb hc => hc.describe hcb hlb⟩⟩

theorem occurs_markFirst : (Target.ofProfile .lp64).Occurs markFirst mark
    (.aggregate "mark" (.of 1) .one) :=
  .layout rfl
    ⟨[({ name := "first", type := .inline mark }, .aggregate "mark" (.of 1) .one)], [], rfl,
      .cons rfl (.nil _)⟩
    (.within rfl rfl
      ⟨[({ name := "word", type := .descriptor (.basic "u64" (.of 8) .eight .scalar true) },
          .basic "u64" (.of 8) .eight .scalar true)], [], rfl, .cons rfl (.nil _)⟩
      (.here rfl rfl))

theorem layout_agrees_markFirst :
    (∃ l d, (Target.ofProfile .lp64).layout markFirst = .ok l ∧
      (Target.ofProfile .lp64).memberType { name := "second", type := .inline marked } = .ok d ∧
      ∃ q, l.placement? "second" = some q ∧ q.size = d.size ∧
        q.alignment.val = d.alignment.val) ∧
    ∃ l, (Target.ofProfile .lp64).layout mark = .ok l ∧ 1 = l.totalSize ∧
      1 = l.totalAlignment.val := by
  have hnests : TransGen (Target.ofProfile .lp64).Nests markFirst mark :=
    .tail (.single ⟨_, .tail _ (.head _), rfl⟩) ⟨_, .tail _ (.head _), rfl⟩
  obtain ⟨hplaces, hnested⟩ := layout_agrees (Target.ofProfile .lp64) markFirst _ rfl
  obtain ⟨_, hdescribed⟩ := hnested mark hnests
  obtain ⟨hsize, halignment, _⟩ :=
    hdescribed _ rfl mark _ mark.sameAs_refl occurs_markFirst
  exact ⟨⟨_, _, rfl, rfl, hplaces _ (.tail _ (.head _)) _ rfl⟩, _, rfl, hsize, halignment⟩

end AggregateLayout
