import Mathlib
import AggregateLayout.Proofs.Dimensions
import AggregateLayout.Proofs.Nesting

namespace AggregateLayout

theorem checkNames_eq_ok {a : Aggregate Int} {seen : List String} {members : List (Member Int)} :
    checkNames a seen members = .ok () ↔
      (∀ m ∈ members, m.name ≠ "" ∧ m.name ∉ seen) ∧ (members.map (·.name)).Nodup := by
  induction members generalizing seen with
  | nil => simp [checkNames]
  | cons m rest ih =>
    unfold checkNames
    split
    · next h =>
      have : m.name = "" := by simpa using h
      simp [this]
    · next h =>
      have named : m.name ≠ "" := by simpa using h
      split
      · next h =>
        have : m.name ∈ seen := by simpa using h
        simp [this]
      · next h =>
        have fresh : m.name ∉ seen := by simpa using h
        rw [ih, List.forall_mem_cons, List.map_cons, List.nodup_cons]
        constructor
        · rintro ⟨h, hn⟩
          refine ⟨⟨⟨named, fresh⟩, fun n hm => ?_⟩, fun hm => ?_, hn⟩
          · exact ⟨(h n hm).1, fun hs => (h n hm).2 (.tail _ hs)⟩
          · obtain ⟨n, hn, hname⟩ := List.mem_map.mp hm
            exact (h n hn).2 (hname ▸ .head _)
        · rintro ⟨⟨_, h⟩, hf, hn⟩
          refine ⟨fun n hm => ⟨(h n hm).1, fun hs => ?_⟩, hn⟩
          rcases List.mem_cons.mp hs with hname | hs
          · exact hf (hname ▸ List.mem_map_of_mem hm)
          · exact (h n hm).2 hs

theorem checkNames_nil_eq_ok {a : Aggregate Int} :
    checkNames a [] a.members = .ok () ↔ "" ∉ a.memberNames ∧ a.memberNames.Nodup := by
  simp [checkNames_eq_ok, Aggregate.memberNames]

section Same

variable {p : MachineProfile Int} {a a' : Aggregate Int} {l l' : Layout Int}
  {typed typed' : List (Member Int × TypeDescriptor Int)}

theorem Layout.ofTypes_plain_eq (ha : a.sameAs a' = true)
    (h : typed.map bareTyped = typed'.map bareTyped) :
    (ofTypes p a typed).map Layout.plain = (ofTypes p a' typed').map Layout.plain := by
  obtain ⟨hname, hkind, hpacked, _⟩ := Aggregate.sameAs_iff.mp ha
  rw [← plain_ofTypes, ← plain_ofTypes, h]
  obtain ⟨name, kind, members, packed, disjoint⟩ := a
  obtain ⟨name', kind', members', packed', disjoint'⟩ := a'
  dsimp only at hname hkind hpacked
  subst hname hkind hpacked
  rfl

theorem Layout.descriptor_plain (l : Layout Int) : l.plain.descriptor = l.descriptor.plain := rfl

theorem descriptor_plain_eq (h : l.plain = l'.plain) :
    l.descriptor.plain = l'.descriptor.plain := by
  rw [← Layout.descriptor_plain, h, Layout.descriptor_plain]

theorem exists_typed {members : List (Member Int)}
    (h : List.Forall₂ (fun m n => m.sameAs n = true) (typed.map Prod.fst) members) :
    ∃ typed' : List (Member Int × TypeDescriptor Int), typed'.map Prod.fst = members ∧
      typed.map bareTyped = typed'.map bareTyped ∧
      ∀ y ∈ typed', ∃ x ∈ typed, x.1.sameAs y.1 = true ∧ x.2 = y.2 := by
  induction typed generalizing members with
  | nil =>
    cases h
    exact ⟨[], rfl, rfl, fun y hy => (nomatch hy)⟩
  | cons x rest ih =>
    cases h with
    | cons hx hrest =>
      next n ns =>
      obtain ⟨typed', rfl, hbare, hsame⟩ := ih hrest
      refine ⟨(n, x.2) :: typed', rfl, ?_, ?_⟩
      · rw [List.map_cons, List.map_cons, hbare, bareTyped, bareTyped, Member.bare_eq_of_sameAs hx]
      · intro y hy
        rcases List.mem_cons.mp hy with rfl | hy
        · exact ⟨x, .head _, hx, rfl⟩
        · obtain ⟨z, hz, hzy⟩ := hsame y hy
          exact ⟨z, .tail _ hz, hzy⟩

theorem Aggregate.memberNames_of_sameAs (ha : a.sameAs a' = true) :
    a.memberNames = a'.memberNames := by
  have hmembers := sameMembers_iff.mp (sameAs_iff.mp ha).2.2.2
  rw [← List.forall₂_eq_eq_eq]
  unfold memberNames
  rw [List.forall₂_map_left_iff, List.forall₂_map_right_iff]
  exact hmembers.imp fun m n h => (Member.sameAs_iff.mp h).1

end Same

namespace Target

variable (t : Target Int)

inductive Types : Member Int → TypeDescriptor Int → Prop
  | flat {m : Member Int} {f d₀ d : TypeDescriptor Int} (hf : t.flat? m.type = some f)
    (h₀ : f.plain = d₀.plain) (hd : withDims m d₀ = .ok d) : Types m d
  | nested {m : Member Int} {b : Aggregate Int} {typed : List (Member Int × TypeDescriptor Int)}
    {l : Layout Int} {d₀ d : TypeDescriptor Int} (hb : t.nested? m.type = some b)
    (hnames : checkNames b [] b.members = .ok ()) (hm : typed.map Prod.fst = b.members)
    (htyped : ∀ x ∈ typed, Types x.1 x.2) (hl : Layout.ofTypes t.profile b typed = .ok l)
    (h₀ : l.descriptor.plain = d₀.plain) (hd : withDims m d₀ = .ok d) : Types m d

def Lays (a : Aggregate Int) (l : Layout Int) : Prop :=
  checkNames a [] a.members = .ok () ∧
    ∃ typed : List (Member Int × TypeDescriptor Int), typed.map Prod.fst = a.members ∧
      (∀ x ∈ typed, t.Types x.1 x.2) ∧ Layout.ofTypes t.profile a typed = .ok l

variable {t} {m m' : Member Int} {d d' : TypeDescriptor Int} {a a' : Aggregate Int}
  {l l' : Layout Int} {typed typed' : List (Member Int × TypeDescriptor Int)}

theorem Lays.types {d₀ : TypeDescriptor Int} (hb : t.nested? m.type = some a) (h : t.Lays a l)
    (h₀ : l.descriptor.plain = d₀.plain) (hd : withDims m d₀ = .ok d) : t.Types m d := by
  obtain ⟨hnames, typed, hm, htyped, hl⟩ := h
  exact .nested hb hnames hm htyped hl h₀ hd

theorem exists_ofTypes (ha : a.sameAs a' = true) (hnames : checkNames a [] a.members = .ok ())
    (hm : typed.map Prod.fst = a.members)
    (htyped : ∀ x ∈ typed, ∀ m', x.1.sameAs m' = true → t.Types m' x.2)
    (hl : Layout.ofTypes t.profile a typed = .ok l) : ∃ l', t.Lays a' l' ∧ l.plain = l'.plain := by
  have hmembers := sameMembers_iff.mp (Aggregate.sameAs_iff.mp ha).2.2.2
  obtain ⟨typed', hm', hbare, hsame⟩ := exists_typed (hm ▸ hmembers)
  have hl' := Layout.ofTypes_plain_eq (p := t.profile) ha hbare
  rw [hl] at hl'
  cases hof : Layout.ofTypes t.profile a' typed' with
  | error f =>
    rw [hof] at hl'
    cases hl'
  | ok l' =>
    rw [hof] at hl'
    refine ⟨l', ⟨?_, typed', hm', fun y hy => ?_, hof⟩, Except.ok.inj hl'⟩
    · rw [checkNames_nil_eq_ok] at hnames ⊢
      rwa [← Aggregate.memberNames_of_sameAs ha]
    · obtain ⟨x, hx, hxy, heq⟩ := hsame y hy
      exact heq ▸ htyped x hx _ hxy

theorem Types.congr (h : t.Types m d) (hm : m.sameAs m' = true) : t.Types m' d := by
  induction h generalizing m' with
  | flat hf h₀ hd =>
    obtain ⟨hname, htype, hdims, _⟩ := Member.sameAs_iff.mp hm
    obtain ⟨f', hf', hff'⟩ := flat?_of_sameAs htype hf
    exact .flat hf' (hff'.symm.trans h₀) (withDims_congr hname hdims ▸ hd)
  | nested hb hnames hmembers _ hl h₀ hd ih =>
    obtain ⟨hname, htype, hdims, _⟩ := Member.sameAs_iff.mp hm
    obtain ⟨b', hb', hbb'⟩ := nested?_of_sameAs htype hb
    obtain ⟨l', hl', hll'⟩ := exists_ofTypes hbb' hnames hmembers (fun x hx m' hm => ih x hx hm) hl
    exact hl'.types hb' ((descriptor_plain_eq hll').symm.trans h₀)
      (withDims_congr hname hdims ▸ hd)

theorem Lays.congr (h : t.Lays a l) (ha : a.sameAs a' = true) :
    ∃ l', t.Lays a' l' ∧ l.plain = l'.plain := by
  obtain ⟨hnames, typed, hm, htyped, hl⟩ := h
  exact exists_ofTypes ha hnames hm (fun x hx m' hm => (htyped x hx).congr hm) hl

theorem bareTyped_eq (hm : typed.map Prod.fst = typed'.map Prod.fst)
    (hd : ∀ x ∈ typed, ∀ d, (x.1, d) ∈ typed' → x.2.plain = d.plain) :
    typed.map bareTyped = typed'.map bareTyped := by
  induction typed generalizing typed' with
  | nil =>
    obtain rfl := List.map_eq_nil_iff.mp hm.symm
    rfl
  | cons x rest ih =>
    cases typed' with
    | nil => cases hm
    | cons y rest' =>
      obtain ⟨hxy, hrest⟩ := List.cons.inj hm
      have hx : x.2.plain = y.2.plain := hd x (.head _) y.2 (hxy ▸ .head _)
      rw [List.map_cons, List.map_cons, bareTyped, bareTyped, hxy, hx,
        ih hrest fun z hz d h => hd z (.tail _ hz) d (.tail _ h)]

theorem ofTypes_unique (hm : typed.map Prod.fst = typed'.map Prod.fst)
    (hd : ∀ x ∈ typed, ∀ d, (x.1, d) ∈ typed' → x.2.plain = d.plain)
    (hl : Layout.ofTypes t.profile a typed = .ok l)
    (hl' : Layout.ofTypes t.profile a typed' = .ok l') : l.plain = l'.plain := by
  have h := Layout.ofTypes_plain_eq (p := t.profile) a.sameAs_refl (bareTyped_eq hm hd)
  rw [hl, hl'] at h
  exact Except.ok.inj h

theorem Types.unique (h : t.Types m d) (h' : t.Types m d') : d.plain = d'.plain := by
  -- What stands behind the type decides between the cases, and the two are never both there.
  induction h generalizing d' with
  | flat hf h₀ hd =>
    cases h' with
    | flat hf' h₀' hd' =>
      obtain rfl := Option.some.inj (hf.symm.trans hf')
      exact withDims_plain_eq (h₀.symm.trans h₀') hd hd'
    | nested hb' => exact absurd hb' (nested?_ne_some_of_flat? hf)
  | nested hb _ hm _ hl h₀ hd ih =>
    cases h' with
    | flat hf' => exact absurd hb (nested?_ne_some_of_flat? hf')
    | nested hb' _ hm' htyped' hl' h₀' hd' =>
      obtain rfl := Option.some.inj (hb.symm.trans hb')
      have hll' := ofTypes_unique (hm.trans hm'.symm)
        (fun x hx d hd => ih x hx (htyped' _ hd)) hl hl'
      exact withDims_plain_eq (h₀.symm.trans ((descriptor_plain_eq hll').trans h₀')) hd hd'

theorem Lays.unique (h : t.Lays a l) (h' : t.Lays a l') : l.plain = l'.plain := by
  obtain ⟨_, typed, hm, htyped, hl⟩ := h
  obtain ⟨_, typed', hm', htyped', hl'⟩ := h'
  exact ofTypes_unique (hm.trans hm'.symm) (fun x hx d hd => (htyped x hx).unique (htyped' _ hd))
    hl hl'

end Target

end AggregateLayout
