import Mathlib
import AggregateLayout.Proofs.Denoting
import AggregateLayout.Proofs.NormalNames
import AggregateLayout.Proofs.Selection
import AggregateLayout.Proofs.TypeChains
import AggregateLayout.Proofs.Unrelated

namespace AggregateLayout

namespace TypeName

structure Identifier (name : String) : Prop where
  nonempty : name.toList ≠ []
  word : ∀ c ∈ name.toList, Text.isWord c = true
  keyword : name.toList ∉ keywords
  integer : name ∉ ["short", "int", "long"]

instance (name : String) : Decidable (Identifier name) :=
  decidable_of_iff (name.toList ≠ [] ∧ name.toList.all Text.isWord ∧ name.toList ∉ keywords ∧
      name ∉ ["short", "int", "long"])
    ⟨fun ⟨hnonempty, hword, hkeyword, hinteger⟩ =>
      ⟨hnonempty, List.all_eq_true.mp hword, hkeyword, hinteger⟩,
    fun h => ⟨h.nonempty, List.all_eq_true.mpr h.word, h.keyword, h.integer⟩⟩

namespace Identifier

variable {name : String}

theorem isBlank_eq_false (h : Identifier name) : ∀ c ∈ name.toList, Text.isBlank c = false := by
  intro c hc
  by_contra hblank
  have hother := isWord_of_isBlank (Bool.not_eq_false _ ▸ hblank)
  cases hother.symm.trans (h.word c hc)

theorem isChain (h : Identifier name) (R : Char → Prop) :
    name.toList.IsChain fun a b => Text.isBlank a = true → R b :=
  (List.pairwise_of_forall_mem_list fun a ha _ _ hblank =>
    absurd ((h.isBlank_eq_false a ha).symm.trans hblank) Bool.false_ne_true).isChain

theorem normal (h : Identifier name) : Normal name.toList where
  words w hw := by
    rw [words_of_word h.nonempty h.word] at hw
    rw [List.mem_singleton.mp hw]
    exact h.keyword
  spaced := {
    spaces := fun c hc hblank => by cases (h.isBlank_eq_false c hc).symm.trans hblank
    single := h.isChain _ }
  trimmed := {
    first := fun c hc => h.isBlank_eq_false c (List.mem_of_mem_head? hc)
    last := fun c hc => h.isBlank_eq_false c (List.mem_of_mem_getLast? hc) }
  tight := h.isChain _

theorem normalize_eq (h : Identifier name) : normalize name = name := by
  unfold normalize
  rw [h.normal.normalizeChars_eq, String.ofList_toList]

theorem ne_pointer (h : Identifier (name ++ "*")) : False := by
  have hstar : '*' ∈ (name ++ "*").toList := by simp
  cases (h.word '*' hstar).symm.trans isWord_star

end Identifier

theorem Identifier.ne_spelling {name : String} (h : Identifier name) {spelling : String × String}
    (hspelling : spelling ∈ Catalog.spellings) : normalize spelling.2 ≠ name := by
  have hwords : ∀ s ∈ Catalog.spellings,
      normalize s.2 ∈ ["short", "int", "long"] ∨ ' ' ∈ (normalize s.2).toList := by decide
  rintro rfl
  rcases hwords spelling hspelling with hinteger | hspace
  · exact h.integer hinteger
  · cases (h.word ' ' hspace).symm.trans isWord_space

end TypeName

namespace Catalog

variable {μ : Type} [Measure μ]

section Ends

variable {aliases : Table String} {k last : String}

theorem not_transGen_of_end
    (h : Relation.ReflTransGen (fun k target => aliases.find? k = some target) k last)
    (hlast : aliases.find? last = none) :
    ¬ Relation.TransGen (fun k target => aliases.find? k = some target) k k := by
  induction h using Relation.ReflTransGen.head_induction_on with
  | refl =>
    intro hloop
    obtain ⟨_, hnext, _⟩ := Relation.TransGen.head'_iff.mp hloop
    cases hlast.symm.trans hnext
  | @head k target hk _ ih =>
    intro hloop
    obtain ⟨other, hnext, hback⟩ := Relation.TransGen.head'_iff.mp hloop
    obtain rfl := Option.some.inj (hk.symm.trans hnext)
    exact ih (.tail' hback hk)

theorem follow_of_end
    (h : Relation.ReflTransGen (fun k target => aliases.find? k = some target) k last)
    (hlast : aliases.find? last = none) {seen : List String} {steps : Nat}
    (hsteps : StepsLeft aliases steps seen)
    (hfresh : ∀ x, Relation.ReflTransGen (fun k target => aliases.find? k = some target) k x →
      x ∉ seen) : follow aliases steps seen k = last := by
  induction h using Relation.ReflTransGen.head_induction_on generalizing seen steps with
  | refl =>
    apply follow_of_none
    rw [next?, hlast, Option.filter_none]
  | @head k target hk hrest ih =>
    have hseen := hfresh k .refl
    have hback := not_transGen_of_end (.head hk hrest) hlast
    have hother : target ≠ k := fun heq => hback (.single (heq ▸ hk))
    obtain ⟨steps, rfl⟩ := Nat.exists_eq_add_of_le' (hsteps.pos hseen hk)
    rw [follow_succ hseen (next?_eq_some.mpr ⟨hk, hother⟩)]
    refine ih (hsteps.next hseen hk) fun x hx hmem => ?_
    rcases List.mem_cons.mp hmem with rfl | hmem
    · exact hback (.head' hk hx)
    · exact hfresh x (.head hk hx) hmem

end Ends

theorem resolve_of_leadsTo {c : Catalog μ} {name last : String}
    (h : c.LeadsTo (TypeName.normalize name) last) (hlast : c.aliases.find? last = none) :
    c.resolve name = last :=
  follow_of_end h hlast (.start _) fun _ _ => List.not_mem_nil

end Catalog

namespace DebugInfo

open AggregateLayout.TypeName (normalize Identifier)

inductive NameKind where
  | typedef
  | base
  | aggregate
  deriving DecidableEq

def Entry.nameKind? (e : Entry) : Option NameKind :=
  match e.role with
  | .typedef => some .typedef
  | .base => some .base
  | .aggregate _ => some .aggregate
  | _ => none

/-- Typedefs are called by identifiers, each of them stands for one name, and typedefs, base types
and aggregates have different names. -/
structure WellNamed (units : Units) : Prop where
  identifier : ∀ e ∈ units.entries, e.role = .typedef → ∀ name ∈ e.properName?, Identifier name
  target : ∀ e ∈ units.entries, ∀ e' ∈ units.entries, ∀ name target target',
    Means units e name (.synonym target) → Means units e' name (.synonym target') →
    target = target'
  apart : ∀ e ∈ units.entries, ∀ e' ∈ units.entries, ∀ kind ∈ e.nameKind?, ∀ kind' ∈ e'.nameKind?,
    ∀ name ∈ e.properName?, ∀ name' ∈ e'.properName?, normalize name = normalize name' →
    kind = kind'

variable {units : Units} {names : Option (List String)} {s : Findings} {d : Description}
  {e t b : Entry} {chain : List Entry} {base name target : String} {a : Aggregate Quantity}
  {p : MachineProfile Quantity}

theorem Entry.Base.nameKind (h : b.Base base) : b.nameKind? = some .base := by
  simp only [Entry.nameKind?, h.role]

theorem Entry.nameKind_aggregate (h : e.aggregateKind?.isSome) :
    e.nameKind? = some .aggregate := by
  obtain ⟨kind, hrole⟩ := Entry.role_of_aggregate h
  simp only [Entry.nameKind?, hrole]

theorem Entry.nameKind_typedef (h : e.role = .typedef) : e.nameKind? = some .typedef := by
  simp only [Entry.nameKind?, h]

theorem Means.typedef (h : Means units e name (.synonym target)) :
    e.role = .typedef ∧ e.properName? = some name := by
  cases h with
  | synonym hrole hname _ _ => exact ⟨hrole, hname⟩

theorem typedef_of_noted (h : Noted units name (.synonym target)) :
    ∃ e ∈ units.entries, e.role = .typedef ∧ e.properName? = some name ∧
      Means units e name (.synonym target) := by
  obtain ⟨e, huse, hmeans⟩ := h
  exact ⟨e, huse.mem, hmeans.typedef.1, hmeans.typedef.2, hmeans⟩

theorem base_of_noted {f : TypeDescriptor Quantity} (h : Noted units name (.base f)) :
    ∃ e ∈ units.entries, e.nameKind? = some .base ∧ e.properName? = some name := by
  obtain ⟨e, huse, hmeans⟩ := h
  cases hmeans with
  | base hrole hname _ _ => exact ⟨e, huse.mem, by simp only [Entry.nameKind?, hrole], hname⟩

theorem readType_mono {inner : Entry → Aggregate Quantity} {steps steps' : Nat}
    {dims : List Quantity} (h : readType units inner steps e = some (.named target, dims))
    (hsteps : steps ≤ steps') (inner' : Entry → Aggregate Quantity) :
    readType units inner' steps' e = some (.named target, dims) := by
  induction steps generalizing e steps' target dims with
  | zero => cases h
  | succ steps ih =>
    obtain ⟨steps', rfl⟩ := Nat.exists_eq_add_of_le' (Nat.one_le_of_lt hsteps)
    have hrest := Nat.le_of_succ_le_succ hsteps
    cases hrole : e.role with
    | qualifier =>
      simp only [readType, hrole] at h ⊢
      split at h
      · exact ih h hrest
      · cases h
    | typedef =>
      simp only [readType, hrole] at h ⊢
      split at h
      · cases hread : readType units inner steps _ with
        | none =>
          rw [hread] at h
          cases h
        | some r =>
          obtain ⟨type, dims'⟩ := r
          rw [hread] at h
          cases type with
          | named other => rwa [ih hread hrest]
          | descriptor d => cases h
          | inline a => cases h
      · cases h
    | array =>
      simp only [readType, hrole] at h ⊢
      split at h
      · obtain ⟨⟨type, dims'⟩, hread, hr⟩ := Option.map_eq_some_iff.mp h
        obtain ⟨rfl, rfl⟩ := Prod.mk.inj hr
        rw [ih hread hrest]
        rfl
      · cases h
    | aggregate kind =>
      simp only [readType, hrole] at h ⊢
      split at h
      · exact h
      · cases h
    | enumeration =>
      simp only [readType, hrole] at h ⊢
      split at h
      · split at h <;> cases h
      · exact h
    | _ => simpa only [readType, hrole] using h

theorem Means.target_unique {other : String} (h : Means units e name (.synonym target))
    (h' : Means units e name (.synonym other)) : target = other := by
  cases h with
  | @synonym _ _ t steps inner _ _ ht hread =>
    cases h' with
    | @synonym _ _ t' steps' inner' _ _ ht' hread' =>
      obtain rfl := Option.some.inj (ht.symm.trans ht')
      have hlarge := readType_mono hread (Nat.le_max_left steps steps') inner
      rw [readType_mono hread' (Nat.le_max_right steps steps') inner] at hlarge
      exact (TypeRef.named.inj (Prod.mk.inj (Option.some.inj hlarge)).1).symm

namespace WellNamed

theorem of_distinct (hunits : units.Apart)
    (hidentifier : ∀ e ∈ units.entries, e.role = .typedef → ∀ name ∈ e.properName?,
      Identifier name)
    (hdistinct : ∀ e ∈ units.entries, ∀ e' ∈ units.entries, e.role = .typedef →
      e'.role = .typedef → e.properName? = e'.properName? → e.id = e'.id)
    (hapart : ∀ e ∈ units.entries, ∀ e' ∈ units.entries, ∀ kind ∈ e.nameKind?,
      ∀ kind' ∈ e'.nameKind?, ∀ name ∈ e.properName?, ∀ name' ∈ e'.properName?,
      normalize name = normalize name' → kind = kind') : WellNamed units where
  identifier := hidentifier
  target e he e' he' name target target' h h' := by
    obtain ⟨hrole, hname⟩ := h.typedef
    obtain ⟨hrole', hname'⟩ := h'.typedef
    have hid := hdistinct e he e' he' hrole hrole' (hname.trans hname'.symm)
    obtain rfl := hunits.eq_of_id he he' hid
    exact h.target_unique h'
  apart := hapart

theorem identifier_of_noted (hn : WellNamed units) (h : Noted units name (.synonym target)) :
    Identifier name := by
  obtain ⟨e, he, hrole, hname, _⟩ := typedef_of_noted h
  exact hn.identifier e he hrole name hname

theorem target_eq {other : String} (hn : WellNamed units)
    (h : Noted units name (.synonym target)) (h' : Noted units name (.synonym other)) :
    target = other := by
  obtain ⟨e, he, _, _, hmeans⟩ := typedef_of_noted h
  obtain ⟨e', he', _, _, hmeans'⟩ := typedef_of_noted h'
  exact hn.target e he e' he' _ _ _ hmeans hmeans'

theorem ne_base {x : Entry} (hn : WellNamed units) (hb : b.Base base) (hmem : b ∈ units.entries)
    (hx : x ∈ units.entries) (hkind : x.aggregateKind?.isSome) (hname : x.properName? = some name) :
    normalize name ≠ normalize base := by
  intro heq
  cases hn.apart x hx b hmem _ (Entry.nameKind_aggregate hkind) _ hb.nameKind _ hname _ hb.name heq

theorem recorded_typedef (hn : WellNamed units) (hs : s.Sound units) (he : e ∈ units.entries)
    (hmeans : Means units e name (.synonym target)) (h : Recorded units s name) :
    s.aliases.contains name ∧ Noted units name (.synonym target) ∧ Recorded units s target := by
  obtain ⟨hrole, hname⟩ := hmeans.typedef
  have hkind := Entry.nameKind_typedef hrole
  have hidentifier := hn.identifier e he hrole name hname
  cases h with
  | synonym hnoted hkey htarget =>
    obtain ⟨e', he', _, _, hmeans'⟩ := typedef_of_noted hnoted
    obtain rfl := hn.target e he e' he' _ _ _ hmeans hmeans'
    exact ⟨hkey, hnoted, htarget⟩
  | base hd =>
    obtain ⟨e', he', hkind', hname'⟩ := base_of_noted (hs.fallbackTypes _ hd)
    cases hn.apart e he e' he' _ hkind _ hkind' _ hname _ hname' rfl
  | @aggregate e' _ huse hkind' hname' _ =>
    cases hn.apart e he e' huse.mem _ hkind _ (Entry.nameKind_aggregate hkind') _ hname _ hname' rfl
  | pointer _ => exact hidentifier.ne_pointer.elim
  | enumeration _ =>
    exact absurd (show "enum".toList ∈ TypeName.keywords by decide) hidentifier.keyword

end WellNamed

namespace Loaded

theorem find?_alias (h : Loaded units names d s) (hn : WellNamed units)
    (hnoted : Noted units name (.synonym target)) (hkey : s.aliases.contains name) :
    (d.catalog p).aliases.find? (normalize name) = some (normalize target) := by
  rcases Description.find?_aliases_catalog d p (normalize name) with
    ⟨x, hx, hname, hfind⟩ | ⟨hnone, _⟩
  · have hnoted' := h.noted_synonym hx
    have hother := (hn.identifier_of_noted hnoted').normalize_eq
    have hsame := (hn.identifier_of_noted hnoted).normalize_eq
    have heq : x.1 = name := by rw [← hother, hname, hsame]
    have htarget : x.2 = target := hn.target_eq hnoted' (heq ▸ hnoted)
    rw [hfind, htarget]
  · obtain ⟨value, hvalue⟩ := Table.exists_mem_of_contains hkey
    rw [← h.aliases] at hvalue
    exact (hnone (name, value) hvalue rfl).elim

theorem leadsTo_base (h : Loaded units names d s) (hn : WellNamed units) (hb : b.Base base)
    (hchain : TypeChain units b chain e) (he : e ∈ units.entries)
    (hname : Recorded units s (chainName base chain)) :
    (d.catalog p).LeadsTo (normalize (chainName base chain)) (normalize base) ∧
      Recorded units s base := by
  induction hchain with
  | nil => exact ⟨.refl, hname⟩
  | @cons e t chain hpasses ht hrest ih =>
    have hrest' := ih (Units.mem_of_type ht)
    rcases Entry.passes_cases hpasses with hrole | hrole | ⟨hrole, name, hproper⟩
    · rw [chainName_of_ne _ _ (by simp [hrole])] at hname ⊢
      exact hrest' hname
    · rw [chainName_of_ne _ _ (by simp [hrole])] at hname ⊢
      exact hrest' hname
    · by_cases hdims : chainDims chain = []
      · rw [chainName_typedef hrole hdims, hproper] at hname ⊢
        have hmeans := hrest.means hb hrole hproper ht hdims
        obtain ⟨hkey, hnoted, htarget⟩ := hn.recorded_typedef h.sound he hmeans hname
        obtain ⟨hleads, hbase⟩ := hrest' htarget
        exact ⟨.head (h.find?_alias hn hnoted hkey) hleads, hbase⟩
      · rw [chainName_of_dims hdims] at hname ⊢
        exact hrest' hname

theorem find?_spelling (h : Loaded units names d s) (hn : WellNamed units)
    {spelling : String × String} (hspelling : spelling ∈ Catalog.spellings) :
    (d.catalog p).aliases.find? (normalize spelling.2) = none := by
  rcases Description.find?_aliases_catalog d p (normalize spelling.2) with
    ⟨x, hx, hname, _⟩ | ⟨_, hfind⟩
  · have hidentifier := hn.identifier_of_noted (h.noted_synonym hx)
    rw [hidentifier.normalize_eq] at hname
    exact absurd hname.symm (hidentifier.ne_spelling hspelling)
  · rw [hfind, Option.eq_none_iff_forall_not_mem]
    intro target htarget
    obtain ⟨other, hother, hkey, _⟩ := Catalog.find?_aliases_ofProfile htarget
    exact Catalog.spelling_ne hspelling hother hkey.symm

theorem base_leadsTo (h : Loaded units names d s) (hn : WellNamed units) (hb : b.Base base)
    (hmem : b ∈ units.entries) (p : MachineProfile Quantity) :
    ∃ last, (d.catalog p).LeadsTo (normalize base) last ∧
      (d.catalog p).aliases.find? last = none ∧
      (last = normalize base ∨
        ∃ spelling ∈ Catalog.spellings, normalize spelling.1 = normalize base ∧
          normalize spelling.2 = last) := by
  rcases Description.find?_aliases_catalog d p (normalize base) with
    ⟨x, hx, hname, _⟩ | ⟨_, hfind⟩
  · obtain ⟨e, he, hrole, hproper, _⟩ := typedef_of_noted (h.noted_synonym hx)
    cases hn.apart e he b hmem _ (Entry.nameKind_typedef hrole) _ hb.nameKind _ hproper _ hb.name
      hname
  · cases hspelled : (Catalog.ofProfile p).aliases.find? (normalize base) with
    | none => exact ⟨normalize base, .refl, hfind.trans hspelled, .inl rfl⟩
    | some target =>
      obtain ⟨spelling, hspelling, hkey, rfl⟩ := Catalog.find?_aliases_ofProfile hspelled
      exact ⟨_, .single (hfind.trans hspelled), h.find?_spelling hn hspelling,
        .inr ⟨spelling, hspelling, hkey, rfl⟩⟩

/-- No aggregate of the description is called like what the name is a spelling of. -/
def Unshadowed (d : Description) (base : String) : Prop :=
  ∀ spelling ∈ Catalog.spellings, normalize spelling.1 = normalize base →
    ∀ a ∈ d.definitions ++ d.aggregates, normalize a.name ≠ normalize spelling.2

section Base

variable (h : Loaded units names d s) (hn : WellNamed units) (hb : b.Base base)
  (hmem : b ∈ units.entries)
include h hn hb hmem

theorem find?_aggregates_base : (d.catalog p).aggregates.find? (normalize base) = none := by
  rcases Description.find?_aggregates_catalog (p := p) h.name_ne_empty (normalize base) with
    ⟨a, ha, hname, _⟩ | ⟨_, hnone⟩
  · obtain ⟨x, hx, hdefines, _⟩ := h.converted ha
    exact absurd hname (hn.ne_base hb hmem hx hdefines.aggregate hdefines.named)
  · exact hnone

theorem describe_base (hbase : Recorded units s base) :
    ∃ f, (d.catalog p).describe base = .ok f := by
  obtain ⟨last, hleads, hend, hlast⟩ := h.base_leadsTo hn hb hmem p
  have hknown : TypeName.isPointer last ∨ (d.catalog p).types.contains last := by
    rcases hlast with rfl | ⟨spelling, hspelling, _, rfl⟩
    · rcases h.known (p := p) hbase with halias | htype | haggregate | hpointer | hincomplete
      · rw [Table.contains, hend] at halias
        cases halias
      · exact .inr htype
      · rw [Table.contains, h.find?_aggregates_base hn hb hmem] at haggregate
        cases haggregate
      · exact .inl hpointer
      · obtain ⟨x, hx, hkind, hname, _⟩ := hincomplete
        exact absurd rfl (hn.ne_base hb hmem hx hkind hname)
    · exact .inr (h.contains_primitive (Catalog.spelling_mem_primitives p spelling hspelling))
  unfold Catalog.describe
  dsimp only
  rw [Catalog.resolve_of_leadsTo hleads hend]
  rcases hknown with hpointer | htype
  · exact ⟨_, if_pos hpointer⟩
  · obtain ⟨f, hf⟩ := Option.isSome_iff_exists.mp htype
    split
    · exact ⟨_, rfl⟩
    · exact ⟨f, by rw [hf]⟩

theorem nested?_base (hfree : Unshadowed d base) : (d.catalog p).nested? base = none := by
  obtain ⟨last, hleads, hend, hlast⟩ := h.base_leadsTo hn hb hmem p
  have hnone : (d.catalog p).aggregates.find? last = none := by
    rcases hlast with rfl | ⟨spelling, hspelling, hkey, rfl⟩
    · exact h.find?_aggregates_base hn hb hmem
    · rcases Description.find?_aggregates_catalog (p := p) h.name_ne_empty
        (normalize spelling.2) with ⟨a, ha, hname, _⟩ | ⟨_, hnone⟩
      · exact absurd hname (hfree spelling hspelling hkey a ha)
      · exact hnone
  unfold Catalog.nested? Catalog.aggregate?
  rw [Catalog.resolve_of_leadsTo hleads hend, hnone, ite_self]

end Base

theorem denotes?_chain (h : Loaded units names d s) (hn : WellNamed units) (hb : b.Base base)
    (hchain : TypeChain units b chain e) (he : e ∈ units.entries)
    (hname : Recorded units s (chainName base chain)) :
    (d.catalog p).denotes? (chainName base chain) = (d.catalog p).denotes? base := by
  obtain ⟨hleads, _⟩ := h.leadsTo_base (p := p) hn hb hchain he hname
  obtain ⟨last, hbase, hend, _⟩ := h.base_leadsTo hn hb (hchain.mem he) p
  rw [Catalog.denotes?_eq, Catalog.denotes?_eq, Catalog.resolve_of_leadsTo hbase hend,
    Catalog.resolve_of_leadsTo (hleads.trans hbase) hend]

end Loaded

end DebugInfo

end AggregateLayout
