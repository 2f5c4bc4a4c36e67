import Mathlib
import AggregateLayout.Proofs.Expansion

namespace AggregateLayout

open Relation (ReflTransGen TransGen)

section Depth

variable {μ : Type} [Measure μ]

mutual

def Aggregate.inlineDepth : Aggregate μ → Nat
  | ⟨_, _, members, _, _⟩ => membersDepth members + 1
termination_by structural a => a

def membersDepth : List (Member μ) → Nat
  | [] => 0
  | m :: rest => max m.inlineDepth (membersDepth rest)
termination_by structural members => members

def Member.inlineDepth : Member μ → Nat
  | ⟨_, type, _, _, _⟩ => type.inlineDepth
termination_by structural m => m

def TypeRef.inlineDepth : TypeRef μ → Nat
  | .inline a => a.inlineDepth
  | _ => 0
termination_by structural r => r

end

variable {a b : Aggregate μ} {m : Member μ}

theorem inlineDepth_le_membersDepth {members : List (Member μ)} (hm : m ∈ members) :
    m.inlineDepth ≤ membersDepth members := by
  induction hm with
  | head => exact le_max_left _ _
  | tail _ _ ih => exact ih.trans (le_max_right _ _)

theorem Aggregate.inlineDepth_pos (a : Aggregate μ) : 0 < a.inlineDepth := by
  cases a
  exact Nat.succ_pos _

theorem Aggregate.inlineDepth_lt (hm : m ∈ a.members) (hb : m.type = .inline b) :
    b.inlineDepth < a.inlineDepth := by
  have hle := inlineDepth_le_membersDepth hm
  cases a
  cases m
  subst hb
  exact Nat.lt_succ_of_le hle

end Depth

section Definitions

variable {α : Type} {t : Table α} {key : String} {value other : α}

theorem Table.mem_values_of_find? (h : t.find? key = some value) : value ∈ t.values :=
  List.mem_map_of_mem (mem_of_find? h)

theorem Table.mem_values_insert (h : other ∈ (t.insert key value).values) :
    other = value ∨ other ∈ t.values := by
  induction t with
  | nil => exact .inl (List.mem_singleton.mp h)
  | cons entry rest ih =>
    unfold insert at h
    split at h
    · rcases List.mem_cons.mp h with rfl | h
      · exact .inl rfl
      · exact .inr (.tail _ h)
    · rcases List.mem_cons.mp h with rfl | h
      · exact .inr (.head _)
      · exact (ih h).imp_right (.tail _)

end Definitions

namespace Catalog

/-- The catalogs that come about by registering types and aliases and by defining aggregates. -/
inductive Built : Catalog Int → Prop
  | empty (p : MachineProfile Int) : Built { profile := p }
  | register {c : Catalog Int} (h : Built c) (d : TypeDescriptor Int) : Built (c.register d)
  | registerAlias {c : Catalog Int} (h : Built c) (name target : String) :
    Built (c.registerAlias name target)
  | define {c c' : Catalog Int} {a : Aggregate Int} (h : Built c) (ha : c.define? a = some c') :
    Built c'

theorem Built.named {c : Catalog Int} (h : c.Built) : ∀ a ∈ c.aggregates.values, a.name ≠ "" := by
  induction h with
  | empty p => exact fun a ha => (nomatch ha)
  | register _ d ih => exact ih
  | registerAlias _ name target ih => exact ih
  | define _ ha ih =>
    unfold define? at ha
    split at ha
    · cases ha
    · next hname =>
      obtain rfl := Option.some.inj ha
      intro b hb
      rcases Table.mem_values_insert hb with rfl | hb
      · simpa using hname
      · exact ih b hb

theorem mem_values_of_nested? {c : Catalog Int} {name : String} {a : Aggregate Int}
    (h : c.nested? name = some a) : a ∈ c.aggregates.values := by
  unfold nested? at h
  split at h
  · cases h
  · exact Table.mem_values_of_find? h

end Catalog

namespace Target

variable {t : Target Int} {root a b : Aggregate Int} {m : Member Int} {d : TypeDescriptor Int}
  {l : Layout Int} {path : List String} {defs : List (Aggregate Int)} {levels : Nat}
  {cause : LayoutCause Int}

def Nested (t : Target Int) (b a : Aggregate Int) : Prop := t.Nests a b

theorem acc_of_members {typed : List (Member Int × TypeDescriptor Int)}
    (hm : typed.map Prod.fst = a.members)
    (h : ∀ x ∈ typed, ∀ b, t.nested? x.1.type = some b → Acc t.Nested b) : Acc t.Nested a := by
  refine Acc.intro _ fun c ⟨m, hmem, hc⟩ => ?_
  rw [← hm] at hmem
  obtain ⟨x, hx, rfl⟩ := List.mem_map.mp hmem
  exact h x hx c hc

theorem Types.acc (h : t.Types m d) (hb : t.nested? m.type = some b) : Acc t.Nested b := by
  induction h generalizing b with
  | flat hf => exact absurd hb (nested?_ne_some_of_flat? hf)
  | nested hb' _ hm _ _ _ _ ih =>
    obtain rfl := Option.some.inj (hb'.symm.trans hb)
    exact acc_of_members hm fun x hx _ hc => ih x hx hc

theorem Lays.acc (h : t.Lays a l) : Acc t.Nested a := by
  obtain ⟨_, typed, hm, htyped, _⟩ := h
  exact acc_of_members hm fun x hx _ hc => (htyped x hx).acc hc

theorem not_transGen_of_acc (h : Acc t.Nested a) (hab : ReflTransGen t.Nests a b) :
    ¬ TransGen t.Nests b b := by
  induction h generalizing b with
  | intro a _ ih =>
    intro hcycle
    cases hab using ReflTransGen.head_induction_on with
    | refl =>
      obtain ⟨c, hac, hca⟩ := TransGen.head'_iff.mp hcycle
      exact ih c hac .refl (.tail' hca hac)
    | head hac hcb => exact ih _ hac hcb hcycle

/-- The recursion comes to an aggregate inside the ones on the path. The definitions are those that
it entered by their names, the last one first. -/
inductive Visits (t : Target Int) (root : Aggregate Int) :
    List String → List (Aggregate Int) → Aggregate Int → Prop
  | root : Visits t root [] [] root
  | inline {path : List String} {defs : List (Aggregate Int)} {a b : Aggregate Int}
    {m : Member Int} (h : Visits t root path defs a) (hclear : checkCycle path a = .ok ())
    (hm : m ∈ a.members) (hb : m.type = .inline b) :
    Visits t root (path ++ [orAnonymous a.name]) defs b
  | named {path : List String} {defs : List (Aggregate Int)} {a b : Aggregate Int}
    {m : Member Int} {name : String} (h : Visits t root path defs a)
    (hclear : checkCycle path a = .ok ()) (hm : m ∈ a.members) (hname : m.type = .named name)
    (hb : t.catalog.nested? name = some b) :
    Visits t root (path ++ [orAnonymous a.name]) (b :: defs) b

theorem Visits.nests (h : t.Visits root path defs a) (hclear : checkCycle path a = .ok ())
    (hb : t.Nests a b) : ∃ defs', t.Visits root (path ++ [orAnonymous a.name]) defs' b := by
  obtain ⟨m, hm, hb⟩ := hb
  cases htype : m.type with
  | named name => exact ⟨_, .named h hclear hm htype (by rw [htype] at hb; exact hb)⟩
  | descriptor d =>
    rw [htype] at hb
    cases hb
  | inline b' =>
    rw [htype] at hb
    obtain rfl := Option.some.inj hb
    exact ⟨_, .inline h hclear hm htype⟩

theorem Fault.visits (h : t.Fault levels path a cause) (hvisit : t.Visits root path defs a)
    (hlevels : path.length + levels = t.levels) (hcause : cause.OfChain) :
    ∃ path defs b, t.Visits root path defs b ∧
      ((b.name ≠ "" ∧ b.name ∈ path ∧ cause = .cycle (path ++ [b.name])) ∨
        (checkCycle path b = .ok () ∧ path.length = t.levels ∧
          cause = .invalidMember (.tooDeep t.maxDepth))) := by
  induction h generalizing defs with
  | cycle hname hmem => exact ⟨_, _, _, hvisit, .inl ⟨hname, hmem, rfl⟩⟩
  | deep hclear => exact ⟨_, _, _, hvisit, .inr ⟨hclear, hlevels, rfl⟩⟩
  | unsound _ hnot => exact absurd hcause hnot
  | nested hclear hb _ ih =>
    obtain ⟨defs', hvisit'⟩ := hvisit.nests hclear hb
    refine ih hvisit' ?_ hcause
    rw [List.length_append, List.length_singleton]
    omega

theorem Visits.chain (h : t.Visits root path defs b) :
    ∃ outer : List (Aggregate Int), path = outer.map (fun a => orAnonymous a.name) ∧
      (outer ++ [b]).head? = some root ∧ (outer ++ [b]).IsChain t.Nests := by
  have extend {path : List String} {a b : Aggregate Int} {outer : List (Aggregate Int)}
      (hpath : path = outer.map fun a => orAnonymous a.name)
      (hhead : (outer ++ [a]).head? = some root) (hchain : (outer ++ [a]).IsChain t.Nests)
      (hb : t.Nests a b) :
      ∃ outer : List (Aggregate Int),
        path ++ [orAnonymous a.name] = outer.map (fun a => orAnonymous a.name) ∧
        (outer ++ [b]).head? = some root ∧ (outer ++ [b]).IsChain t.Nests := by
    refine ⟨outer ++ [a], by rw [hpath, List.map_append]; rfl, ?_, ?_⟩
    · rw [List.head?_append, hhead]
      rfl
    · refine List.isChain_append.mpr ⟨hchain, .singleton b, fun x hx y hy => ?_⟩
      rw [List.getLast?_concat] at hx
      obtain rfl := Option.some.inj hx
      obtain rfl := Option.some.inj hy
      exact hb
  induction h with
  | root => exact ⟨[], rfl, rfl, .singleton root⟩
  | inline _ _ hm hb ih =>
    obtain ⟨outer, hpath, hhead, hchain⟩ := ih
    exact extend hpath hhead hchain ⟨_, hm, by rw [hb]; rfl⟩
  | named _ _ hm hname hb ih =>
    obtain ⟨outer, hpath, hhead, hchain⟩ := ih
    exact extend hpath hhead hchain ⟨_, hm, by rw [hname]; exact hb⟩

theorem name_mem_path (hc : t.catalog.Built) {e : Aggregate Int}
    (he : e ∈ t.catalog.aggregates.values) (h : e = a ∨ e.name ∈ path) :
    e.name ∈ path ++ [orAnonymous a.name] := by
  rcases h with rfl | h
  · have hname : orAnonymous e.name = e.name := by simp [orAnonymous, hc.named e he]
    simp [hname]
  · exact List.mem_append_left _ h

theorem Visits.mem_defs (hc : t.catalog.Built) (h : t.Visits root path defs b) :
    ∀ e ∈ defs, e ∈ t.catalog.aggregates.values ∧ (e = b ∨ e.name ∈ path) := by
  induction h with
  | root => exact fun e he => (nomatch he)
  | inline _ _ _ _ ih =>
    exact fun e he => ⟨(ih e he).1, .inr (name_mem_path hc (ih e he).1 (ih e he).2)⟩
  | named _ _ _ _ hb ih =>
    exact List.forall_mem_cons.mpr ⟨⟨Catalog.mem_values_of_nested? hb, .inl rfl⟩,
      fun e he => ⟨(ih e he).1, .inr (name_mem_path hc (ih e he).1 (ih e he).2)⟩⟩

theorem Visits.nodup (hc : t.catalog.Built) (h : t.Visits root path defs b)
    (hclear : checkCycle path b = .ok ()) : (defs.map (·.name)).Nodup := by
  induction h with
  | root => exact .nil
  | inline _ hclear' _ _ ih => exact ih hclear'
  | @named _ _ _ b _ _ h hclear' _ _ hb ih =>
    refine List.nodup_cons.mpr ⟨fun hmem => ?_, ih hclear'⟩
    obtain ⟨e, he, hname⟩ := List.mem_map.mp hmem
    obtain ⟨hvalue, hpath⟩ := h.mem_defs hc e he
    have hfresh := checkCycle_eq_ok.mp hclear (hc.named _ (Catalog.mem_values_of_nested? hb))
    have hsame : e.name = b.name := hname
    -- An earlier definition of the name is on the path, where the check would have found it.
    exact hfresh (hsame ▸ name_mem_path hc hvalue hpath)

theorem Visits.subperm (hc : t.catalog.Built) (h : t.Visits root path defs b)
    (hclear : checkCycle path b = .ok ()) : defs.Subperm t.catalog.aggregates.values :=
  List.subperm_of_subset (h.nodup hc hclear).of_map fun e he => (h.mem_defs hc e he).1

theorem Visits.length_le (h : t.Visits root path defs b) :
    path.length + b.inlineDepth ≤
      root.inlineDepth + (defs.map Aggregate.inlineDepth).sum := by
  induction h with
  | root => simp
  | inline _ _ hm hb ih =>
    have := Aggregate.inlineDepth_lt hm hb
    rw [List.length_append, List.length_singleton]
    omega
  | @named _ _ a _ _ _ _ _ _ _ _ ih =>
    have := a.inlineDepth_pos
    rw [List.length_append, List.length_singleton, List.map_cons, List.sum_cons]
    omega

theorem Visits.sum_le (hc : t.catalog.Built) (h : t.Visits root path defs b)
    (hclear : checkCycle path b = .ok ()) :
    (defs.map Aggregate.inlineDepth).sum ≤
      (t.catalog.aggregates.values.map Aggregate.inlineDepth).sum := by
  obtain ⟨entered, hp, hsub⟩ := h.subperm hc hclear
  rw [← (hp.map Aggregate.inlineDepth).sum_eq]
  exact (hsub.map Aggregate.inlineDepth).sum_le_sum fun _ _ => Nat.zero_le _

theorem layout_chain {e : LayoutError Int} (h : t.layout a = .error (.invalid e))
    (hcause : e.cause.OfChain) :
    ∃ path defs b, t.Visits a path defs b ∧
      ((b.name ≠ "" ∧ b.name ∈ path ∧ e.cause = .cycle (path ++ [b.name])) ∨
        (checkCycle path b = .ok () ∧ path.length = t.levels ∧
          e.cause = .invalidMember (.tooDeep t.maxDepth))) := by
  obtain ⟨_, heq, hfault⟩ := layout_fault h
  obtain rfl := LayoutFailure.invalid.inj heq
  exact hfault.visits .root (Nat.zero_add _) hcause

end Target

/-- What leads to a cycle has no layout. A chain enters no more definitions than there are, so that
with levels for all that is defined in place it never is too deep. And a cycle is told by the names
of a chain of aggregates from the outermost one on, the last one of which is there before. -/
theorem layout_refuses_cycles (t : Target Int) (hc : t.catalog.Built) (a : Aggregate Int) :
    (∀ b, ReflTransGen t.Nests a b → TransGen t.Nests b b → ∀ l, t.layout a ≠ .ok l) ∧
    (∀ path defs b, t.Visits a path defs b → checkCycle path b = .ok () →
      defs.length ≤ t.catalog.aggregates.length) ∧
    (((a.inlineDepth + (t.catalog.aggregates.values.map Aggregate.inlineDepth).sum : Nat) : Int) ≤
        t.maxDepth →
      ∀ e levels, t.layout a = .error (.invalid e) → e.cause ≠ .invalidMember (.tooDeep levels)) ∧
    ∀ e path, t.layout a = .error (.invalid e) → e.cause = .cycle path →
      ∃ chain : List (Aggregate Int), chain.head? = some a ∧ chain.IsChain t.Nests ∧
        path = chain.map (fun b => orAnonymous b.name) ∧
        ∃ earlier last, path = earlier ++ [last] ∧ last ∈ earlier := by
  refine ⟨fun b hab hcycle l hl => ?_, fun path defs b h hclear => ?_,
    fun hdepth e levels h hcause => ?_, fun e path h hcause => ?_⟩
  · exact Target.not_transGen_of_acc (Target.lays_of_layout hl).acc hab hcycle
  · have hle := (h.subperm hc hclear).length_le
    rwa [Table.values, List.length_map] at hle
  · obtain ⟨path, defs, b, hvisit, ⟨_, _, hcycle⟩ | ⟨hclear, hlength, _⟩⟩ :=
      Target.layout_chain h (by rw [hcause]; trivial)
    · exact (nomatch hcause.symm.trans hcycle)
    · have hle := hvisit.length_le
      have hsum := hvisit.sum_le hc hclear
      have hpos := b.inlineDepth_pos
      have hlevels : t.levels = t.maxDepth.toNat := rfl
      omega
  · obtain ⟨path', defs, b, hvisit, ⟨hname, hmem, hcycle⟩ | ⟨_, _, hdeep⟩⟩ :=
      Target.layout_chain h (by rw [hcause]; trivial)
    · obtain rfl := LayoutCause.cycle.inj (hcause.symm.trans hcycle)
      obtain ⟨outer, rfl, hhead, hchain⟩ := hvisit.chain
      refine ⟨outer ++ [b], hhead, hchain, ?_, _, b.name, rfl, hmem⟩
      rw [List.map_append]
      simp [orAnonymous, hname]
    · exact (nomatch hcause.symm.trans hdeep)

def ping : Aggregate Int where
  name := "ping"
  members := [{ name := "next", type := .named "struct pong" }]

def pong : Aggregate Int where
  name := "pong"
  members :=
    [{ name := "body", type := .inline
        { name := "", members := [{ name := "back", type := .named "ping" }] } }]

def pingPong : Target Int where
  catalog := { profile := .lp64, aggregates := [("ping", ping), ("pong", pong)] }
  maxDepth := 4

theorem pingPong_built : pingPong.catalog.Built :=
  .define (a := pong) (.define (a := ping) (.empty .lp64) rfl) rfl

theorem ping_cycle : TransGen pingPong.Nests ping ping :=
  .tail (b := { name := "", members := [{ name := "back", type := .named "ping" }] })
    (.tail (b := pong) (.single ⟨_, .head _, rfl⟩) ⟨_, .head _, rfl⟩) ⟨_, .head _, rfl⟩

theorem layout_refuses_cycles_ping :
    (∀ l, pingPong.layout ping ≠ .ok l) ∧
    (∀ e levels, pingPong.layout ping = .error (.invalid e) →
      e.cause ≠ .invalidMember (.tooDeep levels)) ∧
    ∃ e, pingPong.layout ping = .error (.invalid e) ∧
      e.cause = .cycle ["ping", "pong", "<anonymous>", "ping"] := by
  obtain ⟨hnever, _, hdeep, _⟩ := layout_refuses_cycles pingPong pingPong_built ping
  exact ⟨hnever ping .refl ping_cycle, hdeep (by decide), _, rfl, rfl⟩

end AggregateLayout
