import Mathlib
import AggregateLayout.Proofs.Lays

namespace AggregateLayout

namespace Target

variable {t : Target Int} {nested : Aggregate Int → Layouting Int (TypeDescriptor Int)}
  {memo memo' : Memo Int} {a : Aggregate Int} {l : Layout Int} {m : Member Int}
  {d : TypeDescriptor Int} {typed : List (Member Int × TypeDescriptor Int)}

def Remembers (t : Target Int) (memo : Memo Int) : Prop :=
  ∀ x ∈ memo, ∃ l, t.Lays x.1 l ∧ l.descriptor.plain = x.2.plain

theorem Remembers.find? (h : t.Remembers memo) (hd : memo.find? a = some d) :
    ∃ l, t.Lays a l ∧ l.descriptor.plain = d.plain := by
  obtain ⟨x, hx, rfl⟩ := Option.map_eq_some_iff.mp hd
  obtain ⟨l, hl, hd⟩ := h x (List.mem_of_find?_eq_some hx)
  have same : x.1.sameAs a = true := by simpa using List.find?_some hx
  obtain ⟨l', hl', hll'⟩ := hl.congr same
  exact ⟨l', hl', (descriptor_plain_eq hll').symm.trans hd⟩

def Finds (t : Target Int) (nested : Aggregate Int → Layouting Int (TypeDescriptor Int)) : Prop :=
  ∀ b memo d memo', t.Remembers memo → nested b memo = .ok (d, memo') →
    (∃ l, t.Lays b l ∧ l.descriptor.plain = d.plain) ∧ t.Remembers memo'

theorem Finds.typeWith (hn : t.Finds nested) (hmemo : t.Remembers memo)
    (h : t.typeWith nested m memo = .ok (d, memo')) : t.Types m d ∧ t.Remembers memo' := by
  obtain ⟨d₀, hd, ⟨hf, rfl⟩ | ⟨b, hb, hbd⟩⟩ := typeWith_eq_ok.mp h
  · exact ⟨.flat hf rfl hd, hmemo⟩
  · obtain ⟨⟨l, hl, hld⟩, hmemo'⟩ := hn b memo d₀ memo' hmemo hbd
    exact ⟨hl.types hb hld hd, hmemo'⟩

theorem Finds.typing (hn : t.Finds nested) (hmemo : t.Remembers memo)
    (h : t.Typing nested memo typed memo') :
    (∀ x ∈ typed, t.Types x.1 x.2) ∧ t.Remembers memo' := by
  induction h with
  | nil => exact ⟨fun x hx => (nomatch hx), hmemo⟩
  | cons hd _ ih =>
    obtain ⟨hx, hmemo₁⟩ := hn.typeWith hmemo hd
    obtain ⟨hrest, hmemo'⟩ := ih hmemo₁
    exact ⟨List.forall_mem_cons.mpr ⟨hx, hrest⟩, hmemo'⟩

theorem Finds.layoutAt {keep : Bool} {levels : Nat} {path : List String}
    (hn : ∀ path, t.Finds (t.nestedAt keep levels path)) (hmemo : t.Remembers memo)
    (h : t.layoutAt keep (levels + 1) path a memo = .ok (l, memo')) :
    t.Lays a l ∧ t.Remembers memo' := by
  obtain ⟨_, hnames, hw⟩ := layoutAt_succ_eq_ok.mp h
  obtain ⟨typed, hm, htyping, hl⟩ := layoutWith_eq_ok.mp hw
  obtain ⟨htyped, hmemo'⟩ := (hn _).typing hmemo htyping
  exact ⟨⟨hnames, typed, hm, htyped, hl⟩, hmemo'⟩

theorem finds_nestedAt (keep : Bool) (levels : Nat) (path : List String) :
    t.Finds (t.nestedAt keep levels path) := by
  -- With no level left an aggregate is found only if it is remembered.
  induction levels generalizing path with
  | zero =>
    intro b memo d memo' hmemo h
    rcases nestedAt_eq_ok.mp h with ⟨hd, rfl⟩ | ⟨_, l, memo₁, hl, _⟩
    · exact ⟨hmemo.find? hd, hmemo⟩
    · exact absurd hl layoutAt_zero_ne_ok
  | succ levels ih =>
    intro b memo d memo' hmemo h
    rcases nestedAt_eq_ok.mp h with ⟨hd, rfl⟩ | ⟨_, l, memo₁, hl, rfl, rfl⟩
    · exact ⟨hmemo.find? hd, hmemo⟩
    · obtain ⟨hb, hmemo₁⟩ := Finds.layoutAt ih hmemo hl
      refine ⟨⟨l, hb, rfl⟩, ?_⟩
      cases keep with
      | false => exact hmemo₁
      | true => exact List.forall_mem_cons.mpr ⟨⟨l, hb, rfl⟩, hmemo₁⟩

theorem remembers_nil : t.Remembers [] := fun _ hx => (nomatch hx)

theorem lays_of_layout (h : t.layout a = .ok l) : t.Lays a l := by
  obtain ⟨⟨memo', hl⟩, _⟩ := layout_eq_ok.mp h
  cases hn : t.levels with
  | zero => exact absurd (hn ▸ hl) layoutAt_zero_ne_ok
  | succ levels => exact (Finds.layoutAt (finds_nestedAt true levels) remembers_nil (hn ▸ hl)).1

theorem types_of_memberType (h : t.memberType m = .ok d) : t.Types m d := by
  obtain ⟨memo', hd⟩ := memberType_eq_ok.mp h
  exact ((finds_nestedAt true t.levels []).typeWith remembers_nil hd).1

end Target

end AggregateLayout
