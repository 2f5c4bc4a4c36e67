namespace AggregateLayout

abbrev Table (α : Type) := List (String × α)

namespace Table

def find? {α : Type} (key : String) : Table α → Option α
  | [] => none
  | (other, value) :: rest => if other == key then some value else find? key rest

def insert {α : Type} (key : String) (value : α) : Table α → Table α
  | [] => [(key, value)]
  | (other, old) :: rest =>
    if other == key then (other, value) :: rest else (other, old) :: insert key value rest

def contains {α : Type} (key : String) (t : Table α) : Bool := (find? key t).isSome

def keys {α : Type} (t : Table α) : List String := t.map (·.1)

def values {α : Type} (t : Table α) : List α := t.map (·.2)

theorem find?_insert {α : Type} (t : Table α) (key other : String) (value : α) :
    find? other (insert key value t) = if key = other then some value else find? other t := by
  induction t with
  | nil => simp [insert, find?]
  | cons entry rest ih =>
    obtain ⟨first, old⟩ := entry
    by_cases hk : first = key <;> by_cases ho : first = other <;> grind [insert, find?]

theorem mem_of_find? {α : Type} {t : Table α} {key : String} {value : α}
    (h : find? key t = some value) : (key, value) ∈ t := by
  induction t with
  | nil => cases h
  | cons entry rest ih =>
    unfold find? at h
    split at h
    · next hkey =>
      obtain rfl := Option.some.inj h
      rw [← beq_iff_eq.mp hkey]
      exact .head _
    · exact .tail _ (ih h)

theorem keys_insert {α : Type} (t : Table α) (key : String) (value : α) :
    (insert key value t).keys = if key ∈ t.keys then t.keys else t.keys ++ [key] := by
  induction t with
  | nil => simp [insert, keys]
  | cons entry rest ih =>
    unfold keys at ih ⊢
    unfold insert
    by_cases hkey : entry.1 = key
    · simp [hkey]
    · simp only [beq_iff_eq, hkey, if_false, List.map_cons, List.mem_cons, Ne.symm hkey, false_or,
        ih]
      split <;> simp

theorem mem_keys_insert {α : Type} {t : Table α} {key other : String} {value : α} :
    other ∈ (insert key value t).keys ↔ other = key ∨ other ∈ t.keys := by
  rw [keys_insert]
  split <;> grind

theorem nodup_keys_insert {α : Type} {t : Table α} (h : t.keys.Nodup) (key : String) (value : α) :
    (insert key value t).keys.Nodup := by
  rw [keys_insert]
  split
  · exact h
  · next hkey => exact List.nodup_append.mpr ⟨h, by simp, by grind⟩

end Table

end AggregateLayout
