import Mathlib
import AggregateLayout.Description.Reader
import AggregateLayout.Proofs.Layouting

namespace AggregateLayout

def EscapesWhen {α : Type} (x : Except DescriptionError α) (P : DescriptionError → Prop) : Prop :=
  ∀ e, (∀ fault, e ≠ .malformed fault) → (x = .error e ↔ P e)

namespace EscapesWhen

variable {α β : Type} {x : Except DescriptionError α} {f : α → Except DescriptionError β}
  {P Q : DescriptionError → Prop}

theorem ok (a : α) : EscapesWhen (.ok a) fun _ => False :=
  fun _ _ => iff_of_false nofun id

theorem malformed (fault : DescriptionFault) :
    EscapesWhen (.error (.malformed fault) : Except DescriptionError α) fun _ => False := by
  intro e he
  refine iff_of_false (fun h => ?_) id
  exact he fault (Except.error.inj h).symm

theorem congr (h : EscapesWhen x P) (hPQ : ∀ e, P e ↔ Q e) : EscapesWhen x Q :=
  fun e he => (h e he).trans (hPQ e)

theorem bind (hx : EscapesWhen x P) (hf : ∀ a, x = .ok a → EscapesWhen (f a) Q) :
    EscapesWhen (x >>= f) fun e => P e ∨ (∃ a, x = .ok a) ∧ Q e := by
  intro e he
  rw [except_bind_eq_error, hx e he]
  apply or_congr_right
  constructor
  · rintro ⟨a, ha, h⟩
    exact ⟨⟨a, ha⟩, (hf a ha e he).mp h⟩
  · rintro ⟨⟨a, ha⟩, h⟩
    exact ⟨a, ha, (hf a ha e he).mpr h⟩

theorem map (hx : EscapesWhen x P) (g : α → β) : EscapesWhen (x.map g) P := by
  intro e he
  rw [← hx e he]
  cases x <;> simp [Except.map]

theorem mapError {ε : Type} (y : Except ε α) (g : ε → DescriptionFault) :
    EscapesWhen (y.mapError fun e => .malformed (g e)) fun _ => False := by
  cases y with
  | ok a => exact ok a
  | error e => exact malformed (g e)

end EscapesWhen

namespace MachineProfile

variable {d : Document} {fields : Table Document} {kind : String}

def StrangeBase (d : Document) (kind : String) : Prop :=
  ∃ fields base, d = .object fields ∧
    (∀ name ∈ Table.keys fields, name ≠ "base" → name ∈ fieldNames) ∧
    Table.find? "base" fields = some base ∧ base ≠ .null ∧ (∀ name, base ≠ .text name) ∧
    base.kindName = kind

theorem unknown_isEmpty : ((Table.keys (fields.filter (·.1 != "base"))).filter
      fun name => !fieldNames.contains name).isEmpty = true ↔
    ∀ name ∈ Table.keys fields, name ≠ "base" → name ∈ fieldNames := by
  unfold Table.keys
  rw [List.isEmpty_iff, List.filter_eq_nil_iff]
  simp only [List.mem_map, List.mem_filter, Bool.not_eq_true', Bool.not_eq_false,
    List.contains_iff_mem, bne_iff_ne]
  constructor
  · rintro h name ⟨entry, hentry, rfl⟩ hbase
    exact h _ ⟨entry, ⟨hentry, hbase⟩, rfl⟩
  · rintro h name ⟨entry, ⟨hentry, hbase⟩, rfl⟩
    exact h _ ⟨entry, hentry, rfl⟩ hbase

theorem strangeBase_object {base : Document}
    (hbase : (Table.find? "base" fields).getD .null = base) :
    StrangeBase (.object fields) kind ↔
      (∀ name ∈ Table.keys fields, name ≠ "base" → name ∈ fieldNames) ∧
        base ≠ .null ∧ (∀ name, base ≠ .text name) ∧ base.kindName = kind := by
  constructor
  · rintro ⟨_, other, h, hknown, hother, hstrange⟩
    cases h
    rw [hother] at hbase
    obtain rfl : other = base := hbase
    exact ⟨hknown, hstrange⟩
  · rintro ⟨hknown, hnull, hstrange⟩
    cases hother : Table.find? "base" fields with
    | none =>
      rw [hother] at hbase
      exact absurd hbase.symm hnull
    | some other =>
      rw [hother] at hbase
      obtain rfl : other = base := hbase
      exact ⟨fields, other, rfl, hknown, hother, hnull, hstrange⟩

theorem ofFields_escapes (fields : Table Document) :
    EscapesWhen (ofFields fields) fun e =>
      ∃ kind, e = .baseKind kind ∧ StrangeBase (.object fields) kind := by
  simp only [strangeBase_object rfl, ← unknown_isEmpty]
  unfold ofFields
  dsimp only
  split
  · next hunknown =>
    rw [Bool.not_eq_true'] at hunknown
    refine (EscapesWhen.malformed _).congr fun e => iff_of_false id ?_
    rintro ⟨_, _, hknown, _⟩
    exact absurd (hunknown.symm.trans hknown) Bool.false_ne_true
  · next hknown =>
    rw [Bool.not_eq_true', Bool.not_eq_false] at hknown
    simp only [hknown, true_and]
    generalize (Table.find? "base" fields).getD .null = base
    split
    · have none (e : DescriptionError) : False ↔ ∃ kind, e = .baseKind kind ∧
          Document.null ≠ .null ∧ (∀ name, Document.null ≠ .text name) ∧
          Document.null.kindName = kind :=
        iff_of_false id fun ⟨_, _, hnull, _⟩ => hnull rfl
      split
      · exact (EscapesWhen.mapError _ _).congr none
      · exact (EscapesWhen.malformed _).congr none
    · next base =>
      have none (e : DescriptionError) : False ↔ ∃ kind, e = .baseKind kind ∧
          Document.text base ≠ .null ∧ (∀ name, Document.text base ≠ .text name) ∧
          (Document.text base).kindName = kind :=
        iff_of_false id fun ⟨_, _, _, htext, _⟩ => htext base rfl
      split
      · exact (EscapesWhen.mapError _ _).congr none
      · exact (EscapesWhen.malformed _).congr none
    · next hnull htext =>
      intro e he
      constructor
      · intro h
        exact ⟨base.kindName, (Except.error.inj h).symm, hnull, htext, rfl⟩
      · rintro ⟨_, rfl, _, _, rfl⟩
        rfl

theorem ofDocument_escapes (d : Document) :
    EscapesWhen (ofDocument d) fun e => ∃ kind, e = .baseKind kind ∧ StrangeBase d kind := by
  have never {d : Document} (hd : ∀ fields, d ≠ .object fields) (e : DescriptionError) :
      False ↔ ∃ kind, e = .baseKind kind ∧ StrangeBase d kind := by
    refine iff_of_false id ?_
    rintro ⟨_, _, fields, _, rfl, _⟩
    exact hd fields rfl
  unfold ofDocument
  split
  · split
    · exact (EscapesWhen.ok _).congr (never nofun)
    · exact (EscapesWhen.malformed _).congr (never nofun)
  · exact ofFields_escapes _
  · next d _ hobject => exact (EscapesWhen.malformed _).congr (never hobject)

end MachineProfile

namespace Description

variable {d : Document} {entry : Document} {entries : List Document}

def Unbounded (d : Document) : Prop := d.whole = .error .unbounded

def UnboundedType (entry : Document) : Prop :=
  ∃ name size, entry.field? "name" = some (.text name) ∧ entry.field? "alias" = none ∧
    entry.field? "size" = some size ∧
    (Unbounded size ∨ (∃ n, size.whole = .ok n) ∧
      ∃ alignment, entry.field? "alignment" = some alignment ∧ Unbounded alignment)

theorem wholeField_escapes (name : String) (d : Document) :
    EscapesWhen (wholeField name d) fun e => e = .unboundedSize ∧ Unbounded d := by
  unfold wholeField Unbounded
  cases d.whole with
  | ok n => exact (EscapesWhen.ok n).congr fun e => iff_of_false id fun ⟨_, h⟩ => (nomatch h)
  | error fault =>
    cases fault with
    | unbounded =>
      intro e _
      constructor
      · intro h
        exact ⟨(Except.error.inj h).symm, rfl⟩
      · rintro ⟨rfl, _⟩
        rfl
    | _ => exact (EscapesWhen.malformed _).congr fun e => iff_of_false id fun ⟨_, h⟩ => (nomatch h)

theorem exists_wholeField (name : String) (d : Document) :
    (∃ n, wholeField name d = .ok n) ↔ ∃ n, d.whole = .ok n := by
  simp only [wholeField, mapError_eq_ok]

theorem readSizes_escapes {α : Type} {f : Int → Int → Except DescriptionError α}
    (hf : ∀ n m, EscapesWhen (f n m) fun _ => False) (name : String) (size alignment : Document) :
    EscapesWhen (wholeField name size >>= fun n => wholeField name alignment >>= f n) fun e =>
      e = .unboundedSize ∧
        (Unbounded size ∨ (∃ n, size.whole = .ok n) ∧ Unbounded alignment) := by
  have second := fun n (_ : wholeField name size = .ok n) =>
    (wholeField_escapes name alignment).bind fun m _ => hf n m
  refine ((wholeField_escapes name size).bind second).congr fun e => ?_
  rw [exists_wholeField, and_false, or_false, and_left_comm, ← and_or_left]

theorem readType_escapes (entry : Document) :
    EscapesWhen (readType entry) fun e => e = .unboundedSize ∧ UnboundedType entry := by
  unfold readType UnboundedType
  split
  · next name hname =>
    split
    · next target _ halias =>
      refine (EscapesWhen.ok _).congr fun e => iff_of_false id ?_
      rintro ⟨_, _, _, _, hnone, _⟩
      exact (nomatch halias.symm.trans hnone)
    · next halias hsize =>
      refine (EscapesWhen.malformed _).congr fun e => iff_of_false id ?_
      rintro ⟨_, _, _, _, _, hsome, _⟩
      exact (nomatch hsize.symm.trans hsome)
    · next size halias hsize =>
      have entered : UnboundedType entry ↔ Unbounded size ∨ (∃ n, size.whole = .ok n) ∧
          ∃ alignment, entry.field? "alignment" = some alignment ∧ Unbounded alignment := by
        constructor
        · rintro ⟨_, _, _, _, hsome, h⟩
          obtain rfl := Option.some.inj (hsize.symm.trans hsome)
          exact h
        · intro h
          exact ⟨name, size, hname, halias, hsize, h⟩
      change EscapesWhen _ fun e => e = _ ∧ UnboundedType entry
      rw [entered]
      cases entry.field? "alignment" with
      | none =>
        refine ((wholeField_escapes name size).bind (Q := fun _ => False) fun n _ => ?_).congr
          (by simp)
        simp only [pure_bind]
        generalize (if n > 0 then n else 1) = alignment
        split
        · exact EscapesWhen.ok _
        · exact EscapesWhen.malformed _
      | some alignment =>
        refine (readSizes_escapes (fun n m => ?_) name size alignment).congr (by simp)
        dsimp only
        split
        · exact EscapesWhen.ok _
        · exact EscapesWhen.malformed _
  · next hname =>
    refine (EscapesWhen.malformed _).congr fun e => iff_of_false id ?_
    rintro ⟨_, name, _, h, _⟩
    exact hname name h

theorem exists_first_iff {P : Document → Prop} {entry : Document} {rest : List Document} :
    (∃ earlier x later, entry :: rest = earlier ++ x :: later ∧
      (∀ x ∈ earlier, ∃ y, readType x = .ok y) ∧ P x) ↔
    P entry ∨ (∃ y, readType entry = .ok y) ∧ ∃ earlier x later, rest = earlier ++ x :: later ∧
      (∀ x ∈ earlier, ∃ y, readType x = .ok y) ∧ P x := by
  constructor
  · rintro ⟨earlier, x, later, hsplit, hearlier, hx⟩
    cases earlier with
    | nil =>
      obtain ⟨rfl, _⟩ := List.cons.inj hsplit
      exact .inl hx
    | cons y earlier =>
      obtain ⟨rfl, rfl⟩ := List.cons.inj hsplit
      obtain ⟨hentry, hearlier⟩ := List.forall_mem_cons.mp hearlier
      exact .inr ⟨hentry, earlier, x, later, rfl, hearlier, hx⟩
  · rintro (hentry | ⟨hentry, earlier, x, later, rfl, hearlier, hx⟩)
    · exact ⟨[], entry, rest, rfl, fun x hx => (nomatch hx), hentry⟩
    · exact ⟨entry :: earlier, x, later, rfl, List.forall_mem_cons.mpr ⟨hentry, hearlier⟩, hx⟩

theorem readTypes_escapes (entries : List Document) (d : Description) :
    EscapesWhen (readTypes entries d) fun e => e = .unboundedSize ∧
      ∃ earlier entry later, entries = earlier ++ entry :: later ∧
        (∀ x ∈ earlier, ∃ y, readType x = .ok y) ∧ UnboundedType entry := by
  induction entries generalizing d with
  | nil => exact (EscapesWhen.ok d).congr (by simp)
  | cons entry rest ih =>
    unfold readTypes
    rw [List.foldlM_cons, bind_assoc]
    refine EscapesWhen.congr ((readType_escapes entry).bind (Q := fun e => e = .unboundedSize ∧
      ∃ earlier entry later, rest = earlier ++ entry :: later ∧
        (∀ x ∈ earlier, ∃ y, readType x = .ok y) ∧ UnboundedType entry) fun x _ => ?_) fun e => ?_
    · cases x <;> exact ih _
    · rw [exists_first_iff]
      tauto

def FirstUnbounded (fields : Table Document) : Prop :=
  ∃ earlier entry later, Table.find? "types" fields = some (.list (earlier ++ entry :: later)) ∧
    (∀ x ∈ earlier, ∃ y, readType x = .ok y) ∧ UnboundedType entry

/-- The profile of a description is fine, and one of its types has an infinite size or
alignment. -/
def HasUnboundedType (d : Document) : Prop :=
  ∃ fields, d = .object fields ∧
    (∀ profile, Table.find? "profile" fields = some profile →
      ∃ p, MachineProfile.ofDocument profile = .ok p) ∧ FirstUnbounded fields

/-- The profile of a description has a base that is not a name. -/
def HasStrangeBase (d : Document) (kind : String) : Prop :=
  ∃ fields, d = .object fields ∧ ∃ profile, Table.find? "profile" fields = some profile ∧
    MachineProfile.StrangeBase profile kind

theorem typesAndAggregates_escapes (fields : Table Document)
    (profile : Option (MachineProfile Quantity)) :
    EscapesWhen (do
      let d ← match (Table.find? "types" fields).getD (.list []) with
        | .list entries => readTypes entries { profile }
        | _ => throw (.malformed .typesNotList)
      match Table.find? "aggregates" fields with
      | some (.list entries) =>
        return { d with aggregates := acceptedOf entries, rejected := rejectedOf entries }
      | _ => throw (.malformed .aggregatesNotList)) fun e =>
        e = .unboundedSize ∧ FirstUnbounded fields := by
  have last (d : Description) : EscapesWhen (match Table.find? "aggregates" fields with
      | some (.list entries) =>
        return { d with aggregates := acceptedOf entries, rejected := rejectedOf entries }
      | _ => throw (.malformed .aggregatesNotList)) fun _ => False := by
    split
    · exact EscapesWhen.ok _
    · exact EscapesWhen.malformed _
  have read (entries : List Document) :=
    (readTypes_escapes entries { profile }).bind fun d _ => last d
  unfold FirstUnbounded
  cases htypes : Table.find? "types" fields with
  | none => exact (read []).congr (by simp)
  | some types =>
    cases types with
    | list entries => exact (read entries).congr (by simp)
    | _ => exact (EscapesWhen.malformed _).congr (by simp)

theorem ofDocument_escapes (d : Document) :
    EscapesWhen (ofDocument d) fun e =>
      (∃ kind, e = .baseKind kind ∧ HasStrangeBase d kind) ∨
        e = .unboundedSize ∧ HasUnboundedType d := by
  unfold ofDocument HasStrangeBase HasUnboundedType
  split
  · next fields =>
    cases hprofile : Table.find? "profile" fields with
    | none =>
      refine EscapesWhen.congr (typesAndAggregates_escapes fields none) fun e => ?_
      simp [hprofile]
    | some profile =>
      refine EscapesWhen.congr (((MachineProfile.ofDocument_escapes profile).map some).bind
        fun p _ => typesAndAggregates_escapes fields p) fun e => ?_
      have read : (∃ p, (MachineProfile.ofDocument profile).map some = .ok p) ↔
          ∃ p, MachineProfile.ofDocument profile = .ok p := by
        cases MachineProfile.ofDocument profile <;> simp [Except.map]
      rw [read]
      simp only [Document.object.injEq, exists_eq_left', forall_eq', hprofile, Option.some.injEq]
      exact or_congr_right and_left_comm
  · next hobject =>
    refine (EscapesWhen.malformed _).congr fun e => iff_of_false id ?_
    rintro (⟨_, _, fields, h, _⟩ | ⟨_, fields, h, _⟩)
    · exact hobject fields h
    · exact hobject fields h

end Description

theorem description_fails_malformed (d : Document) :
    (∀ kind, Description.ofDocument d = .error (.baseKind kind) ↔
      Description.HasStrangeBase d kind) ∧
    (Description.ofDocument d = .error .unboundedSize ↔ Description.HasUnboundedType d) ∧
    (((∃ description, Description.ofDocument d = .ok description) ∨
        ∃ fault, Description.ofDocument d = .error (.malformed fault)) ↔
      (∀ kind, ¬ Description.HasStrangeBase d kind) ∧ ¬ Description.HasUnboundedType d) := by
  have base (kind : String) : Description.ofDocument d = .error (.baseKind kind) ↔
      Description.HasStrangeBase d kind := by
    rw [Description.ofDocument_escapes d (.baseKind kind) nofun]
    simp
  have size : Description.ofDocument d = .error .unboundedSize ↔
      Description.HasUnboundedType d := by
    rw [Description.ofDocument_escapes d .unboundedSize nofun]
    simp
  refine ⟨base, size, ?_⟩
  simp only [← base, ← size]
  cases Description.ofDocument d with
  | ok description => simp
  | error e => cases e <;> simp

theorem description_fails_numberedBase :
    Description.ofDocument (.object [("profile", .object [("base", .integer 5)]),
      ("aggregates", .list [])]) = .error (.baseKind "int") := rfl

end AggregateLayout
