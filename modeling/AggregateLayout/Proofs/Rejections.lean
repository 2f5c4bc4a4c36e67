import Mathlib
import AggregateLayout.Proofs.Layouting
import AggregateLayout.Description.Reader

namespace AggregateLayout

namespace Description

variable {entry : Document} {entries others : List Document} {index : Nat}
  {aggregates : List (Aggregate Quantity)} {rejected : List (String × DescriptionFault)}

inductive Labelled (index : Nat) (entry : Document) : String → Prop
  | named {name : String} (h : entry.field? "name" = some (.text name)) (hname : name ≠ "") :
    Labelled index entry name
  | numbered (h : ∀ name, entry.field? "name" = some (.text name) → name = "") :
    Labelled index entry s!"#{index}"

/-- The entries from a place on become aggregates or are rejected, one after the other. -/
inductive SharedOut : Nat → List Document → List (Aggregate Quantity) →
    List (String × DescriptionFault) → Prop
  | nil {index : Nat} : SharedOut index [] [] []
  | accepted {index : Nat} {entry : Document} {rest : List Document} {a : Aggregate Quantity}
    {aggregates : List (Aggregate Quantity)} {rejected : List (String × DescriptionFault)}
    (h : readAggregate none entry = .ok a)
    (hrest : SharedOut (index + 1) rest aggregates rejected) :
    SharedOut index (entry :: rest) (a :: aggregates) rejected
  | rejected {index : Nat} {entry : Document} {rest : List Document} {fault : DescriptionFault}
    {label : String} {aggregates : List (Aggregate Quantity)}
    {rejected : List (String × DescriptionFault)} (h : readAggregate none entry = .error fault)
    (hlabel : Labelled index entry label)
    (hrest : SharedOut (index + 1) rest aggregates rejected) :
    SharedOut index (entry :: rest) aggregates ((label, fault) :: rejected)

theorem SharedOut.length (h : SharedOut index entries aggregates rejected) :
    aggregates.length + rejected.length = entries.length := by
  induction h with
  | nil => rfl
  | accepted _ _ ih =>
    simp only [List.length_cons]
    omega
  | rejected _ _ _ ih =>
    simp only [List.length_cons]
    omega

def rejectedFrom (index : Nat) (entries : List Document) : List (String × DescriptionFault) :=
  (entries.zipIdx index).filterMap fun (entry, index) =>
    match readAggregate none entry with
    | .ok _ => none
    | .error fault => some (label index entry, fault)

theorem labelled_label (index : Nat) (entry : Document) :
    Labelled index entry (label index entry) := by
  unfold label
  split
  · next name hname =>
    split
    · next hempty =>
      refine .numbered fun other hother => ?_
      obtain rfl : name = other := by simpa using hname.symm.trans hother
      simpa using hempty
    · next hempty => exact .named hname (by simpa using hempty)
  · next hnone => exact .numbered fun name hname => absurd hname (hnone name)

theorem sharedOut (index : Nat) (entries : List Document) :
    SharedOut index entries (acceptedOf entries) (rejectedFrom index entries) := by
  induction entries generalizing index with
  | nil => exact .nil
  | cons entry rest ih =>
    have tail := ih (index + 1)
    cases hread : readAggregate none entry with
    | ok a =>
      have hhere : acceptedOf (entry :: rest) = a :: acceptedOf rest := by
        simp [acceptedOf, hread, Except.toOption]
      have hthere : rejectedFrom index (entry :: rest) = rejectedFrom (index + 1) rest := by
        simp [rejectedFrom, hread]
      rw [hhere, hthere]
      exact .accepted hread tail
    | error fault =>
      have hhere : acceptedOf (entry :: rest) = acceptedOf rest := by
        simp [acceptedOf, hread, Except.toOption]
      have hthere : rejectedFrom index (entry :: rest) =
          (label index entry, fault) :: rejectedFrom (index + 1) rest := by
        simp [rejectedFrom, hread]
      rw [hhere, hthere]
      exact .rejected hread (labelled_label index entry) tail

theorem acceptedOf_append : acceptedOf (entries ++ others) =
    acceptedOf entries ++ acceptedOf others := List.filterMap_append

theorem rejectedFrom_append : rejectedFrom index (entries ++ others) =
    rejectedFrom index entries ++ rejectedFrom (index + entries.length) others := by
  unfold rejectedFrom
  rw [List.zipIdx_append, List.filterMap_append, Nat.add_comm]

theorem exists_readTypes (h : ∀ entry ∈ entries, ∃ x, readType entry = .ok x) (d : Description) :
    ∃ d', readTypes entries d = .ok d' := by
  unfold readTypes
  induction entries generalizing d with
  | nil => exact ⟨d, rfl⟩
  | cons entry rest ih =>
    obtain ⟨⟨x, hx⟩, hrest⟩ := List.forall_mem_cons.mp h
    rw [List.foldlM_cons, hx]
    cases x <;> exact ih hrest _

/-- What stands in a document beside its aggregates is in order. -/
structure Legible (fields : Table Document) : Prop where
  profile : ∀ d, Table.find? "profile" fields = some d → ∃ p, MachineProfile.ofDocument d = .ok p
  types : ∃ entries, (Table.find? "types" fields).getD (.list []) = .list entries ∧
    ∀ entry ∈ entries, ∃ x, readType entry = .ok x

def withEntries (fields : Table Document) (entries : List Document) : Table Document :=
  fields.insert "aggregates" (.list entries)

theorem Legible.exists_description {fields : Table Document} (h : Legible fields) :
    ∃ d : Description, ∀ fields' : Table Document,
      Table.find? "profile" fields' = Table.find? "profile" fields →
      Table.find? "types" fields' = Table.find? "types" fields →
      ∀ entries, Table.find? "aggregates" fields' = some (.list entries) →
        ofDocument (.object fields') = .ok
          { d with aggregates := acceptedOf entries, rejected := rejectedFrom 0 entries } := by
  obtain ⟨types, htypes, hread⟩ := h.types
  cases hprofile : Table.find? "profile" fields with
  | none =>
    obtain ⟨d, hd⟩ := exists_readTypes hread {}
    refine ⟨d, fun fields' hsame htypes' entries hentries => ?_⟩
    unfold ofDocument
    dsimp only
    rw [hsame, htypes', htypes, hentries]
    change (readTypes types {} >>= _) = _
    rw [hd]
    rfl
  | some profile =>
    obtain ⟨p, hp⟩ := h.profile profile hprofile
    obtain ⟨d, hd⟩ := exists_readTypes hread { profile := some p }
    refine ⟨d, fun fields' hsame htypes' entries hentries => ?_⟩
    unfold ofDocument
    dsimp only
    rw [hsame, htypes', htypes, hentries]
    dsimp only
    rw [hp]
    change (readTypes types { profile := some p } >>= _) = _
    rw [hd]
    rfl

end Description

theorem description_isolates (fields : Table Document) (entries : List Document)
    (hlegible : Description.Legible fields)
    (hentries : Table.find? "aggregates" fields = some (.list entries)) :
    ∃ d, Description.ofDocument (.object fields) = .ok d ∧
      Description.SharedOut 0 entries d.aggregates d.rejected ∧
      d.aggregates.length + d.rejected.length = entries.length ∧
      ∀ earlier entry later, entries = earlier ++ entry :: later →
        ∃ before after first last,
          (∃ here there, Description.SharedOut earlier.length [entry] here there ∧
            d.aggregates = before ++ here ++ after ∧ d.rejected = first ++ there ++ last) ∧
          ∀ other, ∃ here there, Description.SharedOut earlier.length [other] here there ∧
            Description.ofDocument
                (.object (Description.withEntries fields (earlier ++ other :: later))) = .ok
              { d with
                aggregates := before ++ here ++ after
                rejected := first ++ there ++ last } := by
  obtain ⟨d, hd⟩ := hlegible.exists_description
  have shared := Description.sharedOut 0 entries
  have split (earlier : List Document) (entry : Document) (later : List Document) :
      Description.acceptedOf (earlier ++ entry :: later) =
          Description.acceptedOf earlier ++ Description.acceptedOf [entry] ++
            Description.acceptedOf later ∧
        Description.rejectedFrom 0 (earlier ++ entry :: later) =
          Description.rejectedFrom 0 earlier ++ Description.rejectedFrom earlier.length [entry] ++
            Description.rejectedFrom (earlier.length + 1) later := by
    rw [List.append_cons, Description.acceptedOf_append, Description.acceptedOf_append,
      Description.rejectedFrom_append, Description.rejectedFrom_append, List.length_append,
      Nat.zero_add, Nat.zero_add]
    exact ⟨rfl, rfl⟩
  refine ⟨_, hd fields rfl rfl entries hentries, shared, shared.length, ?_⟩
  rintro earlier entry later rfl
  refine ⟨Description.acceptedOf earlier, Description.acceptedOf later,
    Description.rejectedFrom 0 earlier, Description.rejectedFrom (earlier.length + 1) later,
    ⟨_, _, Description.sharedOut _ _, split earlier entry later⟩, fun other => ?_⟩
  refine ⟨_, _, Description.sharedOut _ _, ?_⟩
  obtain ⟨haccepted, hrejected⟩ := split earlier other later
  rw [← haccepted, ← hrejected]
  apply hd
  · exact Table.find?_insert fields "aggregates" "profile" _
  · exact Table.find?_insert fields "aggregates" "types" _
  · exact Table.find?_insert fields "aggregates" "aggregates" _

def mixedEntries : List Document :=
  [.object [("name", .text "pair"), ("members", .list
      [.object [("name", .text "id"), ("type", .text "pid_t")],
        .object [("name", .text "body"), ("type", .object [("kind", .text "union")])]])],
    .integer 5, .object [("name", .text "odd"), ("kind", .text "class")]]

def mixedFields : Table Document :=
  [("types", .list [.object [("name", .text "pid_t"), ("alias", .text "int")]]),
    ("aggregates", .list mixedEntries)]

theorem mixedFields_legible : Description.Legible mixedFields where
  profile := nofun
  types := by
    refine ⟨_, rfl, fun entry hentry => ?_⟩
    obtain rfl := List.mem_singleton.mp hentry
    exact ⟨_, rfl⟩

theorem description_isolates_mixedEntries :
    ∃ d, Description.ofDocument (.object mixedFields) = .ok d ∧
      d.aggregates.map (·.name) = ["pair"] ∧ d.rejected.map (·.1) = ["#1", "odd"] ∧
      d.aggregates.length + d.rejected.length = mixedEntries.length := by
  obtain ⟨d, hd, _, hlength, _⟩ :=
    description_isolates mixedFields mixedEntries mixedFields_legible rfl
  refine ⟨d, hd, ?_, ?_, hlength⟩ <;> obtain rfl := Except.ok.inj hd <;> rfl

end AggregateLayout
