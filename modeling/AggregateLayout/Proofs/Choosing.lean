import Mathlib
import AggregateLayout.Proofs.Isolation
import AggregateLayout.Proofs.Rejections
import AggregateLayout.Proofs.Steps

namespace AggregateLayout

namespace Description

variable {fields : Table Document} {entries : List Document} {d : Description} {names : List String}

theorem SharedOut.rejected_eq_nil_iff {index : Nat} {aggregates : List (Aggregate Quantity)}
    {rejected : List (String × DescriptionFault)}
    (h : SharedOut index entries aggregates rejected) :
    rejected = [] ↔ ∀ entry ∈ entries, ∃ a, readAggregate none entry = .ok a := by
  induction h with
  | nil => simp
  | accepted h _ ih => rw [ih, List.forall_mem_cons, and_iff_right ⟨_, h⟩]
  | rejected h _ _ _ => simp [h]

theorem sharedOut_of_ofDocument (h : ofDocument (.object fields) = .ok d)
    (hentries : Table.find? "aggregates" fields = some (.list entries)) :
    SharedOut 0 entries d.aggregates d.rejected := by
  unfold ofDocument at h
  dsimp only at h
  split at h <;> obtain ⟨profile, -, h⟩ := except_bind_eq_ok.mp h
  all_goals
    split at h
    · obtain ⟨before, -, h⟩ := except_bind_eq_ok.mp h
      rw [hentries] at h
      obtain rfl := Except.ok.inj h
      exact sharedOut 0 entries
    · cases h

theorem aggregates_select :
    (d.select names).aggregates = d.aggregates.filter fun a => names.contains a.name := by
  simp only [select, List.partition_eq_filter_filter]

end Description

theorem Outcome.ok_ofRejected {d : Description} :
    (∀ o ∈ Outcome.ofRejected d, o.ok = true) ↔ d.rejected = [] := by
  unfold ofRejected
  cases d.rejected <;> simp [ok, error?]

theorem Outcomes.failed_eq_zero {outcomes : Outcomes} :
    outcomes.failed = 0 ↔ ∀ o ∈ outcomes, o.ok = true := by
  simp [failed, List.countP_eq_zero]

namespace Run

variable {time : String} {t : FileTree} {env : Environment} {s : Settings} {c : CommandLine}
  {tuning : Tuning} {session σ : Session} {input : Path} {d : Description}
  {profile : MachineProfile Quantity} {outcomes : Outcomes} {opener : ObjectFile.Opener}

def ended : Except Ending Unit → Ending
  | .ok () => .exit 0
  | .error e => e

def resultOf (r : Except Ending Unit × Session) : RunResult where
  ending := ended r.1
  session := r.2

theorem withSettings_eq (h : openLog t s c time = .ok session) :
    withSettings opener time t env s c = resultOf
      (perform (body opener s (.ofEnvironment env) c (s.input.getD { names := [] })) session) := by
  unfold withSettings
  rw [h]
  simp only
  change (match perform _ session with
    | (.ok (), session) => _
    | (.error ending, session) => _) = _
  rcases perform (body opener s (.ofEnvironment env) c (s.input.getD { names := [] })) session with
    ⟨_ | ⟨⟩, _⟩
  · rfl
  · rfl

theorem perform_loadInput {i : Input} {names : Option (List String)} {log : List LogLine}
    (hload : Input.load opener σ.tree input names = (.ok i, log))
    (hprofile : profileFor s tuning.defaultProfile i = .ok profile) :
    ∃ log, perform (loadInput opener s tuning input names) σ =
      (.ok (i.description, profile), { σ with log }) := by
  unfold loadInput
  rw [perform_bind, perform_get]
  simp only [hload, perform_bind, perform_say, hprofile, perform_pure]
  exact ⟨_, rfl⟩

theorem perform_process (s : Settings) (tuning : Tuning) (d : Description)
    (profile : MachineProfile Quantity) (σ : Session) :
    ∃ log, perform (process s tuning d profile) σ =
      ((match (Batch.process (d.catalog profile) (batchOptions s tuning) d.aggregates).1 with
        | .ok outcomes => .ok (outcomes ++ Outcome.ofRejected d)
        | .error fault => .error (.broken (.number fault))), { σ with log }) := by
  unfold process
  rcases Batch.process (d.catalog profile) (batchOptions s tuning) d.aggregates with
    ⟨fault | outcomes, log⟩
  · exact ⟨_, rfl⟩
  · exact ⟨_, rfl⟩

theorem ended_conclude {recorded : Table DebugInfo.AttributeValue} :
    ended (perform (conclude s c recorded outcomes) σ).1 = .exit 0 ↔
      CanReport s c σ.tree outcomes ∧ ∀ o ∈ outcomes, o.ok = true := by
  unfold conclude
  rw [perform_bind, perform_say]
  simp only
  rw [perform_bind, ← Outcomes.failed_eq_zero]
  generalize hσ : ({ σ with log := _ } : Session) = σ₀
  have htree : σ.tree = σ₀.tree := by rw [← hσ]
  rw [htree, ← exists_perform_writeReports_iff]
  rcases hwrite : perform (writeReports s c outcomes) σ₀ with ⟨e | ⟨⟩, σ₁⟩
  · obtain ⟨cause, rfl⟩ := onlyBreaks_writeReports s c outcomes σ₀ e σ₁ hwrite
    simp [ended]
  · simp only [perform_bind, perform_say, perform_exit, ended]
    split
    · next h => simp_all
    · next h => simp_all

/-- A run that has its settings, its log and a description, which a document with entries gives. -/
structure Loads (time : String) (t : FileTree) (env : Environment) (arguments : List String)
    (c : CommandLine) (s : Settings) (tuning : Tuning) (session : Session)
    (entries : List Document) (d : Description) : Prop where
  read : CommandLine.read arguments = .ok c
  configured : ∃ env', configure t env c = .ok (s, env') ∧ tuning = .ofEnvironment env'
  opened : openLog t s c time = .ok session
  loaded : ∃ input bytes fields, s.input = some input ∧ session.tree.read input = .ok bytes ∧
    ObjectFile.hasMagic bytes = false ∧
    Description.readDocument input bytes = .ok (.object fields) ∧
    Table.find? "aggregates" fields = some (.list entries) ∧
    Description.ofDocument (.object fields) = .ok d

section

variable {arguments : List String} {entries : List Document} {names : List String}

theorem Loads.sharedOut (h : Loads time t env arguments c s tuning session entries d) :
    Description.SharedOut 0 entries d.aggregates d.rejected := by
  obtain ⟨_, _, _, _, _, _, _, hentries, hdescription⟩ := h.loaded
  exact Description.sharedOut_of_ofDocument hdescription hentries

theorem Loads.load (h : Loads time t env arguments c s tuning session entries d)
    (names : List String) :
    ∃ input log, s.input = some input ∧ Input.load opener session.tree input (some names) =
      (.ok { description := d.select names, profile := d.profile }, log) := by
  obtain ⟨input, bytes, fields, hinput, hbytes, hmagic, hdocument, -, hdescription⟩ := h.loaded
  have hload : (Input.load opener session.tree input (some names)).1 =
      .ok { description := d.select names, profile := d.profile } := by
    unfold Input.load Input.ofDescription Description.ofBytes
    simp only [hbytes, hmagic, hdocument, hdescription, Bool.false_eq_true, if_false]
  exact ⟨input, _, hinput, Prod.ext hload rfl⟩

theorem Loads.run_eq (h : Loads time t env arguments c s tuning session entries d)
    (hnames : c.names? = some names)
    (hprofile : profileFor s tuning.defaultProfile ⟨d.select names, d.profile⟩ = .ok profile)
    (hchosen : ∃ a ∈ d.aggregates, a.name ∈ names) :
    ∃ log, run opener time t env arguments = resultOf
      (match (Batch.process ((d.select names).catalog profile) (batchOptions s tuning)
          (d.select names).aggregates).1 with
        | .ok outcomes => perform (conclude s c d.reportedSizes
            (outcomes ++ Outcome.ofRejected d)) { session with log }
        | .error fault => (.error (.broken (.number fault)), { session with log })) := by
  obtain ⟨env', hsettings, rfl⟩ := h.configured
  obtain ⟨input, log, hinput, hload⟩ := h.load names
  obtain ⟨log₁, hloaded⟩ := perform_loadInput hload hprofile
  have hsome : ((d.select names).aggregates.isEmpty && (d.select names).rejected.isEmpty) =
      false := by
    obtain ⟨a, ha, hname⟩ := hchosen
    have hmem : a ∈ (d.select names).aggregates := by
      rw [Description.aggregates_select, List.mem_filter]
      exact ⟨ha, List.contains_iff_mem.mpr hname⟩
    rw [List.isEmpty_eq_false_iff.mpr (List.ne_nil_of_mem hmem), Bool.false_and]
  unfold run
  simp only [h.read, hsettings]
  rw [withSettings_eq h.opened, hinput, Option.getD_some]
  unfold body
  rw [hnames, perform_bind, hloaded]
  simp only [hsome, Bool.false_eq_true, if_false]
  rw [perform_bind]
  obtain ⟨log₂, hprocess⟩ := perform_process s (.ofEnvironment env') (d.select names) profile
    { session with log := log₁ }
  rw [hprocess]
  refine ⟨log₂, ?_⟩
  cases (Batch.process ((d.select names).catalog profile) (batchOptions s (.ofEnvironment env'))
    (d.select names).aggregates).1 with
  | ok outcomes => rfl
  | error fault => rfl

end

theorem exists_eq_ok {ε α β : Type} {x : Except ε α} {f : α → β} {b : β}
    (h : x.toOption.map f = some b) : ∃ a, x = .ok a ∧ f a = b := by
  cases x with
  | error => cases h
  | ok a => exact ⟨a, rfl, Option.some.inj h⟩

def filesWith (text : String) : FileTree where
  nodes := [("in.json", .file (Text.Utf8.bytes text))]

def noObjectFiles : ObjectFile.Opener := fun _ => .error "no object file"

def onlyGood : List String := ["in.json", "--symbols", "good"]

def asked : CommandLine where
  requests := { input := some { names := ["in.json"] } }
  symbols := some "good"

def fromFile : Settings where
  input := some { names := ["in.json"] }

def good : Document := .object [("name", .text "good")]

def broken : Document :=
  .object [("name", .text "broken"), ("members", .list
    [.object [("name", .text "x"), ("type", .text "widget")]])]

def goodAndBroken : String :=
  "\x7b\"aggregates\":[\x7b\"name\":\"good\"\x7d," ++
    "\x7b\"name\":\"broken\",\"members\":[\x7b\"name\":\"x\",\"type\":\"widget\"\x7d]\x7d]\x7d"

def described : Description where
  aggregates := Description.acceptedOf [good, broken]

theorem loads_goodAndBroken :
    Loads "" (filesWith goodAndBroken) {} onlyGood asked fromFile (.ofEnvironment {})
      (.start (filesWith goodAndBroken) fromFile) [good, broken] described where
  read := rfl
  configured := ⟨{}, by with_unfolding_all rfl, rfl⟩
  opened := rfl
  loaded := by
    refine ⟨{ names := ["in.json"] }, Text.Utf8.bytes goodAndBroken,
      [("aggregates", .list [good, broken])], rfl, by decide +kernel, by decide, ?_, rfl,
      rfl⟩
    cbv

def goodAndBad : String :=
  "\x7b\"aggregates\":[\x7b\"name\":\"good\"\x7d,\x7b\"name\":\"bad\",\"kind\":\"class\"\x7d]\x7d"

end Run

end AggregateLayout
