import Mathlib
import AggregateLayout.Progress.Scope

/-!
What leaving a scope comes to. As long as nothing resets the progress while a scope is open, its
operation is the innermost one when it is left, and what went wrong inside is passed on as it is.
A reset takes away the operations of all scopes that are open, so that each of them fails when it is
left, with an error of its own in the place of the one from inside.
-/

namespace AggregateLayout.Progress

/-- Programs in which an error goes through all scopes up to where it is caught. -/
inductive Program where
  | nothing
  | say (line : LogLine)
  | record (name : String) (ok : Bool)
  | reset
  | fail (fault : ScopeFault)
  | scope (name : String) (body : Program)
  | andThen (first second : Program)
  | attempt (body handler : Program)

namespace Program

def run : Program → Run → Run × Option ScopeFault
  | nothing, r => (r, none)
  | say line, r => (r.say line, none)
  | record name ok, r =>
    let (progress, line) := r.progress.record name ok
    ({ r with progress }.say line, none)
  | reset, r => ({ r with progress := {} }, none)
  | fail fault, r => (r, some fault)
  | scope name body, r =>
    let (r, fault) := body.run (r.enter name)
    r.exit name fault
  | andThen first second, r =>
    match first.run r with
    | (r, none) => second.run r
    | (r, some fault) => (r, some fault)
  | attempt body handler, r =>
    match body.run r with
    | (r, none) => (r, none)
    | (r, some _) => handler.run r

/-- The progress is reset on the way, at whatever depth. -/
inductive Resets : Program → Run → Prop
  | reset (r : Run) : Resets .reset r
  | scope {name : String} {body : Program} {r : Run} (h : Resets body (r.enter name)) :
    Resets (.scope name body) r
  | first {first second : Program} {r : Run} (h : Resets first r) : Resets (first.andThen second) r
  | second {first second : Program} {r r' : Run} (hfirst : first.run r = (r', none))
    (h : Resets second r') : Resets (first.andThen second) r
  | body {body handler : Program} {r : Run} (h : Resets body r) : Resets (body.attempt handler) r
  | handler {body handler : Program} {r r' : Run} {fault : ScopeFault}
    (hbody : body.run r = (r', some fault)) (h : Resets handler r') :
    Resets (body.attempt handler) r

def Keeps (p : Program) (r : Run) : Prop :=
  (¬ p.Resets r → (p.run r).1.progress.operations = r.progress.operations) ∧
    (p.Resets r → (p.run r).1.progress.operations = [])

end Program

namespace Run

variable {name : String} {fault : Option ScopeFault} {r : Run} {before : List String}

theorem operations_enter (name : String) (r : Run) :
    (r.enter name).progress.operations = r.progress.operations ++ [name] := rfl

theorem exit_of_open (h : r.progress.operations = before ++ [name]) :
    (r.exit name fault).2 = fault ∧ (r.exit name fault).1.progress.operations = before := by
  have hleave : ∀ line, (r.say line).progress.leave? =
      some { r.progress with operations := before } := by
    intro line
    change r.progress.leave? = _
    unfold leave?
    rw [h, List.dropLast_concat, if_neg (by simp)]
  unfold exit
  cases fault <;> dsimp only <;> rw [hleave] <;> exact ⟨rfl, rfl⟩

theorem exit_of_none (h : r.progress.operations = []) :
    (r.exit name fault).2 = some .notUnderWay ∧
      (r.exit name fault).1.progress.operations = [] := by
  have hleave : ∀ line, (r.say line).progress.leave? = none := by
    intro line
    change r.progress.leave? = _
    unfold leave?
    rw [h]
    rfl
  unfold exit
  cases fault <;> dsimp only <;> rw [hleave] <;> exact ⟨rfl, h⟩

end Run

namespace Program

variable {name : String} {p q whole body : Program} {r : Run}

theorem keeps_next (hp : p.Keeps r) (hq : q.Keeps (p.run r).1)
    (hrun : (whole.run r).1 = (q.run (p.run r).1).1)
    (hresets : whole.Resets r ↔ p.Resets r ∨ q.Resets (p.run r).1) : whole.Keeps r := by
  unfold Keeps
  rw [hrun, hresets]
  constructor
  · intro hkeep
    obtain ⟨hfirst, hlater⟩ := not_or.mp hkeep
    exact (hq.1 hlater).trans (hp.1 hfirst)
  · intro hreset
    -- What is cleared by the first part stays so, reset again or not.
    by_cases hlater : q.Resets (p.run r).1
    · exact hq.2 hlater
    · exact (hq.1 hlater).trans (hp.2 (hreset.resolve_right hlater))

theorem keeps_congr (hp : p.Keeps r) (hrun : (whole.run r).1 = (p.run r).1)
    (hresets : whole.Resets r ↔ p.Resets r) : whole.Keeps r := by
  unfold Keeps
  rw [hrun, hresets]
  exact hp

theorem keeps_scope (h : body.Keeps (r.enter name)) : (scope name body).Keeps r := by
  constructor
  · intro hkeep
    have hbody := h.1 fun hreset => hkeep (.scope hreset)
    exact (Run.exit_of_open (hbody.trans (r.operations_enter name))).2
  · intro hreset
    cases hreset with
    | scope hreset => exact (Run.exit_of_none (h.2 hreset)).2

theorem keeps_andThen (hp : p.Keeps r) (hq : ∀ r, q.Keeps r) : (p.andThen q).Keeps r := by
  cases hrun : p.run r with | mk r' fault =>
  cases fault with
  | none =>
    refine keeps_next hp (hq _) (by rw [run, hrun]) ⟨fun hreset => ?_, ?_⟩
    · cases hreset with
      | first hreset => exact .inl hreset
      | second hfirst hreset =>
        rw [hfirst]
        exact .inr hreset
    · rintro (hreset | hreset)
      · exact .first hreset
      · rw [hrun] at hreset
        exact .second hrun hreset
  | some fault =>
    refine keeps_congr hp (by rw [run, hrun]) ⟨fun hreset => ?_, .first⟩
    cases hreset with
    | first hreset => exact hreset
    | second hfirst => cases hrun.symm.trans hfirst

theorem keeps_attempt (hp : p.Keeps r) (hq : ∀ r, q.Keeps r) : (p.attempt q).Keeps r := by
  cases hrun : p.run r with | mk r' fault =>
  cases fault with
  | none =>
    refine keeps_congr hp (by rw [run, hrun]) ⟨fun hreset => ?_, .body⟩
    cases hreset with
    | body hreset => exact hreset
    | handler hbody => cases hrun.symm.trans hbody
  | some fault =>
    refine keeps_next hp (hq _) (by rw [run, hrun]) ⟨fun hreset => ?_, ?_⟩
    · cases hreset with
      | body hreset => exact .inl hreset
      | handler hbody hreset =>
        rw [hbody]
        exact .inr hreset
    · rintro (hreset | hreset)
      · exact .body hreset
      · rw [hrun] at hreset
        exact .handler hrun hreset

theorem keeps (p : Program) (r : Run) : p.Keeps r := by
  induction p generalizing r with
  | nothing => exact ⟨fun _ => rfl, fun h => nomatch h⟩
  | say => exact ⟨fun _ => rfl, fun h => nomatch h⟩
  | record => exact ⟨fun _ => rfl, fun h => nomatch h⟩
  | reset => exact ⟨fun h => absurd (.reset r) h, fun _ => rfl⟩
  | fail => exact ⟨fun _ => rfl, fun h => nomatch h⟩
  | scope _ _ hbody => exact keeps_scope (hbody _)
  | andThen _ _ hfirst hsecond => exact keeps_andThen (hfirst r) hsecond
  | attempt _ _ hbody hhandler => exact keeps_attempt (hbody r) hhandler

end Program

section Steps

mutual

def Step.program : Step → Program
  | .record name ok => .record name ok
  | .summary => .nothing
  | .reset => .reset
  | .idle => .nothing
  | .fail message => .fail (.failed message)
  | .track name steps => (Program.scope name (programOf steps)).attempt .nothing
termination_by structural step => step

def programOf : List Step → Program
  | [] => .nothing
  | step :: rest => step.program.andThen (programOf rest)
termination_by structural steps => steps

end

/-- Two runs that have come to the same progress and the same error. -/
structure Alike (x y : Run × Option ScopeFault) : Prop where
  progress : x.1.progress = y.1.progress
  fault : x.2 = y.2

variable {r r' : Run} {name : String}

theorem Alike.exit {x y : Run × Option ScopeFault} (h : Alike x y) (name : String) :
    Alike (x.1.exit name x.2) (y.1.exit name y.2) := by
  obtain ⟨⟨progress, _, _⟩, fault⟩ := x
  obtain ⟨⟨_, _, _⟩, _⟩ := y
  obtain ⟨rfl, rfl⟩ := h
  unfold Run.exit
  cases fault <;> dsimp only [Run.say] <;> cases progress.leave? <;> exact ⟨rfl, rfl⟩

theorem alike_enter (h : r.progress = r'.progress) (name : String) :
    (r.enter name).progress = (r'.enter name).progress := by
  unfold Run.enter
  rw [h]

theorem alike_caught {x : Run × Option ScopeFault} {p : Program} (h : Alike x (p.run r))
    (step : Step) : Alike (x.1.answer step x.2, none) ((p.attempt .nothing).run r) := by
  rw [Program.run]
  generalize p.run r = y at h ⊢
  obtain ⟨y, _ | _⟩ := y <;> exact ⟨h.progress, rfl⟩

mutual

theorem alike_step : (step : Step) → (r r' : Run) → r.progress = r'.progress →
    Alike (step.run r) (step.program.run r')
  | .record name ok, _, _, h => ⟨congrArg (fun p => (p.record name ok).1) h, rfl⟩
  | .summary, _, _, h => ⟨h, rfl⟩
  | .reset, _, _, _ => ⟨rfl, rfl⟩
  | .idle, _, _, h => ⟨h, rfl⟩
  | .fail _, _, _, h => ⟨h, rfl⟩
  | .track name steps, _, _, h =>
    alike_caught ((alike_steps steps _ _ (alike_enter h name)).exit name) _

theorem alike_steps : (steps : List Step) → (r r' : Run) → r.progress = r'.progress →
    Alike (runAll steps r) ((programOf steps).run r')
  | [], _, _, h => ⟨h, rfl⟩
  | step :: rest, r, r', h => by
    obtain ⟨hprogress, hfault⟩ := alike_step step r r' h
    unfold runAll programOf Program.run
    generalize step.run r = x at hprogress hfault ⊢
    generalize step.program.run r' = y at hprogress hfault ⊢
    obtain ⟨x, fault⟩ := x
    obtain ⟨y, _⟩ := y
    obtain rfl := hfault
    cases fault with
    | none => exact alike_steps rest x y hprogress
    | some fault => exact ⟨hprogress, rfl⟩

end

end Steps

/-- A scope passes on what went wrong in it, or nothing, and leaves the operations as they were,
unless the progress is reset while it is open. Then it fails with an error of its own, whatever
happened inside. The answer to a step shows what its scope comes to. -/
theorem scope_passes_on (name : String) (body : Program) (r : Run) :
    (¬ body.Resets (r.enter name) →
      ((Program.scope name body).run r).2 = (body.run (r.enter name)).2 ∧
      ((Program.scope name body).run r).1.progress.operations = r.progress.operations) ∧
    (body.Resets (r.enter name) →
      ((Program.scope name body).run r).2 = some .notUnderWay ∧
      ((Program.scope name body).run r).1.progress.operations = []) ∧
    ∀ steps, ∃ left : Run, (Step.track name steps).run r =
      (left.answer (.track name steps) ((Program.scope name (programOf steps)).run r).2, none) := by
  obtain ⟨kept, cleared⟩ := body.keeps (r.enter name)
  refine ⟨fun hkeep => ?_, fun hreset => ?_, fun steps => ?_⟩
  · exact Run.exit_of_open ((kept hkeep).trans (r.operations_enter name))
  · exact Run.exit_of_none (cleared hreset)
  · have hfault := ((alike_steps steps (r.enter name) (r.enter name) rfl).exit name).fault
    exact ⟨_, congrArg (fun fault => (Run.answer _ fault _, none)) hfault⟩

theorem scope_fails_reset :
    (runAll [.reset] (({} : Run).enter "batch")).2 = none ∧
      ((Step.track "batch" [.reset]).run {}).1.answers.map (·.fault) =
        [none, some .notUnderWay] := by
  decide

end AggregateLayout.Progress
