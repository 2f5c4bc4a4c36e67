import Mathlib
import AggregateLayout.Proofs.FileWrites
import AggregateLayout.Run

namespace AggregateLayout.Run

variable {α β : Type} {σ σ' : Session} {s : Settings} {c : CommandLine} {directory : Path}
  {o : Outcome} {outcomes : Outcomes} {t : FileTree}

def perform (x : Step α) (σ : Session) : Except Ending α × Session := x.run σ

theorem perform_bind (x : Step α) (f : α → Step β) (σ : Session) :
    perform (x >>= f) σ = match perform x σ with
      | (.ok a, σ') => perform (f a) σ'
      | (.error e, σ') => (.error e, σ') := by
  change StateT.run (ExceptT.run (x >>= f)) σ = _
  rw [ExceptT.run_bind, StateT.run_bind, show StateT.run x.run σ = perform x σ from rfl]
  rcases perform x σ with ⟨_ | _, _⟩
  · rfl
  · rfl

theorem perform_bind_eq_ok {x : Step α} {f : α → Step β} {b : β} :
    perform (x >>= f) σ = (.ok b, σ') ↔
      ∃ a σ₁, perform x σ = (.ok a, σ₁) ∧ perform (f a) σ₁ = (.ok b, σ') := by
  rw [perform_bind]
  rcases perform x σ with ⟨_ | a, σ₁⟩ <;> simp

@[simp] theorem perform_pure (a : α) (σ : Session) : perform (pure a : Step α) σ = (.ok a, σ) := rfl

@[simp] theorem perform_get (σ : Session) : perform (get : Step Session) σ = (.ok σ, σ) := rfl

@[simp] theorem perform_say (lines : List LogLine) (σ : Session) :
    perform (say lines) σ = (.ok (), { σ with log := σ.log ++ lines }) := rfl

@[simp] theorem perform_print (text : String) (σ : Session) :
    perform (print text) σ = (.ok (), { σ with output := σ.output ++ text }) := rfl

@[simp] theorem perform_exit (code : Nat) (σ : Session) :
    perform (exit code : Step α) σ = (.error (.exit code), σ) := rfl

@[simp] theorem perform_breakOff (cause : Breakdown) (σ : Session) :
    perform (breakOff cause : Step α) σ = (.error (.broken cause), σ) := rfl

theorem perform_change (f : FileTree → FileTree × Option FileFault) (σ : Session) :
    perform (change f) σ = match f σ.tree with
      | (tree, none) => (.ok (), { σ with tree })
      | (tree, some fault) => (.error (.broken (.file fault)), { σ with tree }) := by
  unfold change
  rw [perform_bind, perform_get]
  simp only
  rw [perform_bind]
  rcases f σ.tree with ⟨tree, _ | fault⟩
  · rfl
  · rfl

theorem perform_change_eq_ok {f : FileTree → FileTree × Option FileFault} {a : Unit} :
    perform (change f) σ = (.ok a, σ') ↔
      (f σ.tree).2 = none ∧ σ' = { σ with tree := (f σ.tree).1 } := by
  rw [perform_change]
  rcases f σ.tree with ⟨tree, _ | fault⟩ <;> simp [eq_comm]

theorem perform_writeFile_eq_ok {p : Path} {text : String} :
    perform (writeFile p text) σ = (.ok (), σ') ↔
      Text.Utf8.fault? text = none ∧
        ∃ tree, σ.tree.write p (Text.Utf8.bytes text) = .ok tree ∧ σ' = { σ with tree } := by
  unfold writeFile
  cases hfault : Text.Utf8.fault? text with
  | none =>
    simp only [writeBytes, perform_change_eq_ok]
    cases hwrite : σ.tree.write p (Text.Utf8.bytes text) <;> simp
  | some fault =>
    simp [perform_bind_eq_ok]

def Storable (s : Settings) (directory : Path) (t : FileTree) (o : Outcome) : Prop :=
  ∀ r, o.report? = some r →
    Text.Utf8.fault? (reportText s r) = none ∧ t.Writable (reportFile s directory o)

theorem Storable.congr {t' : FileTree} (h : t.SameDirectories t') :
    Storable s directory t o ↔ Storable s directory t' o := by
  unfold Storable
  simp only [FileTree.Writable.congr h]

theorem perform_writeReport_cases (h : perform (writeReport s directory o) σ = (.ok (), σ')) :
    (o.report? = none ∧ σ' = σ) ∨
      ∃ r, o.report? = some r ∧ Text.Utf8.fault? (reportText s r) = none ∧
        σ.tree.write (reportFile s directory o) (Text.Utf8.bytes (reportText s r)) =
          .ok σ'.tree := by
  unfold writeReport at h
  cases hreport : o.report? with
  | none =>
    rw [hreport] at h
    exact .inl ⟨rfl, by simpa [eq_comm] using h⟩
  | some r =>
    rw [hreport] at h
    obtain ⟨⟨⟩, σ₁, hwrite, hsay⟩ := perform_bind_eq_ok.mp h
    obtain ⟨hfault, tree, htree, rfl⟩ := perform_writeFile_eq_ok.mp hwrite
    refine .inr ⟨r, rfl, hfault, ?_⟩
    obtain rfl : _ = σ' := by simpa using hsay
    exact htree

theorem exists_perform_writeReport_iff :
    (∃ σ', perform (writeReport s directory o) σ = (.ok (), σ')) ↔
      Storable s directory σ.tree o := by
  constructor
  · rintro ⟨σ', h⟩ r hreport
    rcases perform_writeReport_cases h with ⟨hnone, -⟩ | ⟨r', hreport', hfault, hwrite⟩
    · simp [hreport] at hnone
    · obtain rfl := Option.some.inj (hreport.symm.trans hreport')
      exact ⟨hfault, FileTree.writable_iff.mpr ⟨_, hwrite⟩⟩
  · intro h
    unfold writeReport
    cases hreport : o.report? with
    | none => exact ⟨σ, rfl⟩
    | some r =>
      obtain ⟨hfault, hwritable⟩ := h r hreport
      obtain ⟨tree, htree⟩ := FileTree.writable_iff.mp hwritable
      have hwrite := perform_writeFile_eq_ok.mpr ⟨hfault, tree, htree, rfl⟩
      exact ⟨_, perform_bind_eq_ok.mpr ⟨(), _, hwrite, perform_say _ _⟩⟩

theorem sameDirectories_writeReport
    (h : perform (writeReport s directory o) σ = (.ok (), σ')) :
    σ.tree.SameDirectories σ'.tree := by
  rcases perform_writeReport_cases h with ⟨-, rfl⟩ | ⟨r, -, -, hwrite⟩
  · exact fun _ => Iff.rfl
  · exact FileTree.sameDirectories_write hwrite

theorem exists_perform_forM_iff :
    (∃ σ', perform (outcomes.forM (writeReport s directory)) σ = (.ok (), σ')) ↔
      ∀ o ∈ outcomes, Storable s directory σ.tree o := by
  -- the first report leaves the directories alone, and the rest asks for nothing else of the tree
  induction outcomes generalizing σ with
  | nil => exact ⟨fun _ => by simp, fun _ => ⟨σ, rfl⟩⟩
  | cons o rest ih =>
    rw [List.forall_mem_cons, ← exists_perform_writeReport_iff]
    constructor
    · rintro ⟨σ', h⟩
      obtain ⟨⟨⟩, σ₁, hfirst, hrest⟩ := perform_bind_eq_ok.mp h
      refine ⟨⟨σ₁, hfirst⟩, fun o' ho' => ?_⟩
      rw [Storable.congr (sameDirectories_writeReport hfirst)]
      exact ih.mp ⟨σ', hrest⟩ o' ho'
    · rintro ⟨⟨σ₁, hfirst⟩, hrest⟩
      obtain ⟨σ', h⟩ := ih.mpr fun o' ho' =>
        (Storable.congr (sameDirectories_writeReport hfirst)).mp (hrest o' ho')
      exact ⟨σ', perform_bind_eq_ok.mpr ⟨(), σ₁, hfirst, h⟩⟩

/-- What it takes for all reports to be put out. The output directory is asked for with a value or
not at all, and if there is one it can be made and every report can be stored. -/
def CanReport (s : Settings) (c : CommandLine) (t : FileTree) (outcomes : Outcomes) : Prop :=
  c.blank.contains .output = false ∧ ∀ directory, s.outputDirectory = some directory →
    (s.makeOutputDirectory t).2 = none ∧
      ∀ o ∈ outcomes, Storable s directory (s.makeOutputDirectory t).1 o

theorem perform_writeReports_eq_ok (hdirectory : s.outputDirectory = some directory) :
    perform (writeReports s c outcomes) σ = (.ok (), σ') ↔
      c.blank.contains .output = false ∧ (s.makeOutputDirectory σ.tree).2 = none ∧
        perform (outcomes.forM (writeReport s directory))
          { σ with tree := (s.makeOutputDirectory σ.tree).1 } = (.ok (), σ') := by
  unfold writeReports
  rw [hdirectory]
  cases hblank : c.blank.contains .output with
  | true => simp [perform_bind_eq_ok]
  | false => simp [perform_bind_eq_ok, perform_change_eq_ok]

theorem exists_perform_writeReports_iff :
    (∃ σ', perform (writeReports s c outcomes) σ = (.ok (), σ')) ↔
      CanReport s c σ.tree outcomes := by
  cases hdirectory : s.outputDirectory with
  | none =>
    unfold writeReports CanReport
    rw [hdirectory]
    cases hblank : c.blank.contains .output with
    | true => simp [perform_bind_eq_ok]
    | false => simp
  | some directory =>
    simp only [perform_writeReports_eq_ok hdirectory, CanReport, hdirectory, Option.some.injEq,
      forall_eq', exists_and_left]
    rw [exists_perform_forM_iff]

def OnlyBreaks (x : Step α) : Prop :=
  ∀ σ e σ', perform x σ = (.error e, σ') → ∃ cause, e = .broken cause

namespace OnlyBreaks

theorem of_ok {x : Step α} (h : ∀ σ, ∃ a σ', perform x σ = (.ok a, σ')) : OnlyBreaks x := by
  intro σ e σ' he
  obtain ⟨a, σ₁, hok⟩ := h σ
  cases hok.symm.trans he

theorem breakOff (cause : Breakdown) : OnlyBreaks (breakOff cause : Step α) := by
  intro σ e σ' h
  rw [perform_breakOff] at h
  exact ⟨cause, (Except.error.inj (Prod.mk.inj h).1).symm⟩

theorem change (f : FileTree → FileTree × Option FileFault) : OnlyBreaks (change f) := by
  intro σ e σ' h
  rw [perform_change] at h
  split at h
  · cases h
  · exact ⟨_, (Except.error.inj (Prod.mk.inj h).1).symm⟩

theorem bind {x : Step α} {f : α → Step β} (hx : OnlyBreaks x) (hf : ∀ a, OnlyBreaks (f a)) :
    OnlyBreaks (x >>= f) := by
  intro σ e σ' h
  rw [perform_bind] at h
  rcases hperform : perform x σ with ⟨e' | a, σ₁⟩
  · rw [hperform] at h
    obtain ⟨rfl, rfl⟩ : e' = e ∧ σ₁ = σ' := by simpa using h
    exact hx σ e' σ₁ hperform
  · rw [hperform] at h
    exact hf a σ₁ e σ' h

theorem forM {f : α → Step Unit} (hf : ∀ a, OnlyBreaks (f a)) (as : List α) :
    OnlyBreaks (as.forM f) := by
  induction as with
  | nil => exact of_ok fun σ => ⟨(), σ, rfl⟩
  | cons a rest ih => exact (hf a).bind fun _ => ih

end OnlyBreaks

theorem onlyBreaks_writeFile (p : Path) (text : String) : OnlyBreaks (writeFile p text) := by
  unfold writeFile
  split
  · exact .change _
  · exact (OnlyBreaks.change _).bind fun _ => .breakOff _

theorem onlyBreaks_writeReport (s : Settings) (directory : Path) (o : Outcome) :
    OnlyBreaks (writeReport s directory o) := by
  unfold writeReport
  split
  · exact .of_ok fun σ => ⟨(), σ, rfl⟩
  · exact (onlyBreaks_writeFile _ _).bind fun _ => .of_ok fun _ => ⟨(), _, perform_say _ _⟩

theorem onlyBreaks_writeReports (s : Settings) (c : CommandLine) (outcomes : Outcomes) :
    OnlyBreaks (writeReports s c outcomes) := by
  unfold writeReports
  cases s.outputDirectory with
  | none =>
    have printed (text : String) : OnlyBreaks (print text) :=
      .of_ok fun _ => ⟨(), _, perform_print _ _⟩
    dsimp only
    split
    · exact (OnlyBreaks.breakOff _).bind fun _ => printed _
    · exact printed _
  | some directory =>
    have written : OnlyBreaks (do
        change fun t => s.makeOutputDirectory t
        outcomes.forM (writeReport s directory)) :=
      (OnlyBreaks.change _).bind fun _ => .forM (onlyBreaks_writeReport s directory) outcomes
    dsimp only
    split
    · exact (OnlyBreaks.breakOff _).bind fun _ => written
    · exact written

end AggregateLayout.Run
