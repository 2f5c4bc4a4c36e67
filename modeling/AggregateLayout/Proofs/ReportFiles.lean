import Mathlib
import AggregateLayout.Proofs.Steps

namespace AggregateLayout

namespace Text

theorem exists_codesOf_concat {c d : Char} (hc : c ≠ mark) (cs : List Char) :
    ∃ before, codesOf (cs ++ [c, d]) = before ++ [d.toNat] := by
  induction cs using codesOf.induct with
  | case1 => exact ⟨[c.toNat], by simp [codesOf, hc]⟩
  | case2 first =>
    by_cases hfirst : first = mark
    · exact ⟨[if c == mark then markCode else c.toNat - halfDistance], by simp [codesOf, hfirst]⟩
    · exact ⟨[first.toNat, c.toNat], by simp [codesOf, hfirst, hc]⟩
  | case3 first second rest hfirst ih =>
    obtain ⟨before, hbefore⟩ := ih
    rw [List.cons_append] at hbefore
    refine ⟨first.toNat :: before, ?_⟩
    rw [List.cons_append, List.cons_append, codesOf, if_pos hfirst, hbefore, List.cons_append]
  | case4 first second rest hfirst ih =>
    obtain ⟨before, hbefore⟩ := ih
    refine ⟨(if second == mark then markCode else second.toNat - halfDistance) :: before, ?_⟩
    rw [List.cons_append, List.cons_append, codesOf, if_neg hfirst, hbefore, List.cons_append]

end Text

namespace Path

theorem ofText_of_notMem {s : String} (hslash : '/' ∉ s.toList) (hempty : s.toList ≠ [])
    (hdot : s.toList ≠ ['.']) : ofText s = { names := [s] } := by
  have hroot : s.toList.takeWhile (· == '/') = [] := by
    rw [List.takeWhile_eq_nil_iff]
    intro hlength hfirst
    exact hslash ((beq_iff_eq.mp hfirst) ▸ List.getElem_mem hlength)
  simp only [ofText, hroot, List.splitOn_eq_singleton hslash]
  simp [hempty, hdot]

end Path

namespace Outcome

variable {o : Outcome} {s : Settings}

theorem ok_iff : o.ok = true ↔ ∃ r, o.report? = some r := by
  unfold ok error? report?
  cases o.result <;> simp [Except.toOption]

theorem mem_plainName {c : Char} {cs : List Char} (h : c ∈ plainName cs) : c = '_' ∨ c ∈ cs := by
  induction cs using plainName.induct with
  | case1 rest ih | case2 rest ih | case3 rest ih =>
    rw [plainName, List.mem_cons] at h
    rcases h with h | h
    · exact .inl h
    · exact (ih h).imp_right fun h => by simp [h]
  | case4 first rest h1 h2 h3 ih =>
    rw [plainName.eq_4 _ _ h1 h2 h3, List.mem_cons] at h
    rcases h with rfl | h
    · exact .inr (by simp)
    · exact (ih h).imp_right fun h => by simp [h]
  | case5 => simp [plainName] at h

theorem exists_toList_fileName (s : Settings) (o : Outcome) :
    ∃ cs c, (o.fileName (Run.extension s)).toList = cs ++ [c, if Run.isDocumentFormat s then 'n'
      else 't'] ∧ c ≠ Text.mark := by
  unfold fileName Run.extension
  split
  · exact ⟨_ ++ ['.', 'j', 's'], 'o', by simp [String.toList_append]; rfl, by decide⟩
  · exact ⟨_ ++ ['.', 't'], 'x', by simp [String.toList_append]; rfl, by decide⟩

theorem bytes_fileName_ne (s : Settings) (o : Outcome) :
    Text.Utf8.bytes (o.fileName (Run.extension s)) ≠ Text.Utf8.bytes ".." := by
  obtain ⟨cs, c, hlist, hc⟩ := exists_toList_fileName s o
  obtain ⟨before, hbefore⟩ := Text.exists_codesOf_concat hc cs
  rw [Text.Utf8.bytes, Text.codes, hlist, hbefore, List.flatMap_append]
  intro h
  have hlast := congrArg List.getLast? h
  split at hlast
  · rw [show [('n').toNat].flatMap Text.Utf8.codeBytes = [110] from by decide,
      List.getLast?_concat] at hlast
    exact absurd hlast (by decide)
  · rw [show [('t').toNat].flatMap Text.Utf8.codeBytes = [116] from by decide,
      List.getLast?_concat] at hlast
    exact absurd hlast (by decide)

theorem notMem_fileName (h : '/' ∉ o.name.toList) :
    '/' ∉ (o.fileName (Run.extension s)).toList := by
  have hstem : '/' ∉ (String.ofList (plainName o.name.toList)).toList := by
    rw [String.toList_ofList]
    intro hmem
    rcases mem_plainName hmem with h' | h'
    · exact absurd h' (by decide)
    · exact h h'
  have hextension : '/' ∉ (Run.extension s).toList := by
    unfold Run.extension
    split <;> decide
  simp only [fileName, String.toList_append, List.mem_append, not_or]
  refine ⟨⟨?_, by decide⟩, hextension⟩
  split
  · decide
  · exact hstem

theorem file_eq (h : '/' ∉ o.name.toList) :
    o.file (Run.extension s) = { names := [o.fileName (Run.extension s)] } := by
  obtain ⟨cs, c, hlist, -⟩ := exists_toList_fileName s o
  apply Path.ofText_of_notMem (notMem_fileName h)
  · rw [hlist]
    simp
  · intro hdot
    have hlength := congrArg List.length (hlist.symm.trans hdot)
    simp at hlength

end Outcome

namespace Run

variable {s : Settings} {c : CommandLine} {directory : Path} {outcomes : Outcomes} {o : Outcome}
  {σ σ' : Session} {q : Path}

theorem sameDirectories_forM
    (h : perform (outcomes.forM (writeReport s directory)) σ = (.ok (), σ')) :
    σ.tree.SameDirectories σ'.tree := by
  induction outcomes generalizing σ with
  | nil =>
    obtain ⟨-, rfl⟩ := Prod.mk.inj h
    exact fun _ => Iff.rfl
  | cons first rest ih =>
    obtain ⟨⟨⟩, σ₁, hfirst, hrest⟩ := perform_bind_eq_ok.mp h
    exact fun here => (sameDirectories_writeReport hfirst here).trans (ih hrest here)

theorem read_forM_other
    (h : perform (outcomes.forM (writeReport s directory)) σ = (.ok (), σ'))
    (hq : σ.tree.Writable q)
    (hother : ∀ p ∈ outcomes, p.ok → ¬ σ.tree.OneFile q (reportFile s directory p)) :
    σ'.tree.read q = σ.tree.read q := by
  induction outcomes generalizing σ with
  | nil =>
    obtain ⟨-, rfl⟩ := Prod.mk.inj h
    rfl
  | cons first rest ih =>
    obtain ⟨⟨⟩, σ₁, hfirst, hrest⟩ := perform_bind_eq_ok.mp h
    have hsame := sameDirectories_writeReport hfirst
    have hread : σ₁.tree.read q = σ.tree.read q := by
      rcases perform_writeReport_cases hfirst with ⟨-, rfl⟩ | ⟨r, hreport, -, hwrite⟩
      · rfl
      · exact FileTree.read_write_other hwrite hq
          (hother first (by simp) (Outcome.ok_iff.mpr ⟨r, hreport⟩))
    rw [← hread]
    apply ih hrest ((FileTree.Writable.congr hsame).mp hq)
    intro p hp hok hone
    exact hother p (by simp [hp]) hok ((FileTree.OneFile.congr hsame).mpr hone)

theorem read_forM_last {earlier later : Outcomes} {r : Report}
    (h : perform ((earlier ++ o :: later).forM (writeReport s directory)) σ = (.ok (), σ'))
    (hreport : o.report? = some r)
    (hlast : ∀ p ∈ later, p.ok →
      ¬ σ.tree.OneFile (reportFile s directory o) (reportFile s directory p))
    (hq : σ.tree.OneFile q (reportFile s directory o)) :
    σ'.tree.read q = .ok (Text.Utf8.bytes (reportText s r)) := by
  change perform (forM (earlier ++ o :: later) _) σ = _ at h
  rw [List.forM_append, List.forM_cons] at h
  -- before it, the report itself, and what comes after it
  obtain ⟨⟨⟩, σ₁, hearlier, h⟩ := perform_bind_eq_ok.mp h
  obtain ⟨⟨⟩, σ₂, hwritten, hlater⟩ := perform_bind_eq_ok.mp h
  have hsame₁ := sameDirectories_forM hearlier
  have hsame₂ := sameDirectories_writeReport hwritten
  have hsame : σ.tree.SameDirectories σ₂.tree := fun here => (hsame₁ here).trans (hsame₂ here)
  have hq₂ := (FileTree.OneFile.congr hsame).mp hq
  have hread : σ₂.tree.read q = .ok (Text.Utf8.bytes (reportText s r)) := by
    rcases perform_writeReport_cases hwritten with ⟨hnone, -⟩ | ⟨r', hreport', -, hwrite⟩
    · simp [hreport] at hnone
    · obtain rfl := Option.some.inj (hreport.symm.trans hreport')
      exact FileTree.read_write_same hwrite ((FileTree.OneFile.congr hsame₁).mp hq)
  rw [← hread]
  apply read_forM_other hlater hq₂.writable
  intro p hp hok hone
  exact hlast p hp hok ((FileTree.OneFile.congr hsame).mpr (hq₂.symm.trans hone))

theorem reportFile_eq (directory : Path) (h : '/' ∉ o.name.toList) :
    reportFile s directory o = directory.join { names := [o.fileName (extension s)] } := by
  rw [reportFile, Outcome.file_eq h]

theorem oneFile_reportFile_iff {t : FileTree} {p : Outcome} (ho : '/' ∉ o.name.toList)
    (hp : '/' ∉ p.name.toList) (hfirst : t.Writable (reportFile s directory o))
    (hsecond : t.Writable (reportFile s directory p)) :
    t.OneFile (reportFile s directory o) (reportFile s directory p) ↔
      Text.Utf8.bytes (o.fileName (extension s)) = Text.Utf8.bytes (p.fileName (extension s)) := by
  rw [reportFile_eq directory ho] at hfirst ⊢
  rw [reportFile_eq directory hp] at hsecond ⊢
  exact FileTree.oneFile_join_iff (Outcome.bytes_fileName_ne s o) (Outcome.bytes_fileName_ne s p)
    hfirst hsecond

theorem writeReports_keeps_last (hdirectory : s.outputDirectory = some directory) (c : CommandLine)
    (outcomes : Outcomes) (σ : Session) :
    let made := (s.makeOutputDirectory σ.tree).1
    let file := reportFile s directory
    ((∃ σ', perform (writeReports s c outcomes) σ = (.ok (), σ')) ↔
      CanReport s c σ.tree outcomes) ∧
    (∀ σ', perform (writeReports s c outcomes) σ = (.ok (), σ') →
      (∀ earlier o later r, outcomes = earlier ++ o :: later → o.report? = some r →
        (∀ p ∈ later, p.ok → ¬ made.OneFile (file o) (file p)) →
        σ'.tree.read (file o) = .ok (Text.Utf8.bytes (reportText s r)) ∧
          ∀ p ∈ earlier, p.ok → made.OneFile (file p) (file o) →
            σ'.tree.read (file p) = .ok (Text.Utf8.bytes (reportText s r))) ∧
      ∀ o ∈ outcomes, o.ok → '/' ∉ o.name.toList →
        file o = directory.join { names := [o.fileName (extension s)] } ∧
        ∀ p ∈ outcomes, p.ok → '/' ∉ p.name.toList →
          (made.OneFile (file o) (file p) ↔
            Text.Utf8.bytes (o.fileName (extension s)) =
              Text.Utf8.bytes (p.fileName (extension s)))) := by
  intro made file
  refine ⟨exists_perform_writeReports_iff, fun σ' h => ?_⟩
  obtain ⟨-, hstorable⟩ := exists_perform_writeReports_iff.mp ⟨σ', h⟩
  have hstorable := (hstorable directory hdirectory).2
  have hwritable (o) (ho : o ∈ outcomes) (hok : o.ok) : made.Writable (file o) := by
    obtain ⟨r, hreport⟩ := Outcome.ok_iff.mp hok
    exact (hstorable o ho r hreport).2
  obtain ⟨-, -, hrun⟩ := (perform_writeReports_eq_ok hdirectory).mp h
  constructor
  · rintro earlier o later r rfl hreport hlast
    have hfile : made.Writable (file o) := hwritable o (by simp) (Outcome.ok_iff.mpr ⟨r, hreport⟩)
    refine ⟨read_forM_last hrun hreport hlast hfile.oneFile, fun p _ _ hone => ?_⟩
    exact read_forM_last hrun hreport hlast hone
  · intro o ho hok hslash
    refine ⟨reportFile_eq directory hslash, fun p hp hpok hpslash => ?_⟩
    exact oneFile_reportFile_iff hslash hpslash (hwritable o ho hok) (hwritable p hp hpok)

def emptyReport (name : String) : Report where
  listing.layout := ⟨name, .struct, [], [], .whole 0, .one, false⟩
  listing.rows := []
  listing.waste := 0
  packing := none

def reported (name : String) : Outcome where
  name
  result := .ok (emptyReport name)

def toOut : Settings where
  outputDirectory := some { names := ["out"] }

theorem writeReports_keeps_last_shared :
    let outcomes := [reported "a::b", reported "item", reported "a_b"]
    let file (name : String) := reportFile toOut { names := ["out"] } (reported name)
    let bytes (name : String) := Text.Utf8.bytes (reportText toOut (emptyReport name))
    toOut.outputDirectory = some { names := ["out"] } ∧
      ∃ σ', perform (writeReports toOut {} outcomes) (.start {} toOut) = (.ok (), σ') ∧
        σ'.tree.read (file "item") = .ok (bytes "item") ∧
        σ'.tree.read (file "a_b") = .ok (bytes "a_b") ∧
        σ'.tree.read (file "a::b") = .ok (bytes "a_b") := by
  intro outcomes file bytes
  obtain ⟨-, hkeeps⟩ :=
    writeReports_keeps_last (s := toOut) rfl {} outcomes (.start {} toOut)
  have hok : (perform (writeReports toOut {} outcomes) (.start {} toOut)).1.isOk = true := by
    decide +kernel
  rcases hrun : perform (writeReports toOut {} outcomes) (.start {} toOut) with ⟨_ | ⟨⟩, σ'⟩
  · simp [hrun, Except.isOk, Except.toBool] at hok
  · obtain ⟨hlast, hfiles⟩ := hkeeps σ' hrun
    have hone (name other : String) (hname : reported name ∈ outcomes)
        (hother : reported other ∈ outcomes) (hslash : '/' ∉ name.toList)
        (hslash' : '/' ∉ other.toList) :=
      (hfiles _ hname rfl hslash).2 _ hother rfl hslash'
    refine ⟨rfl, σ', rfl, ?_, ?_⟩
    · refine (hlast [reported "a::b"] _ [reported "a_b"] _ rfl rfl ?_).1
      rintro p hp -
      rw [List.mem_singleton.mp hp, hone "item" "a_b" (by simp [outcomes]) (by simp [outcomes])
        (by decide) (by decide)]
      decide
    · obtain ⟨hread, hearlier⟩ :=
        hlast [reported "a::b", reported "item"] (reported "a_b") [] _ rfl rfl (by simp)
      refine ⟨hread, hearlier _ (by simp) rfl ?_⟩
      rw [hone "a::b" "a_b" (by simp [outcomes]) (by simp [outcomes]) (by decide) (by decide)]
      decide

theorem writeReports_overwrites :
    let run := perform (writeReports toOut {} [reported "a::b", reported "a_b"]) (.start {} toOut)
    run.1.isOk = true ∧ (reported "a::b").ok = true ∧
      run.2.tree.read (reportFile toOut { names := ["out"] } (reported "a::b")) ≠
        .ok (Text.Utf8.bytes (reportText toOut (emptyReport "a::b"))) ∧
      run.2.tree.nodes =
        [("out", .directory),
          ("out/a_b.txt", .file (Text.Utf8.bytes (reportText toOut (emptyReport "a_b"))))] := by
  refine ⟨by decide +kernel, rfl, fun h => ?_, by decide +kernel⟩
  have hread := congrArg Except.toOption h
  revert hread
  decide +kernel

end Run

end AggregateLayout
