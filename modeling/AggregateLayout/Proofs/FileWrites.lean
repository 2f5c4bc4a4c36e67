import Mathlib
import AggregateLayout.FileTree
import AggregateLayout.Proofs.NameBytes

namespace AggregateLayout.FileTree

variable {t t' : FileTree} {p q : Path} {here there : Place} {bytes : List UInt8}

def LeadsTo (t : FileTree) (p : Path) (here : Place) : Prop :=
  t.find p = .ok here ∧ t.node? here ≠ some .directory

def Writable (t : FileTree) (p : Path) : Prop := ∃ here, t.LeadsTo p here

def OneFile (t : FileTree) (p q : Path) : Prop :=
  ∃ here there, t.LeadsTo p here ∧ t.LeadsTo q there ∧ key here = key there

def SameDirectories (t t' : FileTree) : Prop :=
  ∀ here, t.node? here = some .directory ↔ t'.node? here = some .directory

theorem write_eq_ok :
    t.write p bytes = .ok t' ↔ ∃ here, t.LeadsTo p here ∧ t' = t.put here (.file bytes) := by
  unfold write LeadsTo
  cases hfind : t.find p with
  | error fault => simp [bind, Except.bind]
  | ok here =>
    cases hnode : t.node? here with
    | none => simp [bind, Except.bind, pure, Except.pure, hnode, eq_comm]
    | some node =>
      cases node <;> simp [bind, Except.bind, pure, Except.pure, hnode, throw, throwThe,
        MonadExceptOf.throw, eq_comm]

theorem node?_put (t : FileTree) (here there : Place) (node : FileNode) :
    (t.put here node).node? there =
      if isAbove there then some .directory
      else if key here = key there then some node else t.node? there := by
  unfold node? put
  split
  · rfl
  · rw [Table.find?_insert]

theorem isAbove_of_leadsTo (h : t.LeadsTo p here) : isAbove here = false := by
  by_contra habove
  exact h.2 (by rw [node?, if_pos (by simpa using habove)])

theorem node?_congr (hhere : isAbove here = false) (hthere : isAbove there = false)
    (hkey : key here = key there) : t.node? here = t.node? there := by
  rw [node?, node?, hhere, hthere, hkey]

theorem sameDirectories_put (h : t.LeadsTo p here) :
    SameDirectories t (t.put here (.file bytes)) := by
  intro there
  rw [node?_put]
  split
  · next habove => simp [node?, habove]
  · next habove =>
    split
    · next hkey =>
      rw [← node?_congr (isAbove_of_leadsTo h) (by simpa using habove) hkey]
      simpa using h.2
    · rfl

theorem SameDirectories.symm (h : SameDirectories t t') : SameDirectories t' t :=
  fun here => (h here).symm

theorem walk_cons_eq_ok {shown name : String} {rest : List String} :
    t.walk shown here (name :: rest) = .ok there ↔
      t.node? here = some .directory ∧ (Text.Utf8.bytes name).length ≤ maxName ∧
        t.walk shown (enter here (Text.Utf8.name (Text.Utf8.bytes name))) rest = .ok there := by
  rw [walk]
  cases hnode : t.node? here with
  | none => simp
  | some node =>
    cases node with
    | file => simp
    | directory =>
      rcases Nat.lt_or_ge maxName (Text.Utf8.bytes name).length with hlong | hshort
      · simp [hlong]
      · simp [hshort, Nat.not_lt.mpr hshort]

theorem walk_eq_ok_of (h : SameDirectories t t') {shown : String} {names : List String}
    (hwalk : t.walk shown here names = .ok there) (shown' : String) :
    t'.walk shown' here names = .ok there := by
  induction names generalizing here with
  | nil => simpa [walk] using hwalk
  | cons name rest ih =>
    obtain ⟨hnode, hlength, hrest⟩ := walk_cons_eq_ok.mp hwalk
    exact walk_cons_eq_ok.mpr ⟨(h here).mp hnode, hlength, ih hrest⟩

theorem walk_concat_eq_ok {shown name : String} {names : List String}
    (h : t.walk shown here (names ++ [name]) = .ok there) :
    ∃ directory, t.walk shown here names = .ok directory ∧
      there = enter directory (Text.Utf8.name (Text.Utf8.bytes name)) := by
  induction names generalizing here with
  | nil =>
    obtain ⟨-, -, hrest⟩ := walk_cons_eq_ok.mp h
    exact ⟨here, rfl, by simpa [walk, eq_comm] using hrest⟩
  | cons first rest ih =>
    obtain ⟨hnode, hlength, hrest⟩ := walk_cons_eq_ok.mp h
    obtain ⟨directory, hdirectory, hthere⟩ := ih hrest
    exact ⟨directory, walk_cons_eq_ok.mpr ⟨hnode, hlength, hdirectory⟩, hthere⟩

theorem find_eq_ok :
    t.find p = .ok here ↔
      Text.Utf8.nameFault? p.text = none ∧ (Text.Utf8.bytes p.text).contains 0 = false ∧
        (Text.Utf8.bytes p.text).length ≤ maxPath ∧
          t.walk p.text (if p.root.isEmpty then [] else ["/"]) p.names = .ok here := by
  simp only [find, findAs]
  cases hname : Text.Utf8.nameFault? p.text with
  | some fault => simp
  | none =>
    cases hnull : (Text.Utf8.bytes p.text).contains 0 with
    | true => simp
    | false =>
      rcases Nat.lt_or_ge maxPath (Text.Utf8.bytes p.text).length with hlong | hshort
      · simp [hlong]
      · simp [hshort, Nat.not_lt.mpr hshort]

theorem walk_of_find (h : t.find p = .ok here) :
    t.walk p.text (if p.root.isEmpty then [] else ["/"]) p.names = .ok here :=
  (find_eq_ok.mp h).2.2.2

theorem find_eq_ok_of (h : SameDirectories t t') (hfind : t.find p = .ok here) :
    t'.find p = .ok here := by
  obtain ⟨hname, hnull, hlength, hwalk⟩ := find_eq_ok.mp hfind
  exact find_eq_ok.mpr ⟨hname, hnull, hlength, walk_eq_ok_of h hwalk p.text⟩

theorem LeadsTo.congr (h : SameDirectories t t') : t.LeadsTo p here ↔ t'.LeadsTo p here :=
  ⟨fun hp => ⟨find_eq_ok_of h hp.1, fun hn => hp.2 ((h here).mpr hn)⟩,
    fun hp => ⟨find_eq_ok_of h.symm hp.1, fun hn => hp.2 ((h here).mp hn)⟩⟩

theorem Writable.congr (h : SameDirectories t t') : t.Writable p ↔ t'.Writable p :=
  exists_congr fun _ => LeadsTo.congr h

theorem OneFile.congr (h : SameDirectories t t') : t.OneFile p q ↔ t'.OneFile p q :=
  exists_congr fun _ => exists_congr fun _ =>
    and_congr (LeadsTo.congr h) (and_congr (LeadsTo.congr h) Iff.rfl)

theorem LeadsTo.unique (hp : t.LeadsTo p here) (hq : t.LeadsTo p there) : here = there :=
  Except.ok.inj (hp.1.symm.trans hq.1)

theorem Writable.oneFile (h : t.Writable p) : t.OneFile p p :=
  let ⟨here, hp⟩ := h
  ⟨here, here, hp, hp, rfl⟩

theorem OneFile.symm (h : t.OneFile p q) : t.OneFile q p :=
  let ⟨here, there, hp, hq, hkey⟩ := h
  ⟨there, here, hq, hp, hkey.symm⟩

theorem OneFile.trans {r : Path} (h : t.OneFile p q) (h' : t.OneFile q r) : t.OneFile p r := by
  obtain ⟨here, there, hp, hq, hkey⟩ := h
  obtain ⟨there', last, hq', hr, hkey'⟩ := h'
  exact ⟨here, last, hp, hr, hkey.trans ((hq.unique hq') ▸ hkey')⟩

theorem OneFile.writable (h : t.OneFile p q) : t.Writable p :=
  let ⟨here, _, hp, _⟩ := h
  ⟨here, hp⟩

theorem read_of_leadsTo (h : t.LeadsTo p here) :
    t.read p = match t.node? here with
      | some (.file bytes) => .ok bytes
      | _ => .error (.missing p.text) := by
  have hnode := h.2
  rw [read, h.1]
  change t.readFrom p.text here = _
  unfold readFrom
  cases hfound : t.node? here with
  | none => rfl
  | some node =>
    cases node with
    | file => rfl
    | directory => exact absurd hfound hnode

theorem read_put (hp : t.LeadsTo p here) (hq : t.LeadsTo q there) :
    (t.put here (.file bytes)).read q =
      if key here = key there then .ok bytes else t.read q := by
  rw [read_of_leadsTo ((LeadsTo.congr (sameDirectories_put hp)).mp hq), read_of_leadsTo hq,
    node?_put, isAbove_of_leadsTo hq]
  split_ifs <;> simp_all

theorem read_write_same (h : t.write p bytes = .ok t') (hq : t.OneFile q p) :
    t'.read q = .ok bytes := by
  obtain ⟨here, hp, rfl⟩ := write_eq_ok.mp h
  obtain ⟨there, here', hq, hp', hkey⟩ := hq
  obtain rfl := hp.unique hp'
  rw [read_put hp hq, if_pos hkey.symm]

theorem read_write_other (h : t.write p bytes = .ok t') (hq : t.Writable q)
    (hother : ¬ t.OneFile q p) : t'.read q = t.read q := by
  obtain ⟨here, hp, rfl⟩ := write_eq_ok.mp h
  obtain ⟨there, hq⟩ := hq
  rw [read_put hp hq, if_neg fun hkey => hother ⟨there, here, hq, hp, hkey.symm⟩]

theorem sameDirectories_write (h : t.write p bytes = .ok t') : SameDirectories t t' := by
  obtain ⟨here, hp, rfl⟩ := write_eq_ok.mp h
  exact sameDirectories_put hp

theorem writable_iff : t.Writable p ↔ ∃ t', t.write p bytes = .ok t' := by
  simp only [write_eq_ok, Writable]
  constructor
  · rintro ⟨here, h⟩
    exact ⟨_, here, h, rfl⟩
  · rintro ⟨-, here, h, -⟩
    exact ⟨here, h⟩

theorem exists_intercalate_concat (separator : List Char) (names : List (List Char)) :
    ∃ before, ∀ last, separator.intercalate (names ++ [last]) = before ++ last := by
  induction names with
  | nil => exact ⟨[], fun last => by simp [List.intercalate]⟩
  | cons name rest ih =>
    obtain ⟨before, hbefore⟩ := ih
    refine ⟨name ++ separator ++ before, fun last => ?_⟩
    rw [List.cons_append, List.intercalate_cons_of_ne_nil (by simp), hbefore, List.append_assoc,
      List.append_assoc, List.append_assoc]

theorem key_cons_inj {name other : String} :
    key (name :: here) = key (other :: here) ↔ name = other := by
  refine ⟨fun h => ?_, fun h => h ▸ rfl⟩
  obtain ⟨before, hbefore⟩ :=
    exists_intercalate_concat "/".toList (here.reverse.map String.toList)
  have hlists := congrArg String.toList h
  simp only [key, List.reverse_cons, String.toList_intercalate, List.map_append, List.map_cons,
    List.map_nil, hbefore] at hlists
  exact String.toList_injective (List.append_cancel_left hlists)

theorem enter_eq {name : String} (h : name ≠ "..") : enter here name = name :: here := by
  simp [enter, h]

theorem oneFile_join_iff {directory : Path} {name other : String}
    (hname : Text.Utf8.bytes name ≠ Text.Utf8.bytes "..")
    (hother : Text.Utf8.bytes other ≠ Text.Utf8.bytes "..")
    (hp : t.Writable (directory.join { names := [name] }))
    (hq : t.Writable (directory.join { names := [other] })) :
    t.OneFile (directory.join { names := [name] }) (directory.join { names := [other] }) ↔
      Text.Utf8.bytes name = Text.Utf8.bytes other := by
  obtain ⟨here, hp⟩ := hp
  obtain ⟨there, hq⟩ := hq
  obtain ⟨d, hd, hhere⟩ := walk_concat_eq_ok (walk_of_find hp.1)
  obtain ⟨d', hd', hthere⟩ := walk_concat_eq_ok (walk_of_find hq.1)
  -- both walks pass through the same directory
  have hdirectory : d = d' := by
    have hsame : SameDirectories t t := fun _ => Iff.rfl
    have hwalk := walk_eq_ok_of hsame hd (directory.join { names := [other] }).text
    exact Except.ok.inj (hwalk.symm.trans hd')
  have hdots {n : String} (h : Text.Utf8.bytes n ≠ Text.Utf8.bytes "..") :
      Text.Utf8.name (Text.Utf8.bytes n) ≠ ".." := fun he =>
    h (by rw [← he, Text.Utf8.bytes_name])
  rw [enter_eq (hdots hname)] at hhere
  rw [enter_eq (hdots hother), ← hdirectory] at hthere
  subst hhere hthere
  constructor
  · rintro ⟨a, b, ha, hb, hkey⟩
    rw [ha.unique hp, hb.unique hq, key_cons_inj, Text.Utf8.name_inj] at hkey
    exact hkey
  · intro h
    exact ⟨_, _, hp, hq, by rw [h]⟩

end AggregateLayout.FileTree
