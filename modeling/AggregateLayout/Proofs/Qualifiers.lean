import Mathlib
import AggregateLayout.Catalog.Primitive
import AggregateLayout.Profile.Builtin
import AggregateLayout.Proofs.NormalNames

namespace AggregateLayout

namespace TypeName

open AggregateLayout.Text

def qualifiers : List (List Char) := ["const", "volatile", "restrict"].map String.toList

/-- The name with qualifiers before and after it, each of them parted from the rest by blanks. -/
inductive Qualified (name : List Char) : List Char → Prop
  | bare : Qualified name name
  | before {cs word gap : List Char} (hword : word ∈ qualifiers) (hgap : gap ≠ [])
    (hblank : ∀ c ∈ gap, isBlank c = true) (h : Qualified name cs) :
    Qualified name (word ++ (gap ++ cs))
  | after {cs word gap : List Char} (hword : word ∈ qualifiers) (hgap : gap ≠ [])
    (hblank : ∀ c ∈ gap, isBlank c = true) (h : Qualified name cs) :
    Qualified name (cs ++ (gap ++ word))

def bareChars (cs : List Char) : List Char := trimChars (collapseBlanks (dropKeywords cs))

variable {a b cs gap name word : List Char} {c : Char}

section Keywords

theorem dropKeywords_append (h : ∀ x ∈ a.getLast?, ∀ y ∈ b.head?, isWord x ≠ isWord y) :
    dropKeywords (a ++ b) = dropKeywords a ++ dropKeywords b := by
  unfold dropKeywords
  rw [List.splitBy_append fun x hx y hy => beq_eq_false_iff_ne.mpr (h x hx y hy),
    List.flatMap_append]

theorem dropKeywords_plain (h : ∀ c ∈ a, isWord c = false) : dropKeywords a = a := by
  refine dropKeywords_eq_self fun w hw => ?_
  rw [← List.append_nil a, words_append_left [] h, words_nil] at hw
  exact absurd hw List.not_mem_nil

theorem dropKeywords_plain_append (b : List Char) (h : ∀ c ∈ a, isWord c = false) :
    dropKeywords (a ++ b) = a ++ dropKeywords b := by
  -- The first run of the rest may go on with the characters before it, unless it is a word.
  have hrest : b.takeWhile (!isWord ·) ++ b.dropWhile (!isWord ·) = b :=
    List.takeWhile_append_dropWhile
  have hplain : ∀ c ∈ b.takeWhile (!isWord ·), isWord c = false := fun c hc => by
    simpa using List.mem_takeWhile_imp hc
  have hturn : ∀ before : List Char, (∀ c ∈ before, isWord c = false) →
      dropKeywords (before ++ b.dropWhile (!isWord ·)) =
        before ++ dropKeywords (b.dropWhile (!isWord ·)) := by
    intro before hbefore
    rw [dropKeywords_append, dropKeywords_plain hbefore]
    intro x hx y hy
    have hfirst := List.head?_dropWhile_not (!isWord ·) b
    rw [hy] at hfirst
    rw [hbefore x (List.mem_of_getLast? hx)]
    simpa using hfirst
  have hall : ∀ c ∈ a ++ b.takeWhile (!isWord ·), isWord c = false := fun c hc =>
    (List.mem_append.mp hc).elim (h c) (hplain c)
  rw [← hrest, ← List.append_assoc, hturn _ hall, hturn _ hplain, List.append_assoc]

theorem dropKeywords_append_plain (a : List Char) (h : ∀ c ∈ b, isWord c = false) :
    dropKeywords (a ++ b) = dropKeywords a ++ b := by
  have hrest : a.rdropWhile (!isWord ·) ++ a.rtakeWhile (!isWord ·) = a :=
    List.rdropWhile_append_rtakeWhile
  have hplain : ∀ c ∈ a.rtakeWhile (!isWord ·), isWord c = false := fun c hc => by
    simpa using List.mem_rtakeWhile_imp hc
  have hturn : ∀ behind : List Char, (∀ c ∈ behind, isWord c = false) →
      dropKeywords (a.rdropWhile (!isWord ·) ++ behind) =
        dropKeywords (a.rdropWhile (!isWord ·)) ++ behind := by
    intro behind hbehind
    rw [dropKeywords_append, dropKeywords_plain hbehind]
    intro x hx y hy
    obtain ⟨hne, rfl⟩ := List.mem_getLast?_eq_getLast hx
    have hlast := List.rdropWhile_last_not _ _ hne
    rw [hbehind y (List.mem_of_head? hy)]
    simpa using hlast
  have hall : ∀ c ∈ a.rtakeWhile (!isWord ·) ++ b, isWord c = false := fun c hc =>
    (List.mem_append.mp hc).elim (hplain c) (h c)
  rw [← hrest, List.append_assoc, hturn _ hall, hturn _ hplain, List.append_assoc]

theorem isWord_of_qualifier (h : word ∈ qualifiers) : ∀ c ∈ word, isWord c = true := by
  have hall : ∀ w ∈ qualifiers, w.all isWord = true := by decide
  exact List.all_eq_true.mp (hall word h)

theorem dropKeywords_qualifier (h : word ∈ qualifiers) : dropKeywords word = [' '] := by
  have hall : ∀ w ∈ qualifiers, dropKeywords w = [' '] := by decide +kernel
  exact hall word h

theorem words_qualifier (h : word ∈ qualifiers) : words word = [word] := by
  have hne : ∀ w ∈ qualifiers, w ≠ [] := by decide
  exact words_of_word (hne word h) (isWord_of_qualifier h)

end Keywords

section Blanks

theorem trimChars_cons_blank (cs : List Char) (hc : isBlank c = true) :
    trimChars (c :: cs) = trimChars cs := by
  unfold trimChars
  rw [List.dropWhile_cons_of_pos hc]

theorem trimChars_concat_blank (cs : List Char) (hc : isBlank c = true) :
    trimChars (cs ++ [c]) = trimChars cs := by
  rw [trimChars_eq, trimChars_eq, List.dropWhile_append]
  split
  · next hnone =>
    rw [List.isEmpty_iff.mp hnone, List.dropWhile_cons_of_pos hc, List.dropWhile_nil]
  · rw [List.rdropWhile_concat_pos _ _ _ hc]

theorem collapseBlanks_blank (cs : List Char) (hc : isBlank c = true) :
    collapseBlanks (c :: cs) = collapseBlanks cs ∨
      collapseBlanks (c :: cs) = ' ' :: collapseBlanks cs := by
  rw [collapseBlanks, hc, Bool.not_true, if_neg Bool.false_ne_true]
  exact ite_eq_or_eq _ _ _

theorem trimChars_collapse_before (cs : List Char) (h : ∀ c ∈ a, isBlank c = true) :
    trimChars (collapseBlanks (a ++ cs)) = trimChars (collapseBlanks cs) := by
  induction a with
  | nil => rfl
  | cons c rest ih =>
    obtain ⟨hc, hrest⟩ := List.forall_mem_cons.mp h
    rw [List.cons_append, ← ih hrest]
    rcases collapseBlanks_blank (rest ++ cs) hc with hsame | hspace
    · rw [hsame]
    · rw [hspace, trimChars_cons_blank _ isBlank_space]

theorem collapseBlanks_append (cs : List Char) (h : ∀ c ∈ b, isBlank c = true) :
    collapseBlanks (cs ++ b) = collapseBlanks cs ∨
      collapseBlanks (cs ++ b) = collapseBlanks cs ++ [' '] := by
  induction cs with
  | nil =>
    rw [List.nil_append]
    induction b with
    | nil => exact .inl rfl
    | cons c rest ih =>
      obtain ⟨hc, hrest⟩ := List.forall_mem_cons.mp h
      have htail := ih hrest
      unfold collapseBlanks at htail ⊢
      dsimp only
      rw [hc, Bool.not_true, if_neg Bool.false_ne_true]
      unfold collapseBlanks
      rcases htail with htail | htail <;> rw [htail]
      · exact .inr rfl
      · exact .inr rfl
  | cons c rest ih =>
    rw [List.cons_append]
    unfold collapseBlanks
    dsimp only
    split
    · exact ih.imp (congrArg _) (congrArg _)
    · rcases ih with htail | htail <;> rw [htail]
      · exact .inl rfl
      · cases collapseBlanks rest with
        | nil => exact .inl rfl
        | cons d tail =>
          rw [List.cons_append, List.head?_cons, List.head?_cons]
          split
          · exact .inr rfl
          · exact .inr rfl

theorem trimChars_collapse_after (cs : List Char) (h : ∀ c ∈ b, isBlank c = true) :
    trimChars (collapseBlanks (cs ++ b)) = trimChars (collapseBlanks cs) := by
  rcases collapseBlanks_append cs h with hsame | hspace
  · rw [hsame]
  · rw [hspace, trimChars_concat_blank _ isBlank_space]

end Blanks

theorem bareChars_before (cs : List Char) (h : ∀ c ∈ a, isBlank c = true) :
    bareChars (a ++ cs) = bareChars cs := by
  unfold bareChars
  rw [dropKeywords_plain_append _ fun c hc => isWord_of_isBlank (h c hc),
    trimChars_collapse_before _ h]

theorem bareChars_after (cs : List Char) (h : ∀ c ∈ b, isBlank c = true) :
    bareChars (cs ++ b) = bareChars cs := by
  unfold bareChars
  rw [dropKeywords_append_plain _ fun c hc => isWord_of_isBlank (h c hc),
    trimChars_collapse_after _ h]

theorem bareChars_trimChars (cs : List Char) : bareChars (trimChars cs) = bareChars cs := by
  have hfirst := List.takeWhile_append_dropWhile (p := isBlank) (l := cs)
  have hlast := List.rdropWhile_append_rtakeWhile (p := isBlank) (l := cs.dropWhile isBlank)
  conv_rhs => rw [← hfirst, bareChars_before _ fun c hc => List.mem_takeWhile_imp hc, ← hlast,
    bareChars_after _ fun c hc => List.mem_rtakeWhile_imp hc]
  rw [trimChars_eq]

theorem bareChars_qualifier_before (hword : word ∈ qualifiers) (hgap : gap ≠ [])
    (hblank : ∀ c ∈ gap, isBlank c = true) :
    bareChars (word ++ (gap ++ cs)) = bareChars cs := by
  have hturn : dropKeywords (word ++ (gap ++ cs)) = [' '] ++ dropKeywords (gap ++ cs) := by
    rw [dropKeywords_append, dropKeywords_qualifier hword]
    intro x hx y hy
    rw [List.head?_append_of_ne_nil _ hgap] at hy
    rw [isWord_of_qualifier hword x (List.mem_of_getLast? hx),
      isWord_of_isBlank (hblank y (List.mem_of_head? hy))]
    exact Bool.false_ne_true.symm
  rw [← bareChars_before cs hblank]
  unfold bareChars
  rw [hturn, trimChars_collapse_before _ (List.forall_mem_singleton.mpr isBlank_space)]

theorem bareChars_qualifier_after (hword : word ∈ qualifiers) (hgap : gap ≠ [])
    (hblank : ∀ c ∈ gap, isBlank c = true) :
    bareChars (cs ++ (gap ++ word)) = bareChars cs := by
  have hturn : dropKeywords (cs ++ gap ++ word) = dropKeywords (cs ++ gap) ++ [' '] := by
    rw [dropKeywords_append, dropKeywords_qualifier hword]
    intro x hx y hy
    rw [List.getLast?_append_of_ne_nil _ hgap] at hx
    rw [isWord_of_isBlank (hblank x (List.mem_of_getLast? hx)),
      isWord_of_qualifier hword y (List.mem_of_head? hy)]
    exact Bool.false_ne_true
  rw [← bareChars_after cs hblank, ← List.append_assoc]
  unfold bareChars
  rw [hturn, trimChars_collapse_after _ (List.forall_mem_singleton.mpr isBlank_space)]

theorem Qualified.bareChars_eq (h : Qualified name cs) : bareChars cs = bareChars name := by
  induction h with
  | bare => rfl
  | before hword hgap hblank _ ih => rw [bareChars_qualifier_before hword hgap hblank, ih]
  | after hword hgap hblank _ ih => rw [bareChars_qualifier_after hword hgap hblank, ih]

theorem normalizeChars_eq (h : trimChars cs ≠ "enum".toList) :
    normalizeChars cs = tightenStars (bareChars cs) := by
  unfold normalizeChars
  dsimp only
  rw [if_neg (by simpa using h), ← bareChars_trimChars cs]
  rfl

theorem Qualified.trimChars_ne (h : Qualified name cs) (hne : cs ≠ name) :
    trimChars cs ≠ "enum".toList := by
  have hword : ∃ w ∈ qualifiers, w ∈ words cs := by
    cases h with
    | bare => exact absurd rfl hne
    | @before _ word gap hword hgap hblank _ =>
      refine ⟨word, hword, ?_⟩
      obtain ⟨c, rest, rfl⟩ := List.exists_cons_of_ne_nil hgap
      rw [List.cons_append, words_append_cons _ _ (isWord_of_isBlank (hblank c (.head _))),
        words_qualifier hword]
      exact .head _
    | @after cs word gap hword hgap hblank _ =>
      refine ⟨word, hword, ?_⟩
      obtain ⟨c, rest, rfl⟩ := List.exists_cons_of_ne_nil hgap
      rw [List.cons_append, words_append_cons _ _ (isWord_of_isBlank (hblank c (.head _))),
        words_append_left _ fun d hd => isWord_of_isBlank (hblank d (.tail _ hd)),
        words_qualifier hword]
      exact List.mem_append_right _ (.head _)
  intro henum
  obtain ⟨w, hw, hmem⟩ := hword
  rw [← words_trimChars, henum] at hmem
  have hnone : ∀ w ∈ qualifiers, w ∉ words "enum".toList := by decide
  exact hnone w hw hmem

theorem Qualified.normalizeChars_eq (h : Qualified name cs)
    (hname : trimChars name ≠ "enum".toList) : normalizeChars cs = normalizeChars name := by
  by_cases hne : cs = name
  · rw [hne]
  · rw [TypeName.normalizeChars_eq (h.trimChars_ne hne), TypeName.normalizeChars_eq hname,
      h.bareChars_eq]

theorem Qualified.normalizeChars_enum (h : Qualified name cs)
    (hname : trimChars name = "enum".toList) (hne : cs ≠ name) : normalizeChars cs = [] := by
  rw [TypeName.normalizeChars_eq (h.trimChars_ne hne), h.bareChars_eq, ← bareChars_trimChars, hname]
  decide

end TypeName

namespace Catalog

variable {μ : Type} [Measure μ]

/-- Both names are found to be the same, or neither is known. -/
structure Alike (c : Catalog μ) (name other : String) : Prop where
  isPointer : c.isPointer name = c.isPointer other
  aggregate : c.aggregate? name = c.aggregate? other
  contains : c.contains name = c.contains other
  describe : (∃ d, c.describe name = .ok d ∧ c.describe other = .ok d) ∨
    c.describe name = .error { cause := .unknownType name } ∧
      c.describe other = .error { cause := .unknownType other }

theorem describe_cases (c : Catalog μ) {name other : String}
    (h : c.resolve name = c.resolve other) :
    (∃ d, c.describe name = .ok d ∧ c.describe other = .ok d) ∨
      c.describe name = .error { cause := .unknownType name } ∧
        c.describe other = .error { cause := .unknownType other } := by
  unfold describe
  dsimp only
  rw [h]
  split
  · exact .inl ⟨_, rfl, rfl⟩
  · cases c.types.find? (c.resolve other) with
    | some d => exact .inl ⟨d, rfl, rfl⟩
    | none => exact .inr ⟨rfl, rfl⟩

theorem alike_of_normalize (c : Catalog μ) {name other : String}
    (h : TypeName.normalize name = TypeName.normalize other) : c.Alike name other := by
  have hresolve : c.resolve name = c.resolve other := by
    unfold resolve
    rw [h]
  refine ⟨?_, ?_, ?_, c.describe_cases hresolve⟩
  · unfold isPointer
    rw [hresolve]
  · unfold aggregate?
    rw [hresolve]
  · unfold contains
    rw [hresolve]

end Catalog

theorem qualified_alike {μ : Type} [Measure μ] (c : Catalog μ) {name qualified : String}
    (h : TypeName.Qualified name.toList qualified.toList) :
    (Text.trim name ≠ "enum" → c.Alike qualified name) ∧
      (Text.trim name = "enum" → qualified = name ∨ c.Alike qualified "") := by
  constructor
  · intro hname
    refine c.alike_of_normalize (congrArg String.ofList (h.normalizeChars_eq fun henum => hname ?_))
    unfold Text.trim
    rw [henum, String.ofList_toList]
  · intro hname
    have henum : Text.trimChars name.toList = "enum".toList := by
      rw [← hname, Text.trim, String.toList_ofList]
    by_cases hne : qualified.toList = name.toList
    · exact .inl (String.toList_inj.mp hne)
    · exact .inr (c.alike_of_normalize (congrArg String.ofList (h.normalizeChars_enum henum hne)))

theorem qualified_pointer :
    TypeName.Qualified "node *".toList "const volatile node *\trestrict".toList :=
  have hspace : ∀ c ∈ [' '], Text.isBlank c = true := List.forall_mem_singleton.mpr rfl
  have htab : ∀ c ∈ ['\t'], Text.isBlank c = true := List.forall_mem_singleton.mpr rfl
  have hvolatile := TypeName.Qualified.before (.tail _ (.head _)) (List.cons_ne_nil _ _) hspace
    (.bare : TypeName.Qualified "node *".toList _)
  have hconst := TypeName.Qualified.before (.head _) (List.cons_ne_nil _ _) hspace hvolatile
  TypeName.Qualified.after (.tail _ (.tail _ (.head _))) (List.cons_ne_nil _ _) htab hconst

theorem qualified_enum : TypeName.Qualified "enum".toList "const enum".toList :=
  have hspace : ∀ c ∈ [' '], Text.isBlank c = true := List.forall_mem_singleton.mpr rfl
  TypeName.Qualified.before (.head _) (List.cons_ne_nil _ _) hspace
    (.bare : TypeName.Qualified "enum".toList _)

theorem qualified_alike_nodePointer :
    TypeName.Qualified "node *".toList "const volatile node *\trestrict".toList ∧
      Text.trim "node *" ≠ "enum" ∧
      (Catalog.ofProfile .lp64 : Catalog Int).Alike "const volatile node *\trestrict" "node *" := by
  have hname : Text.trim "node *" ≠ "enum" := by decide
  exact ⟨qualified_pointer, hname, (qualified_alike _ qualified_pointer).1 hname⟩

theorem describe_loses_enum :
    TypeName.Qualified "enum".toList "const enum".toList ∧
      ((Catalog.ofProfile .lp64 : Catalog Int).describe "enum").toOption.map (·.name) =
        some "enum" ∧
      (Catalog.ofProfile .lp64 : Catalog Int).describe "const enum" =
        .error { cause := .unknownType "const enum" } := by
  exact ⟨qualified_enum, by decide, rfl⟩

end AggregateLayout
