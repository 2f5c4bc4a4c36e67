import Mathlib
import AggregateLayout.TypeName

namespace AggregateLayout.TypeName

open AggregateLayout.Text

def words (cs : List Char) : List (List Char) :=
  (cs.splitOnP (!isWord ·)).filter (!·.isEmpty)

structure Spaced (cs : List Char) : Prop where
  spaces : ∀ c ∈ cs, isBlank c = true → c = ' '
  single : cs.IsChain fun a b => isBlank a = true → isBlank b = false

structure Trimmed (cs : List Char) : Prop where
  first : ∀ c ∈ cs.head?, isBlank c = false
  last : ∀ c ∈ cs.getLast?, isBlank c = false

def Tight (cs : List Char) : Prop := cs.IsChain fun a b => isBlank a = true → b ≠ '*'

structure Normal (cs : List Char) : Prop where
  words : ∀ w ∈ words cs, w ∉ keywords
  spaced : Spaced cs
  trimmed : Trimmed cs
  tight : Tight cs

section Words

variable {a b : List Char} {c : Char}

theorem isWord_space : isWord ' ' = false := rfl

theorem isWord_star : isWord '*' = false := rfl

theorem isBlank_space : isBlank ' ' = true := rfl

theorem isBlank_star : isBlank '*' = false := rfl

theorem words_nil : words [] = [] := rfl

theorem words_append_cons (a b : List Char) (hc : isWord c = false) :
    words (a ++ c :: b) = words a ++ words b := by
  unfold words
  rw [List.splitOnP_append_cons _ _ (by simp [hc]), List.filter_append]

theorem words_cons (b : List Char) (hc : isWord c = false) : words (c :: b) = words b :=
  words_append_cons [] b hc

theorem words_append_left (b : List Char) (h : ∀ c ∈ a, isWord c = false) :
    words (a ++ b) = words b := by
  induction a with
  | nil => rfl
  | cons c rest ih =>
    obtain ⟨hc, hrest⟩ := List.forall_mem_cons.mp h
    rw [List.cons_append, words_cons _ hc, ih hrest]

theorem words_append_right (a : List Char) (h : ∀ c ∈ b, isWord c = false) :
    words (a ++ b) = words a := by
  cases b with
  | nil => rw [List.append_nil]
  | cons c rest =>
    obtain ⟨hc, hrest⟩ := List.forall_mem_cons.mp h
    have hnone := words_append_left [] hrest
    rw [List.append_nil] at hnone
    rw [words_append_cons _ _ hc, hnone, words_nil, List.append_nil]

theorem words_of_word (ha : a ≠ []) (h : ∀ c ∈ a, isWord c = true) : words a = [a] := by
  unfold words
  rw [List.splitOnP_eq_singleton fun c hc => by simp [h c hc]]
  simp [ha]

def blankCodes : List Nat :=
  [9, 10, 11, 12, 13, 28, 29, 30, 31, 32, 0x85, 0xa0, 0x1680, 0x2000, 0x2001, 0x2002, 0x2003,
    0x2004, 0x2005, 0x2006, 0x2007, 0x2008, 0x2009, 0x200a, 0x2028, 0x2029, 0x202f, 0x205f, 0x3000]

theorem isWord_of_isBlank (h : isBlank c = true) : isWord c = false := by
  have hcode : c.toNat ∈ blankCodes := by
    simp only [isBlank, Bool.or_eq_true, Bool.and_eq_true, decide_eq_true_eq, beq_iff_eq] at h
    simp only [blankCodes, List.mem_cons, List.not_mem_nil, or_false]
    omega
  have hnone : ∀ n ∈ blankCodes, isWord (Char.ofNat n) = false := by decide +kernel
  rw [← Char.ofNat_toNat c]
  exact hnone _ hcode

end Words

section Keywords

structure Alternates (runs : List (List Char)) : Prop where
  nonempty : [] ∉ runs
  alike : ∀ r ∈ runs, ∀ a ∈ r, ∀ b ∈ r, isWord a = isWord b
  turns : runs.IsChain fun r s => ∃ hr hs, (isWord (r.getLast hr) == isWord (s.head hs)) = false

theorem alternates_splitBy (cs : List Char) :
    Alternates (cs.splitBy fun a b => isWord a == isWord b) := by
  refine ⟨List.nil_notMem_splitBy _ _, fun r hr => ?_,
    List.isChain_getLast_head_splitBy (fun a b => isWord a == isWord b) cs⟩
  have hchain : r.IsChain fun a b => isWord a = isWord b := by
    simpa using List.isChain_of_mem_splitBy hr
  let R (a b : Char) : Prop := isWord a = isWord b
  have : Trans R R R := ⟨Eq.trans⟩
  have : Std.Symm R := ⟨fun _ _ => Eq.symm⟩
  exact hchain.pairwise.forall_of_forall (R := R) fun _ _ => rfl

theorem Alternates.tail {r : List Char} {runs : List (List Char)} (h : Alternates (r :: runs)) :
    Alternates runs :=
  ⟨fun hnil => h.nonempty (.tail _ hnil), fun s hs => h.alike s (.tail _ hs), h.turns.tail⟩

theorem words_replace (blank : List Char → Bool) {runs : List (List Char)}
    (h : Alternates runs) :
    words (runs.flatMap fun r => if blank r then [' '] else r) =
      runs.filter fun r => r.all isWord && !blank r := by
  induction runs with
  | nil => rfl
  | cons r rest ih =>
    have hr : r ≠ [] := fun hnil => h.nonempty (hnil ▸ .head _)
    rw [List.flatMap_cons, List.filter_cons]
    by_cases hword : isWord (r.getLast hr) = true
    · have hall : ∀ c ∈ r, isWord c = true := fun c hc =>
        (h.alike r (.head _) c hc _ (List.getLast_mem hr)).trans hword
      have hblank : r.all isWord = true := List.all_eq_true.mpr hall
      rw [hblank, Bool.true_and]
      cases hkept : blank r with
      | true =>
        rw [if_pos rfl, List.singleton_append, words_cons _ isWord_space]
        exact ih h.tail
      | false =>
        rw [if_neg Bool.false_ne_true, Bool.not_false, if_pos rfl, ← ih h.tail]
        cases rest with
        | nil => rw [List.flatMap_nil, List.append_nil, words_of_word hr hall, words_nil]
        | cons s others =>
          -- The next run starts with a character that ends this word.
          obtain ⟨⟨_, hs, hturn⟩, _⟩ := List.isChain_cons_cons.mp h.turns
          have hhead : isWord (s.head hs) = false := by simpa [hword] using hturn
          obtain ⟨c, tail, hs', hc⟩ : ∃ c tail, (if blank s then [' '] else s) = c :: tail ∧
              isWord c = false := by
            split
            · exact ⟨_, _, rfl, isWord_space⟩
            · exact ⟨_, _, (List.cons_head_tail hs).symm, hhead⟩
          rw [List.flatMap_cons, hs', List.cons_append, words_append_cons _ _ hc,
            words_of_word hr hall, words_cons _ hc]
          rfl
    · have hall : ∀ c ∈ r, isWord c = false := fun c hc =>
        (h.alike r (.head _) c hc _ (List.getLast_mem hr)).trans (Bool.eq_false_iff.mpr hword)
      have hplain : r.all isWord = false :=
        List.all_eq_false.mpr ⟨_, List.getLast_mem hr, hword⟩
      rw [hplain, Bool.false_and, if_neg Bool.false_ne_true, words_append_left, ih h.tail]
      split
      · exact List.forall_mem_singleton.mpr isWord_space
      · exact hall

theorem words_eq_filter (cs : List Char) :
    words cs = (cs.splitBy fun a b => isWord a == isWord b).filter (·.all isWord) := by
  have h := words_replace (fun _ => false) (alternates_splitBy cs)
  simp only [Bool.false_eq_true, if_false, List.flatMap_id', List.flatten_splitBy, Bool.not_false,
    Bool.and_true] at h
  exact h

theorem words_dropKeywords (cs : List Char) :
    words (dropKeywords cs) = (words cs).filter (!keywords.contains ·) := by
  rw [words_eq_filter cs, List.filter_filter]
  refine (words_replace keywords.contains (alternates_splitBy cs)).trans ?_
  simp only [Bool.and_comm]

theorem dropKeywords_eq_self {cs : List Char} (h : ∀ w ∈ words cs, w ∉ keywords) :
    dropKeywords cs = cs := by
  have hword : ∀ w ∈ keywords, w.all isWord = true := by decide
  unfold dropKeywords
  conv_rhs => rw [← List.flatten_splitBy (fun a b => isWord a == isWord b) cs]
  rw [List.flatMap_def]
  congr 1
  refine (List.map_congr_left fun r hr => if_neg fun hkey => ?_).trans (List.map_id _)
  rw [List.contains_iff_mem] at hkey
  refine h r ?_ hkey
  rw [words_eq_filter]
  exact List.mem_filter.mpr ⟨hr, hword r hkey⟩

end Keywords

section Blanks

variable {cs : List Char} {c : Char}

theorem words_collapseBlanks (before cs : List Char) :
    words (before ++ collapseBlanks cs) = words (before ++ cs) := by
  -- A word may have begun before the characters that are left.
  induction cs generalizing before with
  | nil => rfl
  | cons c rest ih =>
    unfold collapseBlanks
    dsimp only
    split
    · rw [List.append_cons, List.append_cons before c rest]
      exact ih _
    · next hblank =>
      have hc : isWord c = false := isWord_of_isBlank (by simpa using hblank)
      have hrest := ih []
      rw [List.nil_append, List.nil_append] at hrest
      rw [words_append_cons _ _ hc, ← hrest]
      split
      · next hspace =>
        obtain ⟨tail, htail⟩ := List.head?_eq_some_iff.mp (beq_iff_eq.mp hspace)
        rw [htail, words_append_cons _ _ isWord_space, words_cons _ isWord_space]
      · exact words_append_cons _ _ isWord_space

theorem spaced_collapseBlanks (cs : List Char) : Spaced (collapseBlanks cs) := by
  induction cs with
  | nil => exact ⟨nofun, .nil⟩
  | cons c rest ih =>
    unfold collapseBlanks
    dsimp only
    split
    · next hplain =>
      have hc : isBlank c = false := by simpa using hplain
      refine ⟨List.forall_mem_cons.mpr ⟨fun h => ?_, ih.spaces⟩, ?_⟩
      · exact absurd (hc.symm.trans h) Bool.false_ne_true
      · refine List.isChain_cons.mpr ⟨fun d _ h => ?_, ih.single⟩
        exact absurd (hc.symm.trans h) Bool.false_ne_true
    · split
      · exact ih
      · next hspace =>
        refine ⟨List.forall_mem_cons.mpr ⟨fun _ => rfl, ih.spaces⟩, ?_⟩
        refine List.isChain_cons.mpr ⟨fun d hd _ => ?_, ih.single⟩
        by_contra hblank
        have := ih.spaces d (List.mem_of_head? hd) (by simpa using hblank)
        rw [hd, this] at hspace
        exact hspace rfl

theorem Spaced.collapseBlanks_eq (h : Spaced cs) : collapseBlanks cs = cs := by
  induction cs with
  | nil => rfl
  | cons c rest ih =>
    obtain ⟨hspaces, hsingle⟩ := h
    obtain ⟨hnext, hsingle⟩ := List.isChain_cons.mp hsingle
    obtain ⟨hc, hspaces⟩ := List.forall_mem_cons.mp hspaces
    unfold collapseBlanks
    dsimp only
    rw [ih ⟨hspaces, hsingle⟩]
    split
    · rfl
    · next hblank =>
      have hblank : isBlank c = true := by simpa using hblank
      rw [if_neg, hc hblank]
      intro hspace
      have := hnext ' ' (beq_iff_eq.mp hspace) hblank
      exact absurd (this.symm.trans isBlank_space) Bool.false_ne_true

theorem Spaced.part {ds : List Char} (h : Spaced cs) (hds : ds <:+: cs) : Spaced ds :=
  ⟨fun c hc => h.spaces c (hds.subset hc), h.single.infix hds⟩

theorem trimChars_eq (cs : List Char) :
    trimChars cs = (cs.dropWhile isBlank).rdropWhile isBlank := rfl

theorem words_trimChars (cs : List Char) : words (trimChars cs) = words cs := by
  have hleading (c : Char) (hc : c ∈ cs.takeWhile isBlank) : isWord c = false :=
    isWord_of_isBlank (List.mem_takeWhile_imp hc)
  have htrailing (c : Char) (hc : c ∈ (cs.dropWhile isBlank).rtakeWhile isBlank) :
      isWord c = false := isWord_of_isBlank (List.mem_rtakeWhile_imp hc)
  conv_rhs => rw [← List.takeWhile_append_dropWhile (p := isBlank) (l := cs)]
  rw [words_append_left _ hleading, trimChars_eq, ← words_append_right _ htrailing,
    List.rdropWhile_append_rtakeWhile]

theorem isInfix_trimChars (cs : List Char) : trimChars cs <:+: cs :=
  (List.rdropWhile_prefix _ _).isInfix.trans (List.dropWhile_suffix _).isInfix

theorem trimmed_trimChars (cs : List Char) : Trimmed (trimChars cs) := by
  rw [trimChars_eq]
  constructor
  · intro c hc
    obtain ⟨tail, htail⟩ := List.head?_eq_some_iff.mp hc
    obtain ⟨blanks, hblanks⟩ := List.rdropWhile_prefix isBlank (cs.dropWhile isBlank)
    have hfirst := List.head?_dropWhile_not isBlank cs
    rw [← hblanks, htail] at hfirst
    exact hfirst
  · intro c hc
    obtain ⟨hne, rfl⟩ := List.mem_getLast?_eq_getLast hc
    exact Bool.eq_false_iff.mpr (List.rdropWhile_last_not _ _ hne)

theorem Trimmed.trimChars_eq (h : Trimmed cs) : trimChars cs = cs := by
  have hfirst : cs.dropWhile isBlank = cs := by
    cases cs with
    | nil => rfl
    | cons c rest => exact List.dropWhile_cons_of_neg (by simp [h.first c rfl])
  rw [TypeName.trimChars_eq, hfirst, List.rdropWhile_eq_self_iff]
  intro hne
  simp [h.last _ (List.getLast?_eq_some_getLast hne)]

theorem words_tightenStars (before cs : List Char) :
    words (before ++ tightenStars cs) = words (before ++ cs) := by
  induction cs generalizing before with
  | nil => rfl
  | cons c rest ih =>
    unfold tightenStars
    dsimp only
    split
    · next hdrop =>
      obtain ⟨hblank, hstar⟩ := (Bool.and_eq_true _ _).mp hdrop
      obtain ⟨tail, htail⟩ := List.head?_eq_some_iff.mp (beq_iff_eq.mp hstar)
      have hrest := ih []
      rw [List.nil_append, List.nil_append] at hrest
      rw [words_append_cons _ _ (isWord_of_isBlank hblank), ← hrest, htail,
        words_append_cons _ _ isWord_star, words_cons _ isWord_star]
    · rw [List.append_cons, List.append_cons before c rest]
      exact ih _

theorem tight_tightenStars (cs : List Char) : Tight (tightenStars cs) := by
  induction cs with
  | nil => exact .nil
  | cons c rest ih =>
    unfold tightenStars
    dsimp only
    split
    · exact ih
    · next hkeep =>
      refine List.isChain_cons.mpr ⟨?_, ih⟩
      rintro d hd hblank rfl
      rw [hblank, hd] at hkeep
      exact hkeep rfl

theorem Tight.tightenStars_eq (h : Tight cs) : tightenStars cs = cs := by
  induction cs with
  | nil => rfl
  | cons c rest ih =>
    obtain ⟨hnext, hrest⟩ := List.isChain_cons.mp h
    unfold tightenStars
    dsimp only
    rw [ih hrest, if_neg]
    intro hdrop
    obtain ⟨hblank, hstar⟩ := (Bool.and_eq_true _ _).mp hdrop
    exact hnext '*' (beq_iff_eq.mp hstar) hblank rfl

theorem tightenStars_subset (cs : List Char) : tightenStars cs ⊆ cs := by
  induction cs with
  | nil => exact List.nil_subset _
  | cons c rest ih =>
    unfold tightenStars
    dsimp only
    split
    · exact List.subset_cons_of_subset c ih
    · exact List.cons_subset_cons c ih

theorem single_tightenStars
    (h : (c :: cs).IsChain fun a b => isBlank a = true → isBlank b = false) :
    (c :: tightenStars cs).IsChain fun a b => isBlank a = true → isBlank b = false := by
  -- What comes to stand behind a character is what stood there, or a star.
  induction cs generalizing c with
  | nil => exact h
  | cons d rest ih =>
    obtain ⟨hcd, hrest⟩ := List.isChain_cons_cons.mp h
    have htail := ih hrest
    unfold tightenStars
    dsimp only
    split
    · next hdrop =>
      obtain ⟨_, hstar⟩ := (Bool.and_eq_true _ _).mp hdrop
      refine List.isChain_cons.mpr ⟨fun e he _ => ?_, htail.tail⟩
      obtain rfl : e = '*' := Option.some.inj (he.symm.trans (beq_iff_eq.mp hstar))
      exact isBlank_star
    · exact List.isChain_cons_cons.mpr ⟨hcd, htail⟩

theorem Spaced.tightenStars (h : Spaced cs) : Spaced (tightenStars cs) := by
  refine ⟨fun c hc => h.spaces c (tightenStars_subset cs hc), ?_⟩
  have hstart : ('*' :: cs).IsChain fun a b => isBlank a = true → isBlank b = false := by
    refine List.isChain_cons.mpr ⟨fun _ _ hstar => ?_, h.single⟩
    exact absurd (isBlank_star.symm.trans hstar) Bool.false_ne_true
  exact (single_tightenStars hstart).tail

theorem getLast?_tightenStars (cs : List Char) : (tightenStars cs).getLast? = cs.getLast? := by
  induction cs with
  | nil => rfl
  | cons c rest ih =>
    unfold TypeName.tightenStars
    dsimp only
    split
    · next hdrop =>
      obtain ⟨_, hstar⟩ := (Bool.and_eq_true _ _).mp hdrop
      obtain ⟨tail, htail⟩ := List.head?_eq_some_iff.mp (beq_iff_eq.mp hstar)
      rw [ih, List.getLast?_cons, ← ih, htail, List.getLast?_cons]
      rfl
    · rw [List.getLast?_cons, List.getLast?_cons, ih]

theorem Trimmed.tightenStars (h : Trimmed cs) : Trimmed (tightenStars cs) := by
  refine ⟨fun c hc => ?_, fun c hc => h.last c (by rwa [← getLast?_tightenStars])⟩
  cases cs with
  | nil => cases hc
  | cons d rest =>
    unfold TypeName.tightenStars at hc
    dsimp only at hc
    rw [h.first d rfl, Bool.false_and, if_neg Bool.false_ne_true] at hc
    exact h.first c hc

end Blanks

theorem normal_tightenStars {cs : List Char} (hspaced : Spaced cs)
    (hwords : ∀ w ∈ words cs, w ∉ keywords) : Normal (tightenStars (trimChars cs)) := by
  have hkept : words (tightenStars (trimChars cs)) = words cs :=
    (words_tightenStars [] _).trans (words_trimChars cs)
  refine ⟨hkept ▸ hwords, ?_, (trimmed_trimChars cs).tightenStars, tight_tightenStars _⟩
  exact (hspaced.part (isInfix_trimChars cs)).tightenStars

theorem normal_normalizeChars (cs : List Char) :
    normalizeChars cs = "enum".toList ∨ Normal (normalizeChars cs) := by
  unfold normalizeChars
  dsimp only
  split
  · next henum => exact .inl (beq_iff_eq.mp henum)
  · refine .inr (normal_tightenStars (spaced_collapseBlanks _) ?_)
    have hkept := words_collapseBlanks [] (dropKeywords (trimChars cs))
    rw [List.nil_append, List.nil_append, words_dropKeywords] at hkept
    intro w hw hkey
    rw [hkept] at hw
    have hother := (List.mem_filter.mp hw).2
    rw [List.contains_iff_mem.mpr hkey] at hother
    cases hother

theorem Normal.normalizeChars_eq {cs : List Char} (h : Normal cs) : normalizeChars cs = cs := by
  unfold normalizeChars
  dsimp only
  rw [h.trimmed.trimChars_eq, dropKeywords_eq_self h.words, h.spaced.collapseBlanks_eq,
    h.trimmed.trimChars_eq, h.tight.tightenStars_eq, ite_self]

theorem normalize_normalize (name : String) : normalize (normalize name) = normalize name := by
  have hchars : normalizeChars (normalizeChars name.toList) = normalizeChars name.toList := by
    rcases normal_normalizeChars name.toList with henum | hnormal
    · rw [henum]
      rfl
    · exact hnormal.normalizeChars_eq
  unfold normalize
  rw [String.toList_ofList, hchars]

end AggregateLayout.TypeName
