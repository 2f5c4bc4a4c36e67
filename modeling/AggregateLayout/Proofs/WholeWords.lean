import Mathlib
import AggregateLayout.Proofs.NormalNames

namespace AggregateLayout.TypeName

open AggregateLayout.Text

/-- The word is a part of the text, and no other word character is next to it. -/
def StandsIn (word cs : List Char) : Prop :=
  ∃ before after, cs = before ++ word ++ after ∧ (∀ c ∈ before.getLast?, isWord c = false) ∧
    ∀ c ∈ after.head?, isWord c = false

variable {word cs before after : List Char}

theorem words_append_of_head (h : ∀ c ∈ after.head?, isWord c = false) (cs : List Char) :
    words (cs ++ after) = words cs ++ words after := by
  cases after with
  | nil => rw [words_nil, List.append_nil, List.append_nil]
  | cons c rest => rw [words_append_cons _ _ (h c rfl), words_cons _ (h c rfl)]

theorem words_append_of_getLast (h : ∀ c ∈ before.getLast?, isWord c = false) (cs : List Char) :
    words (before ++ cs) = words before ++ words cs := by
  rcases List.eq_nil_or_concat before with rfl | ⟨rest, c, rfl⟩
  · rfl
  · rw [List.concat_eq_append] at h ⊢
    have hc : isWord c = false := h c List.getLast?_concat
    have hlast := words_append_cons rest [] hc
    rw [words_nil, List.append_nil] at hlast
    rw [List.append_assoc, List.singleton_append, words_append_cons _ _ hc, hlast]

theorem StandsIn.mem_words (h : StandsIn word cs) (hne : word ≠ [])
    (hword : ∀ c ∈ word, isWord c = true) : word ∈ words cs := by
  obtain ⟨before, after, rfl, hbefore, hafter⟩ := h
  rw [words_append_of_head hafter, words_append_of_getLast hbefore, words_of_word hne hword]
  simp

theorem Normal.not_standsIn (h : Normal cs) (hword : word ∈ keywords) : ¬ StandsIn word cs := by
  intro hstands
  have hletters : ∀ w ∈ keywords, w.isEmpty = false ∧ w.all isWord = true := by decide
  obtain ⟨hne, hall⟩ := hletters word hword
  have hmem := hstands.mem_words (List.isEmpty_eq_false_iff.mp hne) (List.all_eq_true.mp hall)
  exact h.words word hmem hword

theorem spacing_of_no_blanks (h : ∀ c ∈ cs, isBlank c = false) :
    Spaced cs ∧ Trimmed cs ∧ Tight cs := by
  have absent {c : Char} {P : Prop} (hc : c ∈ cs) (hblank : isBlank c = true) : P := by
    cases (h c hc).symm.trans hblank
  have first {a b : Char} {before after : List Char} (heq : cs = before ++ a :: b :: after) :
      a ∈ cs := by
    rw [heq]
    exact List.mem_append_right _ (.head _)
  refine ⟨⟨fun c hc => absent hc, ?_⟩, ⟨?_, ?_⟩, ?_⟩
  · refine List.isChain_iff_forall_rel_of_append_cons_cons.mpr fun a b _ _ heq => ?_
    exact absent (first heq)
  · exact fun c hc => h c (List.mem_of_head? hc)
  · exact fun c hc => h c (List.mem_of_getLast? hc)
  · refine List.isChain_iff_forall_rel_of_append_cons_cons.mpr fun a b _ _ heq => ?_
    exact absent (first heq)

theorem normalize_cleans (name : String) :
    normalize (normalize name) = normalize name ∧
    (∀ word ∈ keywords, StandsIn word (normalize name).toList → normalize name = "enum") ∧
    (∀ c ∈ (normalize name).toList.head?, isBlank c = false) ∧
    (∀ c ∈ (normalize name).toList.getLast?, isBlank c = false) ∧
    ∀ before a b after, (normalize name).toList = before ++ a :: b :: after →
      isBlank a = true → isBlank b = false ∧ b ≠ '*' := by
  have hchars : (normalize name).toList = normalizeChars name.toList := String.toList_ofList
  have hkeyword : ∀ word ∈ keywords, StandsIn word (normalize name).toList →
      normalize name = "enum" := by
    intro word hword hstands
    rw [hchars] at hstands
    rcases normal_normalizeChars name.toList with henum | hnormal
    · rw [normalize, henum, String.ofList_toList]
    · exact absurd hstands (hnormal.not_standsIn hword)
  obtain ⟨hspaced, htrimmed, htight⟩ : Spaced (normalize name).toList ∧
      Trimmed (normalize name).toList ∧ Tight (normalize name).toList := by
    rw [hchars]
    rcases normal_normalizeChars name.toList with henum | hnormal
    · rw [henum]
      have hletters : "enum".toList.all (!isBlank ·) = true := by decide
      exact spacing_of_no_blanks (by simpa using hletters)
    · exact ⟨hnormal.spaced, hnormal.trimmed, hnormal.tight⟩
  refine ⟨normalize_normalize name, hkeyword, htrimmed.first, htrimmed.last, ?_⟩
  intro before a b after heq hblank
  exact ⟨List.isChain_iff_forall_rel_of_append_cons_cons.mp hspaced.single heq hblank,
    List.isChain_iff_forall_rel_of_append_cons_cons.mp htight heq hblank⟩

example : normalize " volatile struct const_node  * const * " = "const_node**" := by decide +kernel

end AggregateLayout.TypeName
