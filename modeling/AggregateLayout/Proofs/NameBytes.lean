import Mathlib
import AggregateLayout.Text.Utf8.Encode

namespace AggregateLayout.Text.Utf8

variable {first : UInt8} {rest : List UInt8}

theorem continuation_succ_eq_ok {code low high taken count result n : Nat}
    (h : continuation code low high taken (count + 1) rest = (.ok result, n)) :
    ∃ b others, rest = b :: others ∧ low ≤ b.toNat ∧ b.toNat ≤ high ∧
      continuation (code * 64 + b.toNat % 64) 0x80 0xbf (taken + 1) count others =
        (.ok result, n) := by
  cases rest with
  | nil => simp [continuation] at h
  | cons b others =>
    rw [continuation] at h
    split at h
    · next hb =>
      rw [Bool.and_eq_true, decide_eq_true_eq, decide_eq_true_eq] at hb
      exact ⟨b, others, rfl, hb.1, hb.2, h⟩
    · simp at h

theorem continuation_zero_eq_ok {code low high taken result n : Nat}
    (h : continuation code low high taken 0 rest = (.ok result, n)) :
    code = result ∧ taken = n := by
  simpa [continuation] using h

theorem le_of_mem_take_continuation {reason : Reason} {code low high taken count n : Nat}
    (hlow : 0x80 ≤ low) (h : continuation code low high taken count rest = (.error reason, n)) :
    taken ≤ n ∧ ∀ b ∈ rest.take (n - taken), 0x80 ≤ b.toNat := by
  induction count generalizing code low high taken rest with
  | zero => simp [continuation] at h
  | succ count ih =>
    cases rest with
    | nil =>
      obtain ⟨-, rfl⟩ : _ ∧ taken = n := by simpa [continuation] using h
      simp
    | cons b others =>
      rw [continuation] at h
      split at h
      · next hb =>
        rw [Bool.and_eq_true, decide_eq_true_eq, decide_eq_true_eq] at hb
        obtain ⟨hle, hothers⟩ := ih (le_refl _) h
        refine ⟨by omega, ?_⟩
        have hn : n - taken = (n - (taken + 1)) + 1 := by omega
        rw [hn, List.take_succ_cons, List.forall_mem_cons]
        exact ⟨hlow.trans hb.1, hothers⟩
      · obtain ⟨-, rfl⟩ : _ ∧ taken = n := by simpa using h
        simp

theorem following_cases {b low high count : Nat} (h : following b = some (low, high, count)) :
    (count = 1 ∧ 0xc2 ≤ b ∧ b < 0xe0 ∧ low = 0x80 ∧ high = 0xbf) ∨
    (count = 2 ∧ 0xe0 ≤ b ∧ b < 0xf0 ∧ 0x80 ≤ low ∧ high ≤ 0xbf ∧ (b = 0xe0 → 0xa0 ≤ low) ∧
      (b = 0xed → high ≤ 0x9f)) ∨
    (count = 3 ∧ 0xf0 ≤ b ∧ b ≤ 0xf4 ∧ 0x80 ≤ low ∧ high ≤ 0xbf ∧ (b = 0xf0 → 0x90 ≤ low) ∧
      (b = 0xf4 → high ≤ 0x8f)) := by
  unfold following at h
  simp only [beq_iff_eq] at h
  split_ifs at h <;> simp only [Option.some.injEq, Prod.mk.injEq] at h <;> omega

theorem ofNat_eq {b : UInt8} {n : Nat} (h : n = b.toNat) : UInt8.ofNat n = b := by
  rw [h, UInt8.ofNat_toNat]

theorem codeBytes_eq {code : Nat} (hhalf : isHalf code = false) (hcode : code < 0x110000) :
    codeBytes code =
      if code ≤ 127 then [UInt8.ofNat code]
      else if code ≤ 2047 then [UInt8.ofNat (code / 64 % 32 + 192), UInt8.ofNat (code % 64 + 128)]
      else if code ≤ 65535 then
        [UInt8.ofNat (code / 4096 % 16 + 224), UInt8.ofNat (code / 64 % 64 + 128),
          UInt8.ofNat (code % 64 + 128)]
      else
        [UInt8.ofNat (code / 262144 % 8 + 240), UInt8.ofNat (code / 4096 % 64 + 128),
          UInt8.ofNat (code / 64 % 64 + 128), UInt8.ofNat (code % 64 + 128)] := by
  have hn : (Char.ofNat code).val.toNat = code := toNat_ofNat hhalf hcode
  rw [codeBytes, hhalf, if_neg Bool.false_ne_true, String.utf8EncodeChar, hn]

theorem isHalf_eq_false {code : Nat} (h : code < 0xd800 ∨ 0xe000 ≤ code) :
    isHalf code = false := by
  rw [Bool.eq_false_iff, ne_eq, isHalf_iff]
  omega

theorem codeBytes_ofByte {b : UInt8} (h : 0x80 ≤ b.toNat) : codeBytes (0xdc00 + b.toNat) = [b] := by
  have hb := b.toNat_lt
  have hhalf : isHalf (0xdc00 + b.toNat) = true := by rw [isHalf_iff]; omega
  have hlow : 0xdc80 ≤ 0xdc00 + b.toNat := by omega
  have hhigh : 0xdc00 + b.toNat < 0xdd00 := by omega
  simp only [codeBytes, hhalf, if_true, halfByte?, hlow, hhigh, decide_true, Bool.and_self,
    Nat.add_sub_cancel_left, UInt8.ofNat_toNat, Option.toList_some]

def leading (count : Nat) (first : UInt8) : Nat :=
  if count == 1 then first.toNat % 32 else if count == 2 then first.toNat % 16 else first.toNat % 8

theorem character_eq_of_lt (h : first.toNat < 0x80) :
    character first rest = (.ok (Char.ofNat first.toNat), 0) := by
  simp only [character, if_pos h]

theorem character_eq_of_none (h : 0x80 ≤ first.toNat) (hnone : following first.toNat = none) :
    character first rest = (.error .start, 0) := by
  simp only [character, if_neg (Nat.not_lt.mpr h), hnone]

theorem character_eq_of_some {low high count : Nat} (h : 0x80 ≤ first.toNat)
    (hsome : following first.toNat = some (low, high, count)) :
    character first rest =
      let (result, taken) := continuation (leading count first) low high 0 count rest
      (result.map Char.ofNat, taken) := by
  simp only [character, if_neg (Nat.not_lt.mpr h), hsome, leading]

theorem codeBytes_of_following {low high count code taken : Nat}
    (hfollowing : following first.toNat = some (low, high, count))
    (hcode : continuation (leading count first) low high 0 count rest = (.ok code, taken)) :
    codeBytes (Char.ofNat code).toNat = first :: rest.take taken := by
  have hfirst := first.toNat_lt
  -- for two, three and four bytes the bounds keep the code in the range that is written so
  rcases following_cases hfollowing with ⟨rfl, h1, h2, rfl, rfl⟩ |
    ⟨rfl, h1, h2, hlow, hhigh, hleast, hgreatest⟩ | ⟨rfl, h1, h2, hlow, hhigh, hleast, hgreatest⟩
  · obtain ⟨b, others, rfl, hb1, hb2, hcode⟩ := continuation_succ_eq_ok hcode
    obtain ⟨rfl, rfl⟩ := continuation_zero_eq_ok hcode
    have hleading : leading 1 first = first.toNat % 32 := rfl
    rw [toNat_ofNat (isHalf_eq_false (by omega)) (by omega),
      codeBytes_eq (isHalf_eq_false (by omega)) (by omega), if_neg (by omega), if_pos (by omega),
      ofNat_eq (b := first) (by omega), ofNat_eq (b := b) (by omega)]
    rfl
  · obtain ⟨b, others, rfl, hb1, hb2, hcode⟩ := continuation_succ_eq_ok hcode
    obtain ⟨d, others, rfl, hd1, hd2, hcode⟩ := continuation_succ_eq_ok hcode
    obtain ⟨rfl, rfl⟩ := continuation_zero_eq_ok hcode
    have hleading : leading 2 first = first.toNat % 16 := rfl
    rw [toNat_ofNat (isHalf_eq_false (by omega)) (by omega),
      codeBytes_eq (isHalf_eq_false (by omega)) (by omega), if_neg (by omega), if_neg (by omega),
      if_pos (by omega), ofNat_eq (b := first) (by omega), ofNat_eq (b := b) (by omega),
      ofNat_eq (b := d) (by omega)]
    rfl
  · obtain ⟨b, others, rfl, hb1, hb2, hcode⟩ := continuation_succ_eq_ok hcode
    obtain ⟨d, others, rfl, hd1, hd2, hcode⟩ := continuation_succ_eq_ok hcode
    obtain ⟨e, others, rfl, he1, he2, hcode⟩ := continuation_succ_eq_ok hcode
    obtain ⟨rfl, rfl⟩ := continuation_zero_eq_ok hcode
    have hleading : leading 3 first = first.toNat % 8 := rfl
    rw [toNat_ofNat (isHalf_eq_false (by omega)) (by omega),
      codeBytes_eq (isHalf_eq_false (by omega)) (by omega), if_neg (by omega), if_neg (by omega),
      if_neg (by omega), ofNat_eq (b := first) (by omega), ofNat_eq (b := b) (by omega),
      ofNat_eq (b := d) (by omega), ofNat_eq (b := e) (by omega)]
    rfl

theorem codeBytes_character {c : Char} {taken : Nat} (h : character first rest = (.ok c, taken)) :
    codeBytes c.toNat = first :: rest.take taken := by
  rcases Nat.lt_or_ge first.toNat 0x80 with hfirst | hfirst
  · rw [character_eq_of_lt hfirst] at h
    obtain ⟨rfl, rfl⟩ : Char.ofNat first.toNat = c ∧ 0 = taken := by simpa using h
    have hhalf : isHalf first.toNat = false := isHalf_eq_false (by omega)
    rw [toNat_ofNat hhalf (by omega), codeBytes_eq hhalf (by omega), if_pos (by omega),
      ofNat_eq rfl, List.take_zero]
  · cases hfollowing : following first.toNat with
    | none => simp [character_eq_of_none hfirst hfollowing] at h
    | some bounds =>
      obtain ⟨low, high, count⟩ := bounds
      rw [character_eq_of_some hfirst hfollowing] at h
      generalize hread : continuation (leading count first) low high 0 count rest = read at h
      obtain ⟨result, n⟩ := read
      cases result with
      | error => simp [Except.map] at h
      | ok code =>
        obtain ⟨rfl, rfl⟩ : Char.ofNat code = c ∧ n = taken := by simpa [Except.map] using h
        exact codeBytes_of_following hfollowing hread

theorem le_of_character_eq_error {reason : Reason} {taken : Nat}
    (h : character first rest = (.error reason, taken)) :
    ∀ b ∈ first :: rest.take taken, 0x80 ≤ b.toNat := by
  rcases Nat.lt_or_ge first.toNat 0x80 with hfirst | hfirst
  · simp [character_eq_of_lt hfirst] at h
  · rw [List.forall_mem_cons]
    refine ⟨hfirst, ?_⟩
    cases hfollowing : following first.toNat with
    | none =>
      rw [character_eq_of_none hfirst hfollowing] at h
      obtain ⟨-, rfl⟩ : _ ∧ 0 = taken := by simpa using h
      simp
    | some bounds =>
      obtain ⟨low, high, count⟩ := bounds
      have hlow : 0x80 ≤ low := by rcases following_cases hfollowing with h | h | h <;> omega
      rw [character_eq_of_some hfirst hfollowing] at h
      generalize hread : continuation (leading count first) low high 0 count rest = read at h
      obtain ⟨result, n⟩ := read
      cases result with
      | ok => simp [Except.map] at h
      | error r =>
        obtain ⟨-, rfl⟩ : _ ∧ n = taken := by simpa [Except.map] using h
        exact (le_of_mem_take_continuation hlow hread).2

theorem toNat_lt (c : Char) : c.toNat < 0x110000 := by
  have h : c.toNat.isValidChar := c.valid
  simp only [Nat.isValidChar] at h
  omega

theorem nameCodes_lt (bs : List UInt8) : ∀ code ∈ nameCodes bs, code < 0x110000 := by
  induction bs using nameCodes.induct with
  | case1 => simp [nameCodes]
  | case2 first rest c taken hc ih =>
    rw [nameCodes, hc, List.forall_mem_cons]
    exact ⟨toNat_lt c, ih⟩
  | case3 first rest reason taken he ih =>
    rw [nameCodes, he]
    intro code hcode
    rcases List.mem_append.mp hcode with h | h
    · obtain ⟨b, -, rfl⟩ := List.mem_map.mp h
      have := b.toNat_lt
      omega
    · exact ih code h

theorem flatMap_codeBytes_nameCodes (bs : List UInt8) : (nameCodes bs).flatMap codeBytes = bs := by
  induction bs using nameCodes.induct with
  | case1 => simp [nameCodes]
  | case2 first rest c taken hc ih =>
    rw [nameCodes, hc, List.flatMap_cons, ih, codeBytes_character hc, List.cons_append,
      List.take_append_drop]
  | case3 first rest reason taken he ih =>
    have hle := le_of_character_eq_error he
    have hbytes : ((first :: rest.take taken).map (fun b => 0xdc00 + b.toNat)).flatMap codeBytes =
        first :: rest.take taken := by
      rw [List.flatMap_map, List.flatMap_congr fun b hb => codeBytes_ofByte (hle b hb),
        List.flatMap_singleton']
    rw [nameCodes, he, List.flatMap_append, ih, hbytes, List.cons_append, List.take_append_drop]

theorem bytes_name (bs : List UInt8) : bytes (name bs) = bs := by
  rw [bytes, name, codes_ofCodes (nameCodes_lt bs), flatMap_codeBytes_nameCodes]

theorem name_inj {as bs : List UInt8} : name as = name bs ↔ as = bs :=
  (Function.LeftInverse.injective bytes_name).eq_iff

end AggregateLayout.Text.Utf8
