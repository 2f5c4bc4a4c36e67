/-!
Texts by the codes of their characters. An escape in a document can give half of a surrogate pair
on its own, which has a code but is no character. In a string a mark and a private character stand
for it, and two marks for the mark itself, so that every row of codes has a string of its own.
-/

namespace AggregateLayout.Text

def isHighHalf (code : Nat) : Bool := 0xd800 ≤ code && code < 0xdc00

def isLowHalf (code : Nat) : Bool := 0xdc00 ≤ code && code < 0xe000

def isHalf (code : Nat) : Bool := 0xd800 ≤ code && code < 0xe000

def markCode : Nat := 0xf0800

def mark : Char := Char.ofNat markCode

def halfDistance : Nat := 0xf0000 - 0xd800

def writeCode (code : Nat) : List Char :=
  if isHalf code then [mark, Char.ofNat (code + halfDistance)]
  else if code == markCode then [mark, mark]
  else [Char.ofNat code]

def ofCodes (codes : List Nat) : String := String.ofList (codes.flatMap writeCode)

def ofChars (cs : List Char) : String := ofCodes (cs.map Char.toNat)

def codesOf : List Char → List Nat
  | [] => []
  | [c] => [c.toNat]
  | c :: d :: rest =>
    if c != mark then c.toNat :: codesOf (d :: rest)
    else (if d == mark then markCode else d.toNat - halfDistance) :: codesOf rest

def codes (s : String) : List Nat := codesOf s.toList

def sortNames (names : List String) : List String :=
  names.mergeSort fun a b => !(codes b < codes a)

/-- Membership in the union of the half-open ranges whose bounds are listed in ascending order. -/
def inBounds : List Nat → Nat → Bool
  | first :: stop :: rest, code =>
    if code < first then false else code < stop || inBounds rest code
  | _, _ => false

/-- White space of every script, and the four information separators U+001C to U+001F. -/
def isBlank (c : Char) : Bool :=
  let code := c.toNat
  (9 ≤ code && code ≤ 13) || (28 ≤ code && code ≤ 32) || code == 0x85 || code == 0xa0 ||
    code == 0x1680 || (0x2000 ≤ code && code ≤ 0x200a) || code == 0x2028 || code == 0x2029 ||
    code == 0x202f || code == 0x205f || code == 0x3000

def trimChars (cs : List Char) : List Char :=
  ((cs.dropWhile isBlank).reverse.dropWhile isBlank).reverse

def trim (s : String) : String := String.ofList (trimChars s.toList)

def zeros : List Nat := [
  0x30, 0x660, 0x6f0, 0x7c0, 0x966, 0x9e6, 0xa66, 0xae6, 0xb66, 0xbe6, 0xc66, 0xce6, 0xd66,
  0xde6, 0xe50, 0xed0, 0xf20, 0x1040, 0x1090, 0x17e0, 0x1810, 0x1946, 0x19d0, 0x1a80, 0x1a90,
  0x1b50, 0x1bb0, 0x1c40, 0x1c50, 0xa620, 0xa8d0, 0xa900, 0xa9d0, 0xa9f0, 0xaa50, 0xabf0, 0xff10,
  0x104a0, 0x10d30, 0x11066, 0x110f0, 0x11136, 0x111d0, 0x112f0, 0x11450, 0x114d0, 0x11650,
  0x116c0, 0x11730, 0x118e0, 0x11950, 0x11c50, 0x11d50, 0x11da0, 0x16a60, 0x16ac0, 0x16b50,
  0x1d7ce, 0x1d7d8, 0x1d7e2, 0x1d7ec, 0x1d7f6, 0x1e140, 0x1e2f0, 0x1e950, 0x1fbf0]

def digitValue? (c : Char) : Option Nat :=
  if c.toNat < 128 then
    if c.isDigit then some (c.toNat - '0'.toNat) else none
  else
    (zeros.find? fun first => first ≤ c.toNat && c.toNat < first + 10).map (c.toNat - ·)

theorem isHalf_iff {code : Nat} : isHalf code = true ↔ 0xd800 ≤ code ∧ code < 0xe000 := by
  rw [isHalf, Bool.and_eq_true, decide_eq_true_eq, decide_eq_true_eq]

theorem toNat_ofNat {code : Nat} (h : isHalf code = false) (hc : code < 0x110000) :
    (Char.ofNat code).toNat = code := by
  rw [Bool.eq_false_iff, ne_eq, isHalf_iff] at h
  have hv : code.isValidChar := by simp only [Nat.isValidChar]; omega
  rw [Char.ofNat, dif_pos hv]
  rfl

theorem toNat_mark : mark.toNat = markCode := rfl

theorem ne_mark {c : Char} (h : c.toNat ≠ markCode) : c ≠ mark := fun he => h (he ▸ toNat_mark)

theorem codesOf_writeCode_append {code : Nat} (hc : code < 0x110000) (rest : List Char) :
    codesOf (writeCode code ++ rest) = code :: codesOf rest := by
  unfold writeCode
  split
  · rename_i hh
    rw [isHalf_iff] at hh
    have hn : (Char.ofNat (code + halfDistance)).toNat = code + halfDistance := by
      apply toNat_ofNat
      · rw [Bool.eq_false_iff, ne_eq, isHalf_iff]
        simp only [halfDistance]
        omega
      · simp only [halfDistance]
        omega
    have hm : Char.ofNat (code + halfDistance) ≠ mark :=
      ne_mark (by rw [hn]; simp only [halfDistance, markCode]; omega)
    simp only [List.cons_append, List.nil_append, codesOf, bne_self_eq_false, Bool.false_eq_true,
      if_false, beq_eq_false_iff_ne.mpr hm, hn, Nat.add_sub_cancel]
  · split
    · rename_i hm
      rw [beq_iff_eq] at hm
      simp only [List.cons_append, List.nil_append, codesOf, bne_self_eq_false,
        Bool.false_eq_true, if_false, beq_self_eq_true, if_true, hm]
    · rename_i hh hm
      have hn := toNat_ofNat (Bool.eq_false_iff.mpr hh) hc
      have hne : Char.ofNat code ≠ mark :=
        ne_mark (by rw [hn]; exact fun h => hm (beq_iff_eq.mpr h))
      cases rest <;>
        simp only [List.cons_append, List.nil_append, codesOf, bne_iff_ne.mpr hne, if_true, hn]

theorem codes_ofCodes {codes : List Nat} (h : ∀ code ∈ codes, code < 0x110000) :
    Text.codes (ofCodes codes) = codes := by
  rw [Text.codes, ofCodes, String.toList_ofList]
  induction codes with
  | nil => rfl
  | cons code rest ih =>
    rw [List.flatMap_cons, codesOf_writeCode_append (h code (by simp)),
      ih (fun c hc => h c (by simp [hc]))]

end AggregateLayout.Text
