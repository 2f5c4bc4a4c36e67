namespace AggregateLayout.Text.Utf8

inductive Reason where
  | start
  | continuation
  | ended
  deriving DecidableEq

def Reason.text : Reason → String
  | .start => "invalid start byte"
  | .continuation => "invalid continuation byte"
  | .ended => "unexpected end of data"

structure Fault where
  byte : UInt8
  position : Nat
  size : Nat
  reason : Reason
  deriving DecidableEq

def Fault.message (f : Fault) : String :=
  let place :=
    if f.size ≤ 1 then
      s!"byte 0x{String.ofList (byteDigits f.byte.toNat)} in position {f.position}"
    else s!"bytes in position {f.position}-{f.position + f.size - 1}"
  s!"'utf-8' codec can't decode {place}: {f.reason.text}"
where
  byteDigits (n : Nat) : List Char := [Nat.digitChar (n / 16), Nat.digitChar (n % 16)]

def following (first : Nat) : Option (Nat × Nat × Nat) :=
  if first < 0xc2 then none
  else if first < 0xe0 then some (0x80, 0xbf, 1)
  else if first == 0xe0 then some (0xa0, 0xbf, 2)
  else if first == 0xed then some (0x80, 0x9f, 2)
  else if first < 0xf0 then some (0x80, 0xbf, 2)
  else if first == 0xf0 then some (0x90, 0xbf, 3)
  else if first < 0xf4 then some (0x80, 0xbf, 3)
  else if first == 0xf4 then some (0x80, 0x8f, 3)
  else none

/-- Reads `count` more bytes of a character. Gives the code, or the reason it breaks off, and how
many bytes were good. -/
def continuation (code low high taken : Nat) : Nat → List UInt8 → Except Reason Nat × Nat
  | 0, _ => (.ok code, taken)
  | _ + 1, [] => (.error .ended, taken)
  | count + 1, b :: rest =>
    if low ≤ b.toNat && b.toNat ≤ high then
      continuation (code * 64 + b.toNat % 64) 0x80 0xbf (taken + 1) count rest
    else (.error .continuation, taken)

def character (first : UInt8) (rest : List UInt8) : Except Reason Char × Nat :=
  let b := first.toNat
  if b < 0x80 then (.ok (Char.ofNat b), 0)
  else
    match following b with
    | none => (.error .start, 0)
    | some (low, high, count) =>
      let code := if count == 1 then b % 32 else if count == 2 then b % 16 else b % 8
      let (result, taken) := continuation code low high 0 count rest
      (result.map Char.ofNat, taken)

def decodeFrom (position : Nat) (bytes : List UInt8) : Except Fault (List Char) :=
  match bytes with
  | [] => .ok []
  | first :: rest =>
    match character first rest with
    | (.ok c, taken) => (decodeFrom (position + taken + 1) (rest.drop taken)).map (c :: ·)
    | (.error reason, taken) => .error ⟨first, position, taken + 1, reason⟩
termination_by bytes.length
decreasing_by simp only [List.length_drop, List.length_cons]; omega

def decode (bytes : List UInt8) : Except Fault (List Char) := decodeFrom 0 bytes

def decodeLossy (bytes : List UInt8) : List Char :=
  match bytes with
  | [] => []
  | first :: rest =>
    match character first rest with
    | (.ok c, taken) => c :: decodeLossy (rest.drop taken)
    | (.error _, taken) => Char.ofNat 0xfffd :: decodeLossy (rest.drop taken)
termination_by bytes.length
decreasing_by all_goals simp only [List.length_drop, List.length_cons]; omega

def unifyLineEnds : List Char → List Char
  | '\r' :: '\n' :: rest => '\n' :: unifyLineEnds rest
  | '\r' :: rest => '\n' :: unifyLineEnds rest
  | c :: rest => c :: unifyLineEnds rest
  | [] => []

def decodeLines (bytes : List UInt8) : Except Fault (List Char) :=
  (decode bytes).map unifyLineEnds

end AggregateLayout.Text.Utf8
