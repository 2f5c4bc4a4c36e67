import AggregateLayout.Text.Code
import AggregateLayout.Text.Quoted
import AggregateLayout.Text.Utf8

namespace AggregateLayout.Text.Utf8

structure EncodeFault where
  code : Nat
  position : Nat
  size : Nat
  deriving DecidableEq

def EncodeFault.message (f : EncodeFault) : String :=
  let shown := String.ofList ('\\' :: 'u' :: hexCode 4 f.code)
  let place :=
    if f.size ≤ 1 then s!"character '{shown}' in position {f.position}"
    else s!"characters in position {f.position}-{f.position + f.size - 1}"
  s!"'utf-8' codec can't encode {place}: surrogates not allowed"

def halfByte? (code : Nat) : Option UInt8 :=
  if 0xdc80 ≤ code && code < 0xdd00 then some (UInt8.ofNat (code - 0xdc00)) else none

def faultFrom (isWritten : Nat → Bool) (position : Nat) : List Nat → Option EncodeFault
  | [] => none
  | code :: rest =>
    if isHalf code && !isWritten code then
      some ⟨code, position, (rest.takeWhile isHalf).length + 1⟩
    else faultFrom isWritten (position + 1) rest

def fault? (s : String) : Option EncodeFault := faultFrom (fun _ => false) 0 (codes s)

def nameFault? (s : String) : Option EncodeFault :=
  faultFrom (fun code => (halfByte? code).isSome) 0 (codes s)

def codeBytes (code : Nat) : List UInt8 :=
  if isHalf code then (halfByte? code).toList else String.utf8EncodeChar (Char.ofNat code)

def bytes (s : String) : List UInt8 := (codes s).flatMap codeBytes

def nameCodes (bytes : List UInt8) : List Nat :=
  match bytes with
  | [] => []
  | first :: rest =>
    match character first rest with
    | (.ok c, taken) => c.toNat :: nameCodes (rest.drop taken)
    | (.error _, taken) =>
      (first :: rest.take taken).map (fun b => 0xdc00 + b.toNat) ++ nameCodes (rest.drop taken)
termination_by bytes.length
decreasing_by all_goals simp only [List.length_drop, List.length_cons]; omega

def name (bytes : List UInt8) : String := ofCodes (nameCodes bytes)

end AggregateLayout.Text.Utf8
