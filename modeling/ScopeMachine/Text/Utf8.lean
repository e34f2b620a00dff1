import ScopeMachine.Number.Numeral
import ScopeMachine.Text.Quoted

/-! Reading UTF-8. A sequence that is not well formed is reported with the bytes that could still
begin a character. -/
namespace ScopeMachine.Text

/-- Why bytes are not UTF-8. -/
inductive Utf8Flaw
  | start
  | continuation
  | ended
  deriving DecidableEq, Repr

/-- Bytes `first` to `last` cannot be read; `byte` is the first of them. -/
structure Utf8Error where
  flaw : Utf8Flaw
  byte : UInt8
  first : Nat
  last : Nat
  deriving DecidableEq, Repr

namespace Utf8Error

def reason (e : Utf8Error) : String :=
  match e.flaw with
  | .start => "invalid start byte"
  | .continuation => "invalid continuation byte"
  | .ended => "unexpected end of data"

def message (e : Utf8Error) : String :=
  let place :=
    if e.first = e.last then
      "byte 0x" ++ String.ofList (hex 2 e.byte.toNat) ++ " in position " ++ Numeral.ofNat e.first
    else "bytes in position " ++ Numeral.ofNat e.first ++ "-" ++ Numeral.ofNat e.last
  "'utf-8' codec can't decode " ++ place ++ ": " ++ e.reason

end Utf8Error

/-- What a lead byte announces: its payload and the ranges of the bytes that must follow. The
ranges after `E0`, `ED`, `F0` and `F4` leave out overlong forms, surrogates and codes past
`10FFFF`. -/
def utf8Lead (b : Nat) : Option (Nat × List (Nat × Nat)) :=
  let tail := (0x80, 0xbf)
  if b < 0x80 then some (b, [])
  else if b < 0xc2 then none
  else if b < 0xe0 then some (b - 0xc0, [tail])
  else if b == 0xe0 then some (0, [(0xa0, 0xbf), tail])
  else if b == 0xed then some (0xd, [(0x80, 0x9f), tail])
  else if b < 0xf0 then some (b - 0xe0, [tail, tail])
  else if b == 0xf0 then some (0, [(0x90, 0xbf), tail, tail])
  else if b < 0xf4 then some (b - 0xf0, [tail, tail, tail])
  else if b == 0xf4 then some (4, [(0x80, 0x8f), tail, tail])
  else none

/-- Reads the bytes after a lead byte. On failure it gives the flaw and how many bytes fitted. -/
def utf8Tail (payload : Nat) : List (Nat × Nat) → List UInt8 → Nat →
    Except (Utf8Flaw × Nat) (Nat × Nat)
  | [], _, fitted => .ok (payload, fitted)
  | _ :: _, [], fitted => .error (.ended, fitted)
  | (low, high) :: ranges, b :: bytes, fitted =>
    if low ≤ b.toNat && b.toNat ≤ high then
      utf8Tail (payload * 64 + (b.toNat - 0x80)) ranges bytes (fitted + 1)
    else .error (.continuation, fitted)

/-- Reads `bytes`, which stand at offset `position`, skipping the first `skip` of them because they
belong to a character that has been read. -/
def decodeUtf8From (position skip : Nat) : List UInt8 → Except Utf8Error (List Char)
  | [] => .ok []
  | b :: rest =>
    match skip with
    | n + 1 => decodeUtf8From (position + 1) n rest
    | 0 =>
      match utf8Lead b.toNat with
      | none => .error ⟨.start, b, position, position⟩
      | some (payload, ranges) =>
        match utf8Tail payload ranges rest 0 with
        | .error (flaw, fitted) => .error ⟨flaw, b, position, position + fitted⟩
        | .ok (code, fitted) =>
          (decodeUtf8From (position + 1) fitted rest).map (Char.ofNat code :: ·)

def decodeUtf8 (bytes : List UInt8) : Except Utf8Error (List Char) := decodeUtf8From 0 0 bytes

end ScopeMachine.Text
