import Peerdup.Auth

/-! Member ids read from hex. `none` is a panic: a slice of a `str` inside a character. -/

set_option autoImplicit false

namespace Peerdup.Auth

open Foundation

/-- `char::to_digit(16)`, on a byte. -/
def hexDigit (byte : UInt8) : Option Nat :=
  if 0x30 ≤ byte ∧ byte ≤ 0x39 then some (byte.toNat - 0x30)
  else if 0x41 ≤ byte ∧ byte ≤ 0x46 then some (byte.toNat - 0x41 + 10)
  else if 0x61 ≤ byte ∧ byte ≤ 0x66 then some (byte.toNat - 0x61 + 10)
  else none

/-- `u8::from_str_radix` with radix 16, on two bytes. It takes a plus sign in front. -/
def hexByte (high low : UInt8) : Option UInt8 :=
  if high = 0x2B then (hexDigit low).map UInt8.ofNat
  else
    match hexDigit high, hexDigit low with
    | some high, some low => some (UInt8.ofNat (high * 16 + low))
    | _, _ => none

/-- Whether a character starts here, or the text ends. -/
def isCharBoundary : Bytes → Bool
  | [] => true
  | byte :: _ => byte < 0x80 || 0xC0 ≤ byte

/-- `from_hex`'s loop, from the byte at `index` on. -/
def fromHexFrom (index : Nat) : Bytes → Option (Except Failure Bytes)
  | [] => some (.ok [])
  | [_] => none
  | high :: low :: rest =>
      if !isCharBoundary (high :: low :: rest) || !isCharBoundary rest then none
      else
        match hexByte high low with
        | none => some (.error ["invalid hex byte at " ++ toString index])
        | some byte => (fromHexFrom (index + 2) rest).map (Except.map (byte :: ·))

def fromHex (text : String) : Option (Except Failure MemberId) :=
  let bytes := text.toUTF8.data.toList
  if bytes.length ≠ 64 then
    some (.error ["member id hex must be 64 chars (got " ++ toString bytes.length ++ ")"])
  else (fromHexFrom 0 bytes).map (Except.map (.ofBytes 32))

end Peerdup.Auth
