import Mathlib.Algebra.Group.Nat.Defs
import Mathlib.Data.List.Basic

/-!
# Socket addresses in announces

Whether a text parses as a `SocketAddr`, reader by reader. A reader returns what it
leaves unread, and nothing when it fails.
-/

set_option autoImplicit false

namespace Peerdup.Daemon.Endpoint

def toDigit (radix : Nat) (letter : Char) : Option Nat :=
  let digit :=
    if letter.isDigit then letter.toNat - '0'.toNat
    else if letter.isAlpha then letter.toLower.toNat - 'a'.toNat + 10
    else radix
  if digit < radix then some digit else none

def readDigits (radix : Nat) : List Char → List Nat × List Char
  | [] => ([], [])
  | letter :: text =>
      match toDigit radix letter with
      | none => ([], letter :: text)
      | some digit =>
          let (digits, rest) := readDigits radix text
          (digit :: digits, rest)

/-- A number below `bound`. -/
def readNumber (radix bound : Nat) (maxDigits : Option Nat) (allowZeroPrefix : Bool)
    (text : List Char) : Option (List Char) :=
  let (digits, rest) := readDigits radix text
  if digits.isEmpty || maxDigits.any (· < digits.length) then none
  else if !allowZeroPrefix && digits.head? = some 0 && 1 < digits.length then none
  else if bound ≤ digits.foldl (fun value digit => value * radix + digit) 0 then none
  else some rest

def readGivenChar (target : Char) : List Char → Option (List Char)
  | [] => none
  | letter :: text => if letter = target then some text else none

/-- The separator stands before every item but the first. -/
def readSeparator (separator : Char) (index : Nat) (inner : List Char → Option (List Char))
    (text : List Char) : Option (List Char) :=
  if 0 < index then (readGivenChar separator text).bind inner else inner text

/-- `count` more groups of an IPv4 address. -/
def readIpv4Groups : Nat → Nat → List Char → Option (List Char)
  | 0, _, text => some text
  | count + 1, index, text =>
      (readSeparator '.' index (readNumber 10 (2 ^ 8) (some 3) false) text).bind fun text =>
        readIpv4Groups count (index + 1) text

def readIpv4Addr (text : List Char) : Option (List Char) := readIpv4Groups 4 0 text

/-- At most `room` groups of an IPv6 address from this index on: how many are there, and
whether an IPv4 address ends them. -/
def readGroups : Nat → Nat → List Char → Nat × Bool × List Char
  | 0, index, text => (index, false, text)
  | room + 1, index, text =>
      let ipv4 := if 0 < room then readSeparator ':' index readIpv4Addr text else none
      match ipv4 with
      | some text => (index + 2, true, text)
      | none =>
          match readSeparator ':' index (readNumber 16 (2 ^ 16) (some 4) true) text with
          | some text => readGroups room (index + 1) text
          | none => (index, false, text)

def readIpv6Addr (text : List Char) : Option (List Char) :=
  let (headSize, headIpv4, rest) := readGroups 8 0 text
  if headSize = 8 then some rest
  else if headIpv4 then none
  else (readGivenChar ':' rest).bind fun rest =>
    (readGivenChar ':' rest).map fun rest => (readGroups (8 - (headSize + 1)) 0 rest).2.2

def readPort (text : List Char) : Option (List Char) :=
  (readGivenChar ':' text).bind (readNumber 10 (2 ^ 16) none true)

def readScopeId (text : List Char) : Option (List Char) :=
  (readGivenChar '%' text).bind (readNumber 10 (2 ^ 32) none true)

def readSocketAddrV4 (text : List Char) : Option (List Char) := (readIpv4Addr text).bind readPort

def readSocketAddrV6 (text : List Char) : Option (List Char) :=
  (readGivenChar '[' text).bind fun text =>
    (readIpv6Addr text).bind fun text =>
      (readGivenChar ']' ((readScopeId text).getD text)).bind readPort

def readSocketAddr (text : List Char) : Option (List Char) :=
  (readSocketAddrV4 text).orElse fun _ => readSocketAddrV6 text

/-- `parse::<SocketAddr>().is_ok()`: all of the text is one address. -/
def isSocketAddr (text : String) : Bool := readSocketAddr text.toList = some []

example : isSocketAddr "127.0.0.1:4240" = true := by decide +kernel

example : isSocketAddr "[fe80::1%2]:4240" = true := by decide +kernel

example : isSocketAddr "localhost:4240" = false := by decide +kernel

end Peerdup.Daemon.Endpoint
