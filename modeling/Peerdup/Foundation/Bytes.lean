import Mathlib.Data.List.Basic

/-! Byte strings and byte arrays of a fixed length. -/

set_option autoImplicit false

namespace Peerdup.Foundation

abbrev Bytes := List UInt8

/-- A byte array whose length is part of its type, as `[u8; N]`. -/
structure Octets (size : Nat) where
  bytes : Bytes
  length_bytes : bytes.length = size
deriving DecidableEq

namespace Octets

variable {size : Nat}

theorem ext {left right : Octets size} (same : left.bytes = right.bytes) : left = right := by
  cases left
  cases right
  cases same
  rfl

/-- Copy a byte string into a zeroed array. -/
def ofBytes (size : Nat) (bytes : Bytes) : Octets size where
  bytes := (bytes ++ List.replicate size 0).take size
  length_bytes := by simp

theorem bytes_ofBytes {bytes : Bytes} (exact_ : bytes.length = size) :
    (ofBytes size bytes).bytes = bytes := by
  simp [ofBytes, ← exact_]

@[simp] theorem ofBytes_bytes (octets : Octets size) : ofBytes size octets.bytes = octets :=
  ext (bytes_ofBytes octets.length_bytes)

/-- Arrays compare as their byte values do, position by position. -/
def key (octets : Octets size) : List Nat := octets.bytes.map UInt8.toNat

end Octets

end Peerdup.Foundation
