import Mathlib.Algebra.Group.Nat.Defs
import Mathlib.Tactic.Common

/-!
# Vector clocks

Per-peer edit counters, keyed by the peer's hex public key. An absent peer
counts as zero.
-/

set_option autoImplicit false

namespace Peerdup

structure VectorClock where
  counters : Std.TreeMap String UInt64

inductive ClockOrdering where
  | equal
  | selfDominates
  | otherDominates
  | concurrent
deriving DecidableEq

namespace VectorClock

def new : VectorClock := ⟨∅⟩

/-- `self.0.get(key).copied().unwrap_or(0)`. -/
def get (clock : VectorClock) (peer : String) : UInt64 :=
  clock.counters.getD peer 0

/-- The counter wraps at `2 ^ 64`, as the release build's `+= 1` does. -/
def increment (clock : VectorClock) (peer : String) : VectorClock :=
  ⟨clock.counters.insert peer (clock.get peer + 1)⟩

/-- The debug build's `+= 1`, where `none` is the overflow panic. -/
def incrementChecked (clock : VectorClock) (peer : String) : Option VectorClock :=
  if (clock.get peer).toNat + 1 < 2 ^ 64 then some (clock.increment peer) else none

/-- The body of `merge`'s loop: raise one entry to the other clock's value. -/
def mergeEntry (ours : Std.TreeMap String UInt64) (peer : String) (value : UInt64) :
    Std.TreeMap String UInt64 :=
  let our := ours.getD peer 0
  ours.insert peer (if value > our then value else our)

def merge (clock other : VectorClock) : VectorClock :=
  ⟨other.counters.foldl mergeEntry clock.counters⟩

protected def compare (clock other : VectorClock) : ClockOrdering :=
  let keys := clock.counters.keys ++ other.counters.keys
  let selfAhead := keys.any fun key => decide (clock.get key > other.get key)
  let otherAhead := keys.any fun key => decide (other.get key > clock.get key)
  match selfAhead, otherAhead with
  | false, false => .equal
  | true, false => .selfDominates
  | false, true => .otherDominates
  | true, true => .concurrent

end VectorClock

end Peerdup
