import Peerdup.Auth

/-! Membership operations received over gossip, as `apply_auth_ops` handles them. -/

set_option autoImplicit false

namespace Peerdup.Daemon

open Foundation Auth

variable {crdt : GroupCrdt} (crypto : Primitives)

/-- One operation of a payload. A malformed or rejected one is only logged. -/
def applyRaw (applied : Nat) (state : AuthState crdt) (raw : Bytes) : Nat × AuthState crdt :=
  match SignedOp.decode raw with
  | none => (applied, state)
  | some op =>
      match state.applyRemote crypto op with
      | (.ok true, state) => (applied + 1, state)
      | (.ok false, state) => (applied, state)
      | (.error _, state) => (applied, state)

def applyPayload (applied : Nat) (state : AuthState crdt) : List Bytes → Nat × AuthState crdt
  | [] => (applied, state)
  | raw :: payload =>
      let (applied, state) := applyRaw crypto applied state raw
      applyPayload applied state payload

/-- How many operations were applied, the state, and `auth.log` as it is then on disk. -/
def applyAuthOps (state : AuthState crdt) (authLog : Option (List SignedOp))
    (payload : List Bytes) : Nat × AuthState crdt × Option (List SignedOp) :=
  let (applied, state) := applyPayload crypto 0 state payload
  (applied, state, if applied > 0 then some state.ops else authLog)

end Peerdup.Daemon
