import Peerdup.Foundation.Codec
import Peerdup.Foundation.Path
import Peerdup.Primitives

/-!
# Per-share membership

Signed operations over a group CRDT, applied in causal order. The CRDT itself is a
parameter: `AuthState` only relies on its `process`, `heads` and `members`.
-/

set_option autoImplicit false

namespace Peerdup.Auth

open Foundation

/-- The raw Ed25519 public key of a peer. -/
abbrev MemberId := Octets 32

abbrev OpId := Octets 32

instance : LawfulBEq OpId := inferInstance

inductive AccessLevel where
  | pull
  | read
  | write
  | manage
deriving DecidableEq

/-- `Access<()>`. -/
structure Access where
  conditions : Option Unit
  level : AccessLevel
deriving DecidableEq

inductive AuthRole where
  | owner
  | writer
  | reader
deriving DecidableEq

namespace AuthRole

def toAccess : AuthRole → Access
  | .owner => ⟨none, .manage⟩
  | .writer => ⟨none, .write⟩
  | .reader => ⟨none, .read⟩

def fromAccess (access : Access) : AuthRole :=
  match access.level with
  | .manage => .owner
  | .write => .writer
  | .read => .reader
  | .pull => .reader

@[simp] theorem fromAccess_toAccess (role : AuthRole) : fromAccess role.toAccess = role := by
  cases role <;> rfl

end AuthRole

inductive GroupMember where
  | individual (id : MemberId)
  | group (id : MemberId)
deriving DecidableEq

inductive GroupAction where
  | create (initialMembers : List (GroupMember × Access))
  | add (member : GroupMember) (access : Access)
  | remove (member : GroupMember)
  | promote (member : GroupMember) (access : Access)
  | demote (member : GroupMember) (access : Access)
deriving DecidableEq

structure GroupControlMessage where
  groupId : MemberId
  action : GroupAction
deriving DecidableEq

structure SignedOp where
  author : MemberId
  deps : List OpId
  payload : GroupControlMessage
  signature : Octets 64
deriving DecidableEq

section Encoding

open Codec

def accessLevelCodec : Codec AccessLevel :=
  variants
    (fun
      | .pull => 0
      | .read => 1
      | .write => 2
      | .manage => 3)
    (fun
      | 0 => some (unit.via (fun _ => ()) fun _ => some .pull)
      | 1 => some (unit.via (fun _ => ()) fun _ => some .read)
      | 2 => some (unit.via (fun _ => ()) fun _ => some .write)
      | 3 => some (unit.via (fun _ => ()) fun _ => some .manage)
      | _ => none)

def accessCodec : Codec Access :=
  ((option unit).pair accessLevelCodec).via (fun access => (access.conditions, access.level))
    fun (conditions, level) => some ⟨conditions, level⟩

def GroupMember.id : GroupMember → MemberId
  | .individual id => id
  | .group id => id

def groupMemberCodec : Codec GroupMember :=
  variants
    (fun
      | .individual _ => 0
      | .group _ => 1)
    (fun
      | 0 => some ((octets 32).via GroupMember.id (some ∘ .individual))
      | 1 => some ((octets 32).via GroupMember.id (some ∘ .group))
      | _ => none)

namespace GroupAction

def initialMembers : GroupAction → List (GroupMember × Access)
  | .create initialMembers => initialMembers
  | _ => []

def member? : GroupAction → Option GroupMember
  | .create _ => none
  | .add member _ | .remove member | .promote member _ | .demote member _ => some member

def access? : GroupAction → Option Access
  | .create _ | .remove _ => none
  | .add _ access | .promote _ access | .demote _ access => some access

/-- The action gives no group access to a group. -/
def AddsNoGroup : GroupAction → Prop
  | .create initialMembers => ∀ entry ∈ initialMembers, ∃ id, entry.1 = .individual id
  | .add member _ => ∃ id, member = .individual id
  | _ => True

end GroupAction

/-- The target of an action, with a placeholder where the variant has none. -/
private def target (action : GroupAction) : GroupMember :=
  action.member?.getD (.individual (.ofBytes 32 []))

private def targetAccess (action : GroupAction) : GroupMember × Access :=
  (target action, action.access?.getD ⟨none, .pull⟩)

def groupActionCodec : Codec GroupAction :=
  let change := groupMemberCodec.pair accessCodec
  variants
    (fun
      | .create _ => 0
      | .add _ _ => 1
      | .remove _ => 2
      | .promote _ _ => 3
      | .demote _ _ => 4)
    (fun
      | 0 => some (change.seq.via GroupAction.initialMembers (some ∘ .create))
      | 1 => some (change.via targetAccess fun (member, access) => some (.add member access))
      | 2 => some (groupMemberCodec.via target (some ∘ .remove))
      | 3 => some (change.via targetAccess fun (member, access) => some (.promote member access))
      | 4 => some (change.via targetAccess fun (member, access) => some (.demote member access))
      | _ => none)

def controlMessageCodec : Codec GroupControlMessage :=
  ((octets 32).pair groupActionCodec).via (fun payload => (payload.groupId, payload.action))
    fun (groupId, action) => some ⟨groupId, action⟩

/-- What a signature covers. -/
def canonicalCodec : Codec (MemberId × List OpId × GroupControlMessage) :=
  (octets 32).pair ((octets 32).seq.pair controlMessageCodec)

/-- `serde_bytes_64`: a length-prefixed sequence whose length must be 64 on the way in. -/
def signatureCodec : Codec (Octets 64) :=
  byte.seq.via Octets.bytes fun bytes =>
    if bytes.length = 64 then some (.ofBytes 64 bytes) else none

def signedOpCodec : Codec SignedOp :=
  (canonicalCodec.pair signatureCodec).via
    (fun op => ((op.author, op.deps, op.payload), op.signature))
    fun ((author, deps, payload), signature) => some ⟨author, deps, payload, signature⟩

end Encoding

namespace SignedOp

def canonicalBytes (op : SignedOp) : Bytes :=
  canonicalCodec.encode (op.author, op.deps, op.payload)

def computeId (crypto : Primitives) (op : SignedOp) : OpId :=
  crypto.blake3 (op.canonicalBytes ++ op.signature.bytes)

def verify (crypto : Primitives) (op : SignedOp) : Except Failure Unit :=
  if !crypto.isPoint op.author then .error ["invalid author pubkey"]
  else if !crypto.verify op.author op.canonicalBytes op.signature then
    .error ["signature verification failed"]
  else .ok ()

def encode (op : SignedOp) : Bytes := signedOpCodec.encode op

/-- Trailing bytes are ignored. -/
def decode (bytes : Bytes) : Option SignedOp := (signedOpCodec.decode bytes).map Prod.fst

end SignedOp

/-- What `AuthState` uses of `p2panda_auth::group::GroupCrdt` and its state. -/
structure GroupCrdt where
  State : Type
  new : State
  process : State → SignedOp → Except String State
  heads : State → List OpId
  members : State → MemberId → List (MemberId × Access)

/-- A state in which no group is a member of a group: nothing ever added one. -/
inductive GroupCrdt.Flat (crdt : GroupCrdt) : crdt.State → Prop
  | new : crdt.Flat crdt.new
  | process {state next : crdt.State} {op : SignedOp} : crdt.Flat state →
      op.payload.action.AddsNoGroup → crdt.process state op = .ok next → crdt.Flat next

/-- What `p2panda_auth` documents of operations that follow all earlier ones. Members through
groups count as members, so a removal is sure to take the member out only of a flat state. -/
structure GroupCrdt.Lawful (crdt : GroupCrdt) : Prop where
  members_new : ∀ groupId, crdt.members crdt.new groupId = []
  members_add : ∀ {state next : crdt.State} {op : SignedOp} {groupId member access},
    op.deps = crdt.heads state → op.payload = ⟨groupId, .add (.individual member) access⟩ →
    crdt.process state op = .ok next → ∀ id,
      id ∈ (crdt.members next groupId).map Prod.fst ↔
        id = member ∨ id ∈ (crdt.members state groupId).map Prod.fst
  members_remove : ∀ {state next : crdt.State} {op : SignedOp} {groupId member},
    op.deps = crdt.heads state → op.payload = ⟨groupId, .remove (.individual member)⟩ →
    crdt.process state op = .ok next → ∀ id, id ≠ member →
      (id ∈ (crdt.members next groupId).map Prod.fst ↔
        id ∈ (crdt.members state groupId).map Prod.fst)
  removed_of_flat : ∀ {state next : crdt.State} {op : SignedOp} {groupId member},
    crdt.Flat state → op.deps = crdt.heads state →
    op.payload = ⟨groupId, .remove (.individual member)⟩ → crdt.process state op = .ok next →
      member ∉ (crdt.members next groupId).map Prod.fst

structure AuthState (crdt : GroupCrdt) where
  crdt : crdt.State
  /-- Causally ordered log of applied operations. -/
  ops : List SignedOp
  /-- Operations whose deps haven't all been applied yet. -/
  pending : List SignedOp

/-- The prefix keeps group ids apart from real public keys. -/
def groupIdFor (crypto : Primitives) (shareId : String) : MemberId :=
  crypto.blake3 (ascii "peerdup-group/" ++ shareId.toUTF8.data.toList)

/-- The first pending operation whose deps are all known, and the others. -/
def takeReady (known : List OpId) : List SignedOp → Option (SignedOp × List SignedOp)
  | [] => none
  | op :: rest =>
      if op.deps.all (· ∈ known) then some (op, rest)
      else (takeReady known rest).map fun (ready, others) => (ready, op :: others)

namespace AuthState

variable {crdt : GroupCrdt} (crypto : Primitives)

def empty : AuthState crdt := ⟨crdt.new, [], []⟩

def isEmpty (state : AuthState crdt) : Bool := state.ops.isEmpty

def opIds (state : AuthState crdt) : List OpId := state.ops.map (·.computeId crypto)

/-- The CRDT state is taken out before `process` and put back only on success. -/
def process (state : AuthState crdt) (op : SignedOp) : Except Failure Unit × AuthState crdt :=
  match crdt.process state.crdt op with
  | .error cause => (.error ["auth crdt error: " ++ cause], { state with crdt := crdt.new })
  | .ok next => (.ok (), { state with crdt := next, ops := state.ops ++ [op] })

/-- `drain_pending`'s loop, which ends after at most `pending.length` rounds. -/
def drainRounds : Nat → AuthState crdt → Except Failure Unit × AuthState crdt
  | 0, state => (.ok (), state)
  | rounds + 1, state =>
      match takeReady (state.opIds crypto) state.pending with
      | none => (.ok (), state)
      | some (op, rest) =>
          match process { state with pending := rest } op with
          | (.error failure, state) => (.error failure, state)
          | (.ok (), state) => drainRounds rounds state

def drainPending (state : AuthState crdt) : Except Failure Unit × AuthState crdt :=
  state.drainRounds crypto state.pending.length

def applyRemote (state : AuthState crdt) (op : SignedOp) : Except Failure Bool × AuthState crdt :=
  match op.verify crypto with
  | .error failure => (.error ("verifying remote auth op" :: failure), state)
  | .ok () =>
      let opId := op.computeId crypto
      if (state.ops.any fun held => held.computeId crypto = opId) ||
          (state.pending.any fun held => held.computeId crypto = opId) then (.ok false, state)
      else if !op.deps.all (· ∈ state.opIds crypto) then
        (.ok false, { state with pending := state.pending ++ [op] })
      else
        match state.process op with
        | (.error failure, state) => (.error failure, state)
        | (.ok (), state) =>
            match state.drainPending crypto with
            | (.error failure, state) => (.error failure, state)
            | (.ok (), state) => (.ok true, state)

/-- The operation that `author` builds and signs on top of the current heads. -/
def authored (state : AuthState crdt) (myKey : crypto.PrivateKey) (groupId : MemberId)
    (action : GroupAction) : SignedOp :=
  let me := crypto.publicKey myKey
  let deps := crdt.heads state.crdt
  let payload : GroupControlMessage := ⟨groupId, action⟩
  let canonical := canonicalCodec.encode (me, deps, payload)
  ⟨me, deps, payload, crypto.sign myKey canonical⟩

def author (state : AuthState crdt) (myKey : crypto.PrivateKey) (groupId : MemberId)
    (action : GroupAction) : Except Failure SignedOp × AuthState crdt :=
  let op := state.authored crypto myKey groupId action
  match state.process op with
  | (.error failure, state) => (.error ("applying locally-authored auth op" :: failure), state)
  | (.ok (), state) => (.ok op, state)

def createAction (me : MemberId) : GroupAction := .create [(.individual me, ⟨none, .manage⟩)]

def createGroup (state : AuthState crdt) (myKey : crypto.PrivateKey) (groupId : MemberId) :
    Except Failure SignedOp × AuthState crdt :=
  if !state.ops.isEmpty then
    (.error ["auth state already has " ++ toString state.ops.length ++
      " operation(s); refusing to re-create group"], state)
  else state.author crypto myKey groupId (createAction (crypto.publicKey myKey))

def addMember (state : AuthState crdt) (myKey : crypto.PrivateKey) (groupId newMember : MemberId)
    (role : AuthRole) : Except Failure SignedOp × AuthState crdt :=
  state.author crypto myKey groupId (.add (.individual newMember) role.toAccess)

def removeMember (state : AuthState crdt) (myKey : crypto.PrivateKey) (groupId member : MemberId) :
    Except Failure SignedOp × AuthState crdt :=
  state.author crypto myKey groupId (.remove (.individual member))

def members (state : AuthState crdt) (groupId : MemberId) : List (MemberId × AuthRole) :=
  (crdt.members state.crdt groupId).map fun (id, access) => (id, .fromAccess access)

def isMember (state : AuthState crdt) (groupId member : MemberId) : Bool :=
  (crdt.members state.crdt groupId).any fun (id, _) => id = member

/-- Apply a log in order. The first failure ends the replay. -/
def replay (context : String) (state : AuthState crdt) :
    List SignedOp → Except Failure (AuthState crdt)
  | [] => .ok state
  | op :: ops =>
      match state.applyRemote crypto op with
      | (.error failure, _) => .error (context :: failure)
      | (.ok _, state) => replay context state ops

def load (authLog : Option (List SignedOp)) : Except Failure (AuthState crdt) :=
  match authLog with
  | none => .ok empty
  | some ops =>
      match replay crypto "replaying op from auth.log" empty ops with
      | .error failure => .error failure
      | .ok state =>
          if !state.pending.isEmpty then
            .error ["auth.log left " ++ toString state.pending.length ++
              " op(s) with unmet deps after replay; log is corrupt"]
          else .ok state

end AuthState

end Peerdup.Auth
