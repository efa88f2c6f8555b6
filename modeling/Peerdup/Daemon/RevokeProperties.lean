import Peerdup.Daemon.ShareLoopProperties
import Peerdup.Reference

/-!
# When `handle_revoke` is all or nothing

The rotation is built last, after the removal, the log and the keyring are durable, and
building fails when some remaining member's id is no curve point.
-/

set_option autoImplicit false

namespace Peerdup.Daemon.ShareLoop

open Foundation Auth Crypto Rotation

variable {crdt : GroupCrdt} {crypto : Primitives} {config : ShareConfig}
  {identity : crypto.PrivateKey}

/-- What a failed revocation must leave as it was. -/
structure Untouched (groupId : MemberId) (before after : ShareLoop crdt) : Prop where
  members : after.authState.members groupId = before.authState.members groupId
  authLog : after.dir.authLog = before.dir.authLog
  keysBin : after.dir.keysBin = before.dir.keysBin
  key : after.key = before.key
  pendingRotations : after.pendingRotations = before.pendingRotations
  pendingFiles : after.dir.pendingRotations = before.dir.pendingRotations

variable (crypto config identity) in
/-- A queued rotation, also on disk, carries the current key to every current member. -/
def CurrentKeyQueued (loop : ShareLoop crdt) : Prop :=
  ∃ rotation ∈ loop.pendingRotations, rotation ∈ loop.dir.pendingRotations ∧
    rotation.epoch = loop.key.currentEpoch ∧
    Carries crypto rotation identity loop.key.currentKey ∧
    ∀ member, loop.authState.isMember (groupIdFor crypto config.id) member = true →
      Addresses rotation member

variable (crypto config identity) in
/-- A failure leaves no trace, and a new key is never current without being queued. -/
def AllOrNothing (loop : ShareLoop crdt) (entropy : Entropy) (target : MemberId) : Prop :=
  let outcome := loop.handleRevoke crypto config identity entropy target
  (∀ failure, outcome.1 = .error failure →
    Untouched (groupIdFor crypto config.id) loop outcome.2) ∧
  (outcome.2.key ≠ loop.key → outcome.2.CurrentKeyQueued crypto config identity)

variable (crypto config identity) in
/-- The command is refused at once, or nothing in its way can fail. -/
def Revocable (loop : ShareLoop crdt) (target : MemberId) : Prop :=
  let groupId := groupIdFor crypto config.id
  loop.authState.isEmpty = true ∨ loop.authState.isMember groupId target = false ∨
    (∃ next, crdt.process loop.authState.crdt (loop.removal crypto config identity target) =
      .ok next) ∧
    Readable loop.dir.keysBin ∧
    ∀ member, member ≠ target → loop.authState.isMember groupId member = true →
      crypto.isPoint member = true

variable (crypto config identity) in
/-- If the CRDT accepts the removal, the target is no member any more. -/
def TakesOut (loop : ShareLoop crdt) (target : MemberId) : Prop :=
  ∀ next, crdt.process loop.authState.crdt (loop.removal crypto config identity target) = .ok next →
    (loop.afterOp next (loop.removal crypto config identity target)).authState.isMember
      (groupIdFor crypto config.id) target = false

section Removed

variable {loop : ShareLoop crdt} {target : MemberId} {next : crdt.State}

theorem takesOut_of_flat (group : crdt.Lawful) (flat : crdt.Flat loop.authState.crdt)
    (target : MemberId) : loop.TakesOut crypto config identity target := by
  intro next accepted
  rw [Bool.eq_false_iff, ne_eq, AuthState.isMember_iff, AuthState.map_fst_members]
  exact group.removed_of_flat flat rfl rfl accepted

theorem isMember_removed_other (group : crdt.Lawful)
    (accepted : crdt.process loop.authState.crdt (loop.removal crypto config identity target) =
      .ok next) {member : MemberId} (apart : member ≠ target) :
    (loop.afterOp next (loop.removal crypto config identity target)).authState.isMember
        (groupIdFor crypto config.id) member = true ↔
      loop.authState.isMember (groupIdFor crypto config.id) member = true := by
  rw [AuthState.isMember_iff, AuthState.isMember_iff, AuthState.map_fst_members,
    AuthState.map_fst_members]
  exact group.members_remove rfl rfl accepted member apart

theorem isMember_removed (group : crdt.Lawful)
    (out : loop.TakesOut crypto config identity target)
    (accepted : crdt.process loop.authState.crdt (loop.removal crypto config identity target) =
      .ok next) (member : MemberId) :
    (loop.afterOp next (loop.removal crypto config identity target)).authState.isMember
        (groupIdFor crypto config.id) member = true ↔
      member ≠ target ∧
        loop.authState.isMember (groupIdFor crypto config.id) member = true := by
  by_cases same : member = target
  · rw [same, out next accepted]
    exact ⟨fun contra => (by cases contra), fun contra => absurd rfl contra.1⟩
  · rw [isMember_removed_other group accepted same]
    exact (and_iff_right same).symm

end Removed

private theorem not_untouched {groupId target : MemberId} {before after : ShareLoop crdt}
    (present : before.authState.isMember groupId target = true)
    (gone : ¬ after.authState.isMember groupId target = true) :
    ¬ Untouched groupId before after := by
  intro untouched
  rw [AuthState.isMember_iff] at present gone
  exact gone (untouched.members ▸ present)

theorem revocable_of_allOrNothing (lawful : crypto.Lawful) (group : crdt.Lawful)
    {loop : ShareLoop crdt} {entropy : Entropy} {target : MemberId}
    (out : loop.TakesOut crypto config identity target)
    (holds : loop.AllOrNothing crypto config identity entropy target) :
    loop.Revocable crypto config identity target := by
  obtain ⟨clean, _⟩ := holds
  rw [handleRevoke_eq] at clean
  by_cases empty : loop.authState.isEmpty = true
  · exact .inl empty
  rw [if_neg empty] at clean
  by_cases present : loop.authState.isMember (groupIdFor crypto config.id) target = true
  swap
  · exact .inr (.inl (Bool.eq_false_iff.mpr present))
  rw [if_neg (by simp [present])] at clean
  refine .inr (.inr ?_)
  dsimp only at clean
  cases processed : crdt.process loop.authState.crdt (loop.removal crypto config identity target) with
  | error cause =>
      -- The CRDT is taken out and never put back, so nobody is a member any more.
      rw [processed] at clean
      refine absurd (clean _ rfl) (not_untouched present ?_)
      have wiped := group.members_new (groupIdFor crypto config.id)
      simp [withAuth, AuthState.wiped, AuthState.isMember, wiped]
  | ok next =>
      have gone : ¬ (loop.afterOp next (loop.removal crypto config identity target)).authState.isMember
          (groupIdFor crypto config.id) target = true := by
        rw [out next processed]
        exact Bool.false_ne_true
      rw [processed] at clean
      dsimp only at clean
      rcases loaded : loadOrCreateKeyring entropy.created loop.dir.keysBin with ⟨result, file⟩
      rw [loaded] at clean
      cases result with
      | error failure => exact absurd (clean _ rfl) (not_untouched present gone)
      | ok ring =>
          dsimp only at clean
          refine ⟨⟨next, rfl⟩, (loadOrCreateKeyring_ok_iff ..).mp ⟨ring, file, loaded⟩, ?_⟩
          have points := buildSignedRotation_ok_iff lawful identity entropy.envelope
            (ring.currentEpoch + 1) entropy.newKey
            ((loop.afterOp next (loop.removal crypto config identity target)).remaining crypto
              config target)
          revert clean points
          cases buildSignedRotation crypto identity entropy.envelope (ring.currentEpoch + 1)
            entropy.newKey ((loop.afterOp next
              (loop.removal crypto config identity target)).remaining crypto config target) with
          | error failure =>
              intro clean _
              exact absurd (clean _ rfl) (not_untouched present gone)
          | ok rotation =>
              intro _ points member apart held
              refine points.mp ⟨rotation, rfl⟩ member ?_
              rw [mem_remaining_iff, isMember_removed_other group processed apart]
              exact ⟨apart, held⟩

theorem allOrNothing_of_revocable (lawful : crypto.Lawful) (group : crdt.Lawful)
    {loop : ShareLoop crdt} (entropy : Entropy) {target : MemberId}
    (out : loop.TakesOut crypto config identity target)
    (revocable : loop.Revocable crypto config identity target) :
    loop.AllOrNothing crypto config identity entropy target := by
  have unchanged : Untouched (groupIdFor crypto config.id) loop loop := ⟨rfl, rfl, rfl, rfl, rfl, rfl⟩
  unfold AllOrNothing
  rw [handleRevoke_eq]
  by_cases empty : loop.authState.isEmpty = true
  · rw [if_pos empty]
    exact ⟨fun _ _ => unchanged, fun changed => absurd rfl changed⟩
  rw [if_neg empty]
  by_cases present : loop.authState.isMember (groupIdFor crypto config.id) target = true
  swap
  · rw [if_pos (by simp [present])]
    exact ⟨fun _ _ => unchanged, fun changed => absurd rfl changed⟩
  rw [if_neg (by simp [present])]
  rcases revocable with contra | contra | ⟨⟨next, accepted⟩, readable, points⟩
  · exact absurd contra empty
  · rw [present] at contra
    cases contra
  obtain ⟨ring, file, loaded⟩ := (loadOrCreateKeyring_ok_iff entropy.created _).mpr readable
  have building := buildSignedRotation_ok_iff lawful identity entropy.envelope
    (ring.currentEpoch + 1) entropy.newKey
    ((loop.afterOp next (loop.removal crypto config identity target)).remaining crypto config target)
  obtain ⟨rotation, built⟩ := building.mpr (by
    intro member listed
    rw [mem_remaining_iff, isMember_removed group out accepted] at listed
    exact points member listed.1 listed.2.2)
  obtain ⟨epoch, carries, addresses⟩ := carries_of_buildSignedRotation built
  dsimp only
  rw [accepted, loaded]
  dsimp only
  rw [built]
  dsimp only
  refine ⟨?_, fun _ => ⟨rotation, ?_, ?_, ?_, ?_, ?_⟩⟩
  · intro failure failed
    cases failed
  · exact List.mem_append_right _ List.mem_cons_self
  · exact List.mem_append_right _ List.mem_cons_self
  · rw [epoch]
    exact (KeyRing.currentEpoch_push ring entropy.newKey).symm
  · have current : (ring.push entropy.newKey).currentKey = entropy.newKey :=
      KeyRing.currentKey_push ring entropy.newKey
    exact current.symm ▸ carries
  · intro member listed
    have held := (isMember_removed group out accepted member).mp listed
    rw [addresses, mem_remaining_iff]
    exact ⟨held.1, listed⟩

/-- Revoking is all or nothing exactly when no step after the first durable one can fail. -/
theorem handleRevoke_allOrNothing_iff (crypto : Primitives) (lawful : crypto.Lawful)
    (crdt : GroupCrdt) (group : crdt.Lawful) (config : ShareConfig) (identity : crypto.PrivateKey)
    (loop : ShareLoop crdt) (entropy : Entropy) (target : MemberId)
    (out : loop.TakesOut crypto config identity target) :
    loop.AllOrNothing crypto config identity entropy target ↔
      loop.Revocable crypto config identity target :=
  ⟨revocable_of_allOrNothing lawful group out, allOrNothing_of_revocable lawful group entropy out⟩

section Samples

open Reference

def docsConfig : ShareConfig := ⟨"docs", "team docs"⟩

def docsEntropy : Entropy :=
  ⟨.ofBytes 32 [40], .ofBytes 32 [41], fun _ => ⟨.ofBytes 32 [42], .ofBytes 24 [43]⟩⟩

/-- The founder's loop over a group, with one epoch key. -/
def docsLoop (authState : AuthState sequentialGroup) : ShareLoop sequentialGroup :=
  let key : Key := .ofBytes 32 [7]
  let ring : KeyRing := ⟨[key], singleton_ne_nil key⟩
  ⟨authState, ring, [], [], ⟨some authState.ops, some ring.fileBytes, []⟩⟩

theorem docsLoop_synced (authState : AuthState sequentialGroup) : (docsLoop authState).Synced := rfl

theorem sequentialGroup_takesOut (loop : ShareLoop sequentialGroup) (target : MemberId) :
    loop.TakesOut cleartext docsConfig founder target := by
  intro next accepted
  rw [Bool.eq_false_iff, ne_eq, AuthState.isMember_iff, AuthState.map_fst_members]
  exact fun listed => ((Sequential.inGroup_remove rfl accepted target).mp listed).1 rfl

def guestLoop : ShareLoop sequentialGroup :=
  docsLoop (grown [(guest.val, .writer), (stranger.val, .reader)])

theorem guestLoop_revocable : guestLoop.Revocable cleartext docsConfig founder guest.val := by
  have accepted : (sequentialGroup.process guestLoop.authState.crdt
      (guestLoop.removal cleartext docsConfig founder guest.val)).isOk = true := by decide +kernel
  have points : ∀ member ∈ (guestLoop.authState.members docs).map Prod.fst,
      cleartext.isPoint member = true := by decide +kernel
  refine .inr (.inr ⟨?_, ?_, ?_⟩)
  · revert accepted
    cases sequentialGroup.process guestLoop.authState.crdt
        (guestLoop.removal cleartext docsConfig founder guest.val) with
    | error cause => exact fun contra => by cases contra
    | ok next => exact fun _ => ⟨next, rfl⟩
  · exact (loadOrCreateKeyring_ok_iff docsEntropy.created _).mp
      ⟨_, _, loadOrCreateKeyring_fileBytes _ guestLoop.key⟩
  · intro member _ held
    exact points member ((AuthState.isMember_iff ..).mp held)

theorem guestLoop_allOrNothing :
    guestLoop.AllOrNothing cleartext docsConfig founder docsEntropy guest.val :=
  (handleRevoke_allOrNothing_iff cleartext cleartext_lawful sequentialGroup sequentialGroup_lawful
    docsConfig founder guestLoop docsEntropy guest.val
    (sequentialGroup_takesOut guestLoop guest.val)).mpr guestLoop_revocable

/-- A member id that is no curve point was invited once. -/
def offCurveLoop : ShareLoop sequentialGroup :=
  docsLoop (grown [(guest.val, .writer), (offCurve, .reader)])

/-- Revoking the guest fails, yet the guest is out and an unqueued key is current. -/
theorem offCurveLoop_half_revoked :
    let outcome := offCurveLoop.handleRevoke cleartext docsConfig founder docsEntropy guest.val
    outcome.1 = .error ["deriving X25519 pubkey for recipient " ++ toHex offCurve,
        "invalid Ed25519 pubkey"] ∧
      offCurveLoop.authState.isMember (groupIdFor cleartext docsConfig.id) guest.val = true ∧
      outcome.2.authState.isMember (groupIdFor cleartext docsConfig.id) guest.val = false ∧
      outcome.2.key.currentEpoch = 2 ∧ outcome.2.pendingRotations = [] ∧
      ¬ offCurveLoop.AllOrNothing cleartext docsConfig founder docsEntropy guest.val := by
  have computed :
      let outcome := offCurveLoop.handleRevoke cleartext docsConfig founder docsEntropy guest.val
      outcome.1 = .error ["deriving X25519 pubkey for recipient " ++ toHex offCurve,
          "invalid Ed25519 pubkey"] ∧
        offCurveLoop.authState.isMember (groupIdFor cleartext docsConfig.id) guest.val = true ∧
        outcome.2.authState.isMember (groupIdFor cleartext docsConfig.id) guest.val = false ∧
        outcome.2.key.currentEpoch = 2 ∧ outcome.2.pendingRotations = [] := by
    decide +kernel
  obtain ⟨failed, present, gone, epoch, unqueued⟩ := computed
  refine ⟨failed, present, gone, epoch, unqueued, ?_⟩
  intro holds
  exact not_untouched present (Bool.eq_false_iff.mp gone) (holds.1 _ failed)

end Samples

end Peerdup.Daemon.ShareLoop
