import Peerdup.Daemon.RevocationSecrecy

/-!
# Who can read what

Content is sealed under the writer's current epoch. In a share with one Owner, exactly the
peers whose keyring has got that far can open it, from then on.
-/

set_option autoImplicit false

namespace Peerdup.Crypto

open Foundation

variable {crypto : Primitives} {ring other : KeyRing} {nonce : Nonce} {plaintext blob : Bytes}

def missingKey (ring : KeyRing) (epoch : Nat) : Failure :=
  ["no key for epoch " ++ toString epoch ++ " (keyring has " ++ toString ring.currentEpoch ++
    " epoch" ++ (if ring.currentEpoch = 1 then "" else "s") ++ ")"]

/-- A blob names the epoch it was sealed under, and a ring without that epoch says so. -/
theorem decrypt_missing (lawful : crypto.Lawful) (small : ring.currentEpoch < 2 ^ 64)
    (encrypted : encrypt crypto ring nonce plaintext = .ok blob)
    (shorter : other.currentEpoch < ring.currentEpoch) :
    decrypt crypto other blob = .error (missingKey other ring.currentEpoch) := by
  unfold encrypt at encrypted
  cases sealing : crypto.aeadEncrypt ring.currentKey nonce plaintext with
  | none =>
      rw [sealing] at encrypted
      cases encrypted
  | some ciphertext =>
      rw [sealing] at encrypted
      have whole := Except.ok.inj encrypted
      have tagged := lawful.tag_le_length _ _ _ _ sealing
      have header : (Codec.littleEndian epochLen ring.currentEpoch).length = epochLen :=
        Codec.length_littleEndian _ _
      have front : blob.take epochLen = Codec.littleEndian epochLen ring.currentEpoch := by
        rw [← whole, List.append_assoc]
        exact List.take_left' header
      have long : ¬ blob.length < headerLen + tagLen := by
        have nonceLength : nonce.bytes.length = nonceLen := nonce.length_bytes
        rw [← whole, List.length_append, List.length_append, header, nonceLength, headerLen, tagLen]
        omega
      have epoch : Codec.ofLittleEndian (Codec.littleEndian epochLen ring.currentEpoch) =
          ring.currentEpoch := Codec.ofLittleEndian_littleEndian small
      have absent : other.keyForEpoch ring.currentEpoch = none := by
        rw [KeyRing.keyForEpoch, if_neg (Nat.pos_iff_ne_zero.mp ring.currentEpoch_pos)]
        have beyond : other.keys.length ≤ ring.currentEpoch - 1 := Nat.le_sub_one_of_lt shorter
        exact List.getElem?_eq_none beyond
      rw [decrypt, if_neg long, front, epoch]
      dsimp only
      rw [absent]
      rfl

end Peerdup.Crypto

namespace Peerdup.Daemon.ShareNetwork

open Foundation Auth Crypto Rotation ShareLoop

variable {crdt : GroupCrdt} {crypto : Primitives} {config : ShareConfig}
  {Peer : Type} [DecidableEq Peer] {identityOf : Peer → crypto.PrivateKey} {owner : Peer}
  {barred : Bar} {network next : ShareNetwork crdt Peer} {ownerLoop : ShareLoop crdt}

omit [DecidableEq Peer] in
theorem loops_issue (network : ShareNetwork crdt Peer) (result : Except Failure Ticket) :
    (network.issue result).loops = network.loops := by
  cases result <;> rfl

theorem loops_setLoop_of_ne {peer : Peer} (apart : peer ≠ owner) (loop : ShareLoop crdt) :
    (network.setLoop peer loop).loops owner = network.loops owner := by
  rw [loops_setLoop, if_neg apart.symm]

/-- The Owner's keyring only grows. -/
theorem Custody.step_grows (lawful : crypto.Lawful)
    (custody : Custody config identityOf owner barred network ownerLoop)
    {event : ShareEvent Peer} (met : network.OnlyOwner owner event)
    (stepped : (machine crypto config identityOf).step network event = some next) :
    ∃ nextLoop, next.loops owner = some nextLoop ∧ ownerLoop.key.keys <+: nextLoop.key.keys := by
  have found := custody.found
  have still : next.loops owner = network.loops owner →
      ∃ nextLoop, next.loops owner = some nextLoop ∧ ownerLoop.key.keys <+: nextLoop.key.keys :=
    fun same => ⟨ownerLoop, same.trans found, List.prefix_refl _⟩
  cases event with
  | invite peer invitee authRole suggestedRole =>
      obtain ⟨loop, own, rfl⟩ := Option.map_eq_some_iff.mp stepped
      cases met
      cases found.symm.trans own
      obtain ⟨same, _⟩ :=
        handleInvite_custody config (identityOf owner) ownerLoop invitee authRole suggestedRole
      refine ⟨_, by rw [loops_issue, loops_setLoop, if_pos rfl], [], ?_⟩
      rw [List.append_nil, same.key]
  | revoke peer entropy target =>
      obtain ⟨loop, own, rfl⟩ := Option.map_eq_some_iff.mp stepped
      cases met
      cases found.symm.trans own
      refine ⟨_, by rw [loops_mint, loops_setLoop, if_pos rfl], ?_⟩
      rcases handleRevoke_custody config (identityOf owner) custody.synced entropy target with
        same | ⟨_, key, _⟩
      · refine ⟨[], ?_⟩
        rw [List.append_nil, same.key]
      · rw [key, KeyRing.keys_push]
        exact List.prefix_append _ _
  | rotateKey peer entropy =>
      obtain ⟨loop, own, rfl⟩ := Option.map_eq_some_iff.mp stepped
      cases met
      cases found.symm.trans own
      refine ⟨_, by rw [loops_mint, loops_setLoop, if_pos rfl], ?_⟩
      rw [handleRotateKey_synced custody.synced]
      exact List.prefix_append _ _
  | join peer created index =>
      obtain ⟨ticket, _, rfl⟩ := Option.map_eq_some_iff.mp stepped
      apply still
      cases shareJoin crypto (identityOf peer) created ticket with
      | error failure => rfl
      | ok loop => exact loops_setLoop_of_ne met loop
  | announceTick peer =>
      obtain ⟨loop, _, rfl⟩ := Option.map_eq_some_iff.mp stepped
      exact still rfl
  | deliver peer created index =>
      obtain ⟨loop, own, delivered⟩ := Option.bind_eq_some_iff.mp stepped
      obtain ⟨rotation, listed, same⟩ := Option.bind_eq_some_iff.mp delivered
      cases same
      apply still
      by_cases here : peer = owner
      · subst here
        cases found.symm.trans own
        rw [custody.deliver_owner lawful created (List.mem_of_getElem? listed), loops_setLoop,
          if_pos rfl, found]
      · exact loops_setLoop_of_ne here _
  | gossip peer payload =>
      obtain ⟨loop, own, rfl⟩ := Option.map_eq_some_iff.mp stepped
      by_cases here : peer = owner
      · subst here
        cases found.symm.trans own
        exact ⟨receiveAuthOps crypto ownerLoop payload, by rw [loops_setLoop, if_pos rfl],
          List.prefix_refl _⟩
      · exact still (loops_setLoop_of_ne here _)

theorem Custody.run_grows (lawful : crypto.Lawful) (group : crdt.Lawful)
    {final : ShareNetwork crdt Peer} {finalLoop : ShareLoop crdt} {events : List (ShareEvent Peer)}
    (custody : Custody config identityOf owner (fun _ _ => False) network ownerLoop)
    (met : (machine crypto config identityOf).Along (OnlyOwner owner) network events)
    (ran : (machine crypto config identityOf).run network events = some final)
    (found : final.loops owner = some finalLoop) : ownerLoop.key.keys <+: finalLoop.key.keys := by
  induction events generalizing network ownerLoop with
  | nil =>
      cases ran
      cases custody.found.symm.trans found
      exact List.prefix_refl _
  | cons event events ih =>
      obtain ⟨next, stepped, rest⟩ := (Machine.run_cons_iff _).mp ran
      obtain ⟨first, later⟩ := met
      have unbarred : RespectsBar (fun _ _ => False) event := by
        cases event <;> simp [RespectsBar]
      obtain ⟨nextLoop, custodyNext⟩ := step_custody lawful group ⟨_, custody⟩ first unbarred stepped
      obtain ⟨grown, own, extends_⟩ := custody.step_grows lawful first stepped
      cases own.symm.trans custodyNext.found
      exact extends_.trans (ih custodyNext (later next stepped) rest)

omit [DecidableEq Peer] in
theorem Custody.shorter (custody : Custody config identityOf owner barred network ownerLoop)
    {peer : Peer} {loop : ShareLoop crdt} (held : network.loops peer = some loop) :
    loop.key.keys <+: ownerLoop.key.keys := by
  by_cases own : peer = owner
  · subst own
    cases custody.found.symm.trans held
    exact List.prefix_refl _
  · exact (custody.receivers peer loop own held).good.shorter

/-- Every ring at either of two moments starts the Owner's ring at the later one. -/
theorem keys_comparable (lawful : crypto.Lawful) (group : crdt.Lawful)
    {start middle final : ShareNetwork crdt Peer} {startLoop : ShareLoop crdt}
    (founded : start.Founded owner startLoop) {front back : List (ShareEvent Peer)}
    (met : (machine crypto config identityOf).Along (OnlyOwner owner) start (front ++ back))
    (ran : (machine crypto config identityOf).run start front = some middle)
    (ranBack : (machine crypto config identityOf).run middle back = some final) :
    ∃ ownerLoop : ShareLoop crdt,
      (∀ peer loop, middle.loops peer = some loop → loop.key.keys <+: ownerLoop.key.keys) ∧
      ∀ peer loop, final.loops peer = some loop → loop.key.keys <+: ownerLoop.key.keys := by
  have unbarred : ∀ event : ShareEvent Peer, RespectsBar (fun _ _ => False) event := by
    intro event
    cases event <;> simp [RespectsBar]
  obtain ⟨metFront, metBack⟩ := (Machine.along_append_iff _).mp met
  obtain ⟨middleLoop, before⟩ := run_custody lawful group ⟨startLoop, founded.custody⟩ metFront
    (fun event _ => unbarred event) ran
  obtain ⟨finalLoop, after⟩ := run_custody lawful group ⟨middleLoop, before⟩ (metBack middle ran)
    (fun event _ => unbarred event) ranBack
  have grown := before.run_grows lawful group (metBack middle ran) ranBack after.found
  exact ⟨finalLoop, fun _ _ held => (before.shorter held).trans grown, fun _ _ held => after.shorter held⟩

/-- A blob that some peer seals at any moment of a run is opened later by exactly the peers
whose keyring has reached its epoch. A member revoked at that epoch or before is none of them. -/
theorem content_readers (crypto : Primitives) (lawful : crypto.Lawful) (crdt : GroupCrdt)
    (group : crdt.Lawful) (config : ShareConfig) (identityOf : Peer → crypto.PrivateKey)
    (owner : Peer) (start middle final : ShareNetwork crdt Peer) (startLoop : ShareLoop crdt)
    (founded : start.Founded owner startLoop) (front back : List (ShareEvent Peer))
    (met : (machine crypto config identityOf).Along (OnlyOwner owner) start (front ++ back))
    (ran : (machine crypto config identityOf).run start front = some middle)
    (ranBack : (machine crypto config identityOf).run middle back = some final)
    (writer reader : Peer) (writerLoop readerLoop : ShareLoop crdt)
    (writes : middle.loops writer = some writerLoop) (reads : final.loops reader = some readerLoop)
    (small : writerLoop.key.currentEpoch < 2 ^ 64) (nonce : Nonce) (plaintext blob : Bytes)
    (sealed_ : encrypt crypto writerLoop.key nonce plaintext = .ok blob) :
    (decrypt crypto readerLoop.key blob =
      if writerLoop.key.currentEpoch ≤ readerLoop.key.currentEpoch then .ok plaintext
      else .error (missingKey readerLoop.key writerLoop.key.currentEpoch)) ∧
    ∀ epoch, reader ≠ owner → epoch ≤ writerLoop.key.currentEpoch →
      RevokedAt crypto config identityOf owner start (front ++ back)
        (crypto.publicKey (identityOf reader)) epoch →
      decrypt crypto readerLoop.key blob =
        .error (missingKey readerLoop.key writerLoop.key.currentEpoch) := by
  obtain ⟨ownerLoop, before, after⟩ := keys_comparable lawful group founded met ran ranBack
  constructor
  · by_cases reached : writerLoop.key.currentEpoch ≤ readerLoop.key.currentEpoch
    · have extends_ : writerLoop.key.keys <+: readerLoop.key.keys :=
        List.prefix_of_prefix_length_le (before writer writerLoop writes)
          (after reader readerLoop reads) reached
      rw [if_pos reached, decrypt_encrypt lawful extends_ small sealed_]
    · rw [if_neg reached, decrypt_missing lawful small sealed_ (Nat.lt_of_not_le reached)]
  · intro epoch apart old revoked
    have whole := (Machine.run_append_iff _).mpr ⟨middle, ran, ranBack⟩
    obtain ⟨barredLoop, barred⟩ := custody_of_revokedAt lawful group founded met whole revoked
    have short := (barred.receivers reader readerLoop apart reads).good.short epoch ⟨rfl, Nat.le_refl _⟩
    exact decrypt_missing lawful small sealed_ (short.trans_le old)

section Sample

open Reference

/-- What the founder seals once the guest is revoked, the guest cannot open. -/
theorem sealedAfterRevoke_unread : ∃ middle final writerLoop readerLoop blob,
    pairMachine.run pairStart (inviteAndRevoke.take 3) = some middle ∧
    pairMachine.run middle (inviteAndRevoke.drop 3) = some final ∧
    middle.loops true = some writerLoop ∧ final.loops false = some readerLoop ∧
    encrypt cleartext writerLoop.key (.ofBytes 24 [7]) [1, 2, 3] = .ok blob ∧
    decrypt cleartext readerLoop.key blob = .error (missingKey readerLoop.key 2) := by
  have computed : (pairMachine.run pairStart (inviteAndRevoke.take 3)).bind
      (fun middle => (middle.loops true).map (·.key.currentEpoch)) = some 2 := by decide +kernel
  have joined : ((pairMachine.run pairStart inviteAndRevoke).bind (·.loops false)).isSome = true := by
    decide +kernel
  obtain ⟨middle, ran, founder_⟩ := Option.bind_eq_some_iff.mp computed
  obtain ⟨writerLoop, writes, second⟩ := Option.map_eq_some_iff.mp founder_
  obtain ⟨readerLoop, guest_⟩ := Option.isSome_iff_exists.mp joined
  obtain ⟨final, whole, reads⟩ := Option.bind_eq_some_iff.mp guest_
  have split : inviteAndRevoke = inviteAndRevoke.take 3 ++ inviteAndRevoke.drop 3 := rfl
  rw [split] at whole
  obtain ⟨again, ranAgain, ranBack⟩ := (Machine.run_append_iff _).mp whole
  cases ran.symm.trans ranAgain
  refine ⟨middle, final, writerLoop, readerLoop, _, ran, ranBack, writes, reads, rfl, ?_⟩
  rw [← second]
  exact (content_readers cleartext cleartext_lawful sequentialGroup sequentialGroup_lawful docsConfig
    pairIdentity true pairStart middle final (docsLoop founded) pairStart_founded
    (inviteAndRevoke.take 3) (inviteAndRevoke.drop 3) inviteAndRevoke_onlyOwner ran ranBack true false
    writerLoop readerLoop writes reads (by rw [second]; decide) _ _ _ rfl).2 2
    Bool.false_ne_true second.ge inviteAndRevoke_revokedAt

end Sample

end Peerdup.Daemon.ShareNetwork
