import Mathlib.Data.Set.Lattice
import Peerdup.Daemon.AnnouncedClocks
import Peerdup.Daemon.SwarmSteps
import Peerdup.Foundation.Gossip

/-!
# Membership spreads through a swarm

The logs of a share's tasks are gossip of growing sets: a command adds to the set of its peer,
an announce tick sends all of it, and a received log is joined in.
-/

set_option autoImplicit false

namespace Peerdup.Daemon.Swarm

open Foundation Auth Crypto RunningShare Relation

variable {crdt : GroupCrdt} {crypto : Primitives} {Peer : Type} {setupOf : Peer → ShareSetup crypto}
  {swarm next start middle final : Swarm crdt Peer} {event : SwarmEvent Peer}
  {events : List (SwarmEvent Peer)} {group : Finset SignedOp}

/-- What a message tells of the membership. -/
def logOf : ShareMsg → Option (Set SignedOp)
  | .authOps payload => some {op | ∃ raw ∈ payload, SignedOp.decode raw = some op}
  | .announce _ => none
  | .keyRotation _ => none

/-- The swarm as gossip of the operations that have been applied. -/
def view (swarm : Swarm crdt Peer) : Gossip Peer (Set SignedOp) where
  held peer := {op | op ∈ swarm.opsOf peer}
  sent peer := (swarm.tasks peer).published.map logOf

theorem logOf_whole {payload : List Bytes} {log : List SignedOp}
    (whole : WholeLog crypto group payload log) (holdable : ∀ op ∈ group, op.Holdable) :
    logOf (.authOps payload) = some {op | op ∈ log} := by
  have decoded : ∀ op ∈ log, SignedOp.decode op.encode = some op := fun op member =>
    ShareFiles.decode_encode_op (holdable op (whole.among op member))
  rw [logOf, whole.encoded]
  congr 1
  ext op
  constructor
  · rintro ⟨raw, member, read⟩
    obtain ⟨sent, held, rfl⟩ := List.mem_map.mp member
    rw [decoded sent held] at read
    exact Option.some.inj read ▸ held
  · exact fun member => ⟨op.encode, List.mem_map_of_mem member, decoded op member⟩

theorem log_of_mem_sent {peer : Peer} {log : Set SignedOp} (member : some log ∈ swarm.view.sent peer) :
    ∃ payload, .authOps payload ∈ (swarm.tasks peer).published ∧
      logOf (.authOps payload) = some log := by
  obtain ⟨msg, published, same⟩ := List.mem_map.mp member
  cases msg with
  | authOps payload => exact ⟨payload, published, same⟩
  | announce announce => cases same
  | keyRotation rotation => cases same

variable [DecidableEq Peer]

theorem view_sent_setTask (swarm : Swarm crdt Peer) (peer other : Peer) (share : RunningShare crdt)
    (goesOn : Bool) : (swarm.setTask peer share goesOn).view.sent other =
      if other = peer then share.published.map logOf else swarm.view.sent other := by
  rw [view, setTask]
  dsimp only
  rw [Function.update_apply]
  split <;> rfl

theorem view_held_setTask (swarm : Swarm crdt Peer) (peer other : Peer) (share : RunningShare crdt)
    (goesOn : Bool) : (swarm.setTask peer share goesOn).view.held other =
      if other = peer then {op | op ∈ share.loop.authState.ops} else swarm.view.held other := by
  ext op
  change op ∈ (swarm.setTask peer share goesOn).opsOf other ↔ _
  rw [opsOf_setTask]
  split <;> exact Iff.rfl

theorem view_sent_same {peer : Peer} {share : RunningShare crdt} (goesOn : Bool)
    (same : share.published = (swarm.tasks peer).published) :
    (swarm.setTask peer share goesOn).view.sent = swarm.view.sent := by
  funext other
  rw [view_sent_setTask, same]
  split
  · next here => exact here ▸ rfl
  · rfl

/-- A peer that receives a log joins in what it tells. -/
theorem view_takes (setting : Setting crypto crdt group) (sane : swarm.Sane crypto group)
    {peer source : Peer} {index : Nat} {payload : List Bytes}
    (published : (swarm.tasks source).published[index]? = some (.authOps payload)) (goesOn : Bool) :
    Gossip.Takes peer source index swarm.view
      (swarm.setTask peer ((swarm.tasks peer).receiveAuthOps crypto payload) goesOn).view := by
  obtain ⟨log, whole, _, ops⟩ := sane.took setting peer published
  refine ⟨⟨{op | op ∈ log}, ?_, ?_⟩, fun other apart => ?_, view_sent_same goesOn rfl⟩
  · rw [view]
    dsimp only
    rw [List.getElem?_map, published, Option.map_some, logOf_whole whole setting.holdable]
  · rw [view_held_setTask, if_pos rfl]
    ext op
    exact ops op
  · rw [view_held_setTask, if_neg apart]

/-- Every event of a swarm is one of gossip, and only a command adds anything. -/
theorem view_step (setting : Setting crypto crdt group) (sane : swarm.Sane crypto group)
    (accepted : swarm.Accepted setupOf event)
    (stepped : (machine crdt setupOf).step swarm event = some next) :
    Gossip.Spreads swarm.speakers swarm.view next.view ∨
      event.authors = true ∧ Gossip.Adds swarm.view next.view := by
  obtain ⟨share, goesOn, rfl, _, outcome⟩ := step_cases stepped
  cases outcome with
  | @kept _ _ messages same published logs =>
      refine .inl (.sends ⟨?_, fun peer => ?_⟩)
      · funext peer
        rw [view_held_setTask, same]
        split
        · next here => exact here ▸ rfl
        · rfl
      · rw [view_sent_setTask]
        by_cases here : peer = event.peer
        · subst here
          rw [if_pos rfl, published, List.map_append]
          refine ⟨messages.map logOf, rfl, fun value member => ?_⟩
          obtain ⟨msg, listed, read⟩ := List.mem_map.mp member
          cases msg with
          | announce announce => cases read
          | keyRotation rotation => cases read
          | authOps payload =>
              obtain ⟨speaks, encoded⟩ := logs payload listed
              have settled := sane.settled event.peer
              rw [logOf_whole ⟨encoded, settled.replayable.ordered, settled.among⟩
                setting.holdable] at read
              exact ⟨speaks, (Option.some.inj read).symm⟩
        · rw [if_neg here]
          exact ⟨[], (List.append_nil _).symm, fun _ contra => by cases contra⟩
  | authored authors published _ =>
      refine .inr ⟨authors, ⟨fun peer => ?_, view_sent_same goesOn published⟩⟩
      exact fun op member => ops_subset_of_step accepted stepped peer op member
  | took published => exact .inl (.takes (view_takes setting sane published goesOn))

theorem run_handle {peer : Peer} (running : swarm.running peer = true) (command : ShareCommand)
    (turn : Turn) :
    let outcome := (swarm.tasks peer).handle (setupOf peer) turn command
    (machine crdt setupOf).run swarm [.handle peer command turn] =
      some (swarm.setTask peer outcome.2.1 outcome.2.2) := by
  refine (Machine.run_cons_iff _).mpr ⟨_, ?_, rfl⟩
  unfold machine iterate
  dsimp only
  rw [if_pos running]

theorem hear_step {peer source : Peer} {index : Nat} {turn : Turn} {payload : List Bytes}
    (published : (swarm.tasks source).published[index]? = some (.authOps payload))
    (stepped : (machine crdt setupOf).step swarm (.hear peer source index turn) = some next) :
    ∃ goesOn, next =
      swarm.setTask peer ((swarm.tasks peer).receiveAuthOps crypto payload) goesOn := by
  unfold machine at stepped
  dsimp only at stepped
  rw [published] at stepped
  exact ⟨_, iterate_some stepped⟩

/-- A run of a swarm in which the CRDT accepts the commands is one of gossip. -/
theorem view_run (setting : Setting crypto crdt group) (sane : start.Sane crypto group)
    (met : (machine crdt setupOf).Along (fun swarm event => swarm.Accepted setupOf event) start
      events)
    (ran : (machine crdt setupOf).run start events = some final)
    (within : ∀ peer, ∀ op ∈ final.opsOf peer, op ∈ group) :
    final.Sane crypto group ∧ final.speakers = start.speakers ∧
      ReflTransGen (Gossip.Grows start.speakers) start.view final.view ∧
      ((∀ event ∈ events, event.authors = false) →
        ReflTransGen (Gossip.Spreads start.speakers) start.view final.view) := by
  induction events generalizing start with
  | nil =>
      cases ran
      exact ⟨sane, rfl, .refl, fun _ => .refl⟩
  | cons event events ih =>
      obtain ⟨next, stepped, rest⟩ := (Machine.run_cons_iff _).mp ran
      obtain ⟨accepted, later⟩ := met
      have inside : ∀ op ∈ next.opsOf event.peer, op ∈ group := fun op member =>
        within event.peer op (ops_subset_of_run (later next stepped) rest event.peer op member)
      obtain ⟨saneFinal, speaks, grown, spread⟩ :=
        ih (sane.step setting accepted stepped inside) (later next stepped) rest
      rw [speakers_step stepped] at speaks grown spread
      have moved := view_step setting sane accepted stepped
      refine ⟨saneFinal, speaks, .head ?_ grown, fun quiet => ?_⟩
      · rcases moved with spreads | ⟨_, adds⟩
        · exact .spreads spreads
        · exact .adds adds
      · obtain ⟨silent, others⟩ := List.forall_mem_cons.mp quiet
        rcases moved with spreads | ⟨authors, _⟩
        · exact .head spreads (spread others)
        · cases authors.symm.trans silent

omit [DecidableEq Peer] in
/-- A task that has just been started holds what was on disk, none of which waits, and has
published no log yet. -/
theorem begun_spec (begun : start.Begun setupOf) (peer : Peer) :
    (start.tasks peer).loop.authState.Replayable crypto ∧
      (start.tasks peer).loop.authState.pending = [] ∧
      ∀ payload, .authOps payload ∉ (start.tasks peer).published := by
  obtain ⟨created, dir, loop, device, inputs, role, spawned, started⟩ := begun peer
  have logs : (start.tasks peer).loop = loop ∧
      ∀ payload, .authOps payload ∉ (start.tasks peer).published := by
    generalize start.tasks peer = share at started
    cases started_of_start started with
    | seed _ => exact ⟨rfl, fun _ => List.not_mem_nil⟩
    | leech =>
        refine ⟨rfl, fun payload member => ?_⟩
        obtain ⟨_, _, contra⟩ := List.mem_map.mp member
        cases contra
    | sync => exact ⟨rfl, fun _ => List.not_mem_nil⟩
    | holding =>
        refine ⟨rfl, fun payload member => ?_⟩
        cases List.mem_singleton.mp member
  rw [logs.1]
  unfold spawnShareTask at spawned
  split at spawned
  · cases spawned
  split at spawned
  · cases spawned
  next loaded =>
    cases spawned
    refine ⟨AuthState.replayable_of_load loaded, ?_, logs.2⟩
    unfold AuthState.load at loaded
    split at loaded
    · cases loaded
      rfl
    split at loaded
    · cases loaded
    split at loaded
    · cases loaded
    next settled =>
      cases loaded
      simpa using settled

omit [DecidableEq Peer] in
theorem begun_sane (begun : start.Begun setupOf)
    (within : ∀ peer, ∀ op ∈ start.opsOf peer, op ∈ group) : start.Sane crypto group where
  settled peer :=
    have ⟨replayable, settled, _⟩ := begun_spec begun peer
    ⟨replayable, settled, within peer⟩
  whole peer payload member := absurd member ((begun_spec begun peer).2.2 payload)

omit [DecidableEq Peer] in
theorem begun_sound (begun : start.Begun setupOf) : start.view.Sound start.speakers := by
  intro peer log member
  obtain ⟨payload, published, _⟩ := log_of_mem_sent member
  exact absurd published ((begun_spec begun peer).2.2 payload)

theorem view_hears (setting : Setting crypto crdt group) (sane : start.Sane crypto group)
    (met : (machine crdt setupOf).Along (fun swarm event => swarm.Accepted setupOf event) start
      events)
    (ran : (machine crdt setupOf).run start events = some final)
    (within : ∀ peer, ∀ op ∈ final.opsOf peer, op ∈ group)
    (quiet : ∀ event ∈ events, event.authors = false) {peer source : Peer}
    (hears : start.Hears setupOf events peer source) :
    Gossip.Hears start.speakers start.view final.view peer source := by
  obtain ⟨early, index, turn, late, before, payload, rfl, ranEarly, new, published⟩ := hears
  obtain ⟨middle, again, ranLate⟩ := (Machine.run_append_iff _).mp ran
  cases ranEarly.symm.trans again
  obtain ⟨after, stepped, rest⟩ := (Machine.run_cons_iff _).mp ranLate
  obtain ⟨metEarly, metRest⟩ := (Machine.along_append_iff _).mp met
  obtain ⟨accepted, metLate⟩ := metRest before ranEarly
  have grown : ∀ peer, ∀ op ∈ before.opsOf peer, op ∈ group := fun other op member =>
    within other op (ops_subset_of_run (metRest before ranEarly) ranLate other op member)
  have grownAfter : ∀ peer, ∀ op ∈ after.opsOf peer, op ∈ group := fun other op member =>
    within other op (ops_subset_of_run (metLate after stepped) rest other op member)
  obtain ⟨saneBefore, speaks, _, spread⟩ := view_run setting sane metEarly ranEarly grown
  have saneAfter := saneBefore.step setting accepted stepped (grownAfter _)
  obtain ⟨_, _, _, spreadRest⟩ := view_run setting saneAfter (metLate after stepped) rest within
  rw [speakers_step stepped, speaks] at spreadRest
  have calm := List.forall_mem_append.mp quiet
  refine ⟨index, before.view, after.view, spread calm.1, ?_, ?_,
    spreadRest fun event member => calm.2 event (List.mem_cons_of_mem _ member)⟩
  · rw [view, List.length_map]
    exact new
  · obtain ⟨goesOn, same⟩ := hear_step published stepped
    exact same ▸ view_takes setting saneBefore published goesOn

omit [DecidableEq Peer] in
theorem accepted_of_quiet (quiet : event.authors = false) : swarm.Accepted setupOf event := by
  cases event with
  | handle peer command turn =>
      cases command with
      | invite invitee authRole suggestedRole => cases quiet
      | revoke target => cases quiet
      | rotateKey => trivial
      | members => trivial
      | shutdown => trivial
  | act peer branch turn => trivial
  | hear peer source index turn => trivial

variable (setupOf) in
/-- Over the events, the peer hears every other speaker, and it starts with nothing that none of
them has. The latter is so for every speaker. -/
structure Informed (start : Swarm crdt Peer) (events : List (SwarmEvent Peer)) (peer : Peer) :
    Prop where
  hears : ∀ source ∈ start.speakers, source ≠ peer → start.Hears setupOf events peer source
  spoken : ∀ op ∈ start.opsOf peer, ∃ source ∈ start.speakers, op ∈ start.opsOf source

/-- In no run does any operation wait for its deps. Once no more commands come, no peer gets more
than it had and the speakers had, so what only a leech has stays there. A peer that hears every
speaker gets all of that, and all such peers agree on the members, in whatever order the logs have
reached them. -/
theorem membership_converges (crypto : Primitives) (crdt : GroupCrdt) (group : Finset SignedOp)
    (setting : Setting crypto crdt group) (setupOf : Peer → ShareSetup crypto)
    (start middle final : Swarm crdt Peer) (front back : List (SwarmEvent Peer))
    (begun : start.Begun setupOf)
    (met : (machine crdt setupOf).Along (fun swarm event => swarm.Accepted setupOf event) start
      front)
    (ran : (machine crdt setupOf).run start front = some middle)
    (ranBack : (machine crdt setupOf).run middle back = some final)
    (quiet : ∀ event ∈ back, event.authors = false)
    (within : ∀ peer, ∀ op ∈ final.opsOf peer, op ∈ group) :
    (∀ peer, (final.tasks peer).loop.authState.pending = []) ∧
    (∀ peer, ∀ op ∈ final.opsOf peer,
      op ∈ middle.opsOf peer ∨ ∃ source ∈ middle.speakers, op ∈ middle.opsOf source) ∧
    (∀ peer, (∀ source ∈ middle.speakers, source ≠ peer → middle.Hears setupOf back peer source) →
      ∀ op, op ∈ final.opsOf peer ↔
        op ∈ middle.opsOf peer ∨ ∃ source ∈ middle.speakers, op ∈ middle.opsOf source) ∧
    (OrderIrrelevant crypto crdt group → ∀ one other, middle.Informed setupOf back one →
      middle.Informed setupOf back other → ∀ groupId,
        (final.tasks one).loop.authState.members groupId =
          (final.tasks other).loop.authState.members groupId) := by
  have metBack : (machine crdt setupOf).Along (fun swarm event => swarm.Accepted setupOf event)
      middle back :=
    Machine.along_mono _ (fun _ _ silent => accepted_of_quiet silent)
      (Machine.along_of_mem _ quiet middle)
  have withinMiddle : ∀ peer, ∀ op ∈ middle.opsOf peer, op ∈ group := fun peer op member =>
    within peer op (ops_subset_of_run metBack ranBack peer op member)
  have withinStart : ∀ peer, ∀ op ∈ start.opsOf peer, op ∈ group := fun peer op member =>
    withinMiddle peer op (ops_subset_of_run met ran peer op member)
  obtain ⟨sane, speaks, grown, _⟩ :=
    view_run setting (begun_sane begun withinStart) met ran withinMiddle
  obtain ⟨saneFinal, _, _, spread⟩ := view_run setting sane metBack ranBack within
  have sound : middle.view.Sound middle.speakers := speaks ▸ (begun_sound begun).run grown
  have known : ∀ peer op, op ∈ middle.view.held peer ∪ ⋃ source ∈ middle.speakers,
      middle.view.held source ↔
        op ∈ middle.opsOf peer ∨ ∃ source ∈ middle.speakers, op ∈ middle.opsOf source := by
    intro peer op
    rw [Set.mem_union, Set.mem_iUnion₂]
    simp only [exists_prop]
    exact Iff.rfl
  have bounded : ∀ peer, ∀ op ∈ final.opsOf peer,
      op ∈ middle.opsOf peer ∨ ∃ source ∈ middle.speakers, op ∈ middle.opsOf source :=
    fun peer op member =>
      (known peer op).mp ((Gossip.held_le_of_spreads sound (spread quiet)).1 peer member)
  have collected : ∀ peer,
      (∀ source ∈ middle.speakers, source ≠ peer → middle.Hears setupOf back peer source) →
      ∀ op, op ∈ final.opsOf peer ↔
        op ∈ middle.opsOf peer ∨ ∃ source ∈ middle.speakers, op ∈ middle.opsOf source := by
    intro peer hears op
    have joined := Gossip.held_of_hears sound (spread quiet) fun source speaker apart =>
      view_hears setting sane metBack ranBack within quiet (hears source speaker apart)
    exact (Set.ext_iff.mp joined op).trans (known peer op)
  refine ⟨fun peer => (saneFinal.settled peer).settled, bounded, collected, ?_⟩
  intro irrelevant one other first second groupId
  have all : ∀ peer, middle.Informed setupOf back peer → ∀ op, op ∈ final.opsOf peer ↔
      ∃ source ∈ middle.speakers, op ∈ middle.opsOf source := by
    intro peer informed op
    rw [collected peer informed.hears op]
    exact or_iff_right_of_imp (informed.spoken op)
  have left := saneFinal.settled one
  have right := saneFinal.settled other
  have perm : (final.opsOf one).Perm (final.opsOf other) := by
    refine (List.perm_ext_iff_of_nodup left.listing.nodup right.listing.nodup).mpr fun op => ?_
    exact (all one first op).trans (all other second op).symm
  have states := irrelevant _ _ _ _ left.listing right.listing perm left.replayable.processed
    right.replayable.processed
  rw [AuthState.members, AuthState.members, states]

section Samples

open Reference ShareLoop
open AuthState (creation admission admissionGroup)

/-- A task that seeds the directory of the docs. -/
def docsSeed (setup : ShareSetup cleartext) (loop : ShareLoop sequentialGroup) :
    RunningShare sequentialGroup :=
  ⟨loop, ⟨.ofFiles [([ascii "docs", ascii "a"], [1])], [0], none⟩,
    .seed ⟨"4f", [("127.0.0.1", setup.btPort)], none, none, none⟩, []⟩

theorem docsSeed_started (setup : ShareSetup cleartext) (loop : ShareLoop sequentialGroup)
    (root : setup.root = [ascii "docs"]) :
    (RunningShare.start setup loop ⟨.ofFiles [([ascii "docs", ascii "a"], [1])], [], none⟩
      workingInputs .seed).1 = .ok (docsSeed setup loop) := by
  have there : ((FileTree.ofFiles [([ascii "docs", ascii "a"], [1])]).look
      [ascii "docs"]).isSome = true := by decide +kernel
  obtain ⟨entry, found⟩ := Option.isSome_iff_exists.mp there
  unfold RunningShare.start startSeed
  dsimp only
  rw [root, found]
  rfl

theorem spawn_emptyLoop (created : Key) :
    spawnShareTask cleartext created (docsLoop .empty).dir = .ok (docsLoop .empty) := by
  unfold spawnShareTask
  rw [docsLoop_synced, loadOrCreateKeyring_fileBytes created (docsLoop .empty).key]
  rfl

/-- The founder's task and one of a guest that knows nothing yet. -/
def pairSetup : Bool → ShareSetup cleartext
  | true => docsSetup
  | false => ⟨docsConfig, guest, [ascii "docs"], 4241⟩

def pairSwarm : Swarm sequentialGroup Bool where
  tasks
    | true => docsSeed (pairSetup true) (docsLoop founded)
    | false => docsSeed (pairSetup false) (docsLoop .empty)
  running _ := true

theorem pairSwarm_begun : pairSwarm.Begun pairSetup
  | true => ⟨.ofBytes 32 [9], _, _, _, _, .seed, spawn_docsLoop _, docsSeed_started _ _ rfl⟩
  | false => ⟨.ofBytes 32 [9], _, _, _, _, .seed, spawn_emptyLoop _, docsSeed_started _ _ rfl⟩

def invitation : List (SwarmEvent Bool) :=
  [.handle true (.invite guest.val .writer .sync) quietTurn]

/-- Both tick, and each receives the log of the other. -/
def exchange : List (SwarmEvent Bool) :=
  [.act true .announceTick quietTurn, .hear false true 1 quietTurn,
    .act false .announceTick quietTurn, .hear true false 1 quietTurn]

theorem admissionGroup_listing {ops : List SignedOp}
    (listing : CausalListing cleartext admissionGroup ops) :
    ops = [] ∨ ops = [creation] ∨ ops = [creation, admission] := by
  have named : creation.computeId cleartext ∈ admission.deps := by decide +kernel
  cases ops with
  | nil => exact .inl rfl
  | cons first rest =>
      have head : first = creation := by
        rcases Finset.mem_insert.mp (listing.among first List.mem_cons_self) with same | same
        · exact same
        · have waits := listing.ordered [] first rest rfl
          rw [Finset.mem_singleton.mp same] at waits
          exact absurd (waits _ named) List.not_mem_nil
      subst head
      have onward : ∀ op ∈ rest, op = admission := by
        intro op member
        have listed := listing.among op (List.mem_cons_of_mem _ member)
        rcases Finset.mem_insert.mp listed with same | same
        · exact absurd (same ▸ member) (List.nodup_cons.mp listing.nodup).1
        · exact Finset.mem_singleton.mp same
      have few := List.eq_replicate_of_mem onward
      have once := (List.nodup_cons.mp listing.nodup).2
      rw [few] at once ⊢
      have short := List.nodup_replicate.mp once
      generalize rest.length = count at short ⊢
      cases count with
      | zero => exact .inr (.inl rfl)
      | succ count =>
          cases count with
          | zero => exact .inr (.inr rfl)
          | succ count => omega

theorem admissionGroup_orderIrrelevant :
    OrderIrrelevant cleartext sequentialGroup admissionGroup := by
  intro first second left right one other perm processed again
  have same : first = second := by
    have length := perm.length_eq
    rcases admissionGroup_listing one with rfl | rfl | rfl <;>
      rcases admissionGroup_listing other with rfl | rfl | rfl <;>
      first | rfl | cases length
  subst same
  exact Except.ok.inj (processed.symm.trans again)

theorem admissionGroup_setting : Setting cleartext sequentialGroup admissionGroup where
  lawful := cleartext_lawful
  heads := sequentialGroup_headsProcessed
  signed := AuthState.admissionGroup_signed
  accepts := AuthState.admissionGroup_accepted
  holdable op member := by
    have both : ∀ op ∈ [creation, admission], op.Holdable := by decide +kernel
    exact both op (by simpa [admissionGroup] using member)

/-- The founder has invited the guest. -/
def invitedSwarm : Swarm sequentialGroup Bool :=
  let outcome := (pairSwarm.tasks true).handle (pairSetup true) quietTurn
    (.invite guest.val .writer .sync)
  pairSwarm.setTask true outcome.2.1 outcome.2.2

theorem invitation_ran :
    (machine sequentialGroup pairSetup).run pairSwarm invitation = some invitedSwarm :=
  @run_handle sequentialGroup cleartext Bool pairSetup pairSwarm _ true rfl
    (.invite guest.val .writer .sync) quietTurn

/-- After these events there is a log at this index of what the source has published since. -/
def publishesAt (early : List (SwarmEvent Bool)) (source : Bool) (index : Nat) : Bool :=
  ((machine sequentialGroup pairSetup).run invitedSwarm early).any fun before =>
    decide ((invitedSwarm.tasks source).published.length ≤ index) &&
      ((before.tasks source).published[index]?).any fun msg => (logOf msg).isSome

theorem hears_of_publishesAt {early late : List (SwarmEvent Bool)} {peer source : Bool} {index : Nat}
    {turn : Turn} (published : publishesAt early source index = true) :
    invitedSwarm.Hears pairSetup (early ++ .hear peer source index turn :: late) peer source := by
  obtain ⟨before, ran, both⟩ := (Option.any_eq_true _ _).mp published
  obtain ⟨new, there⟩ := Bool.and_eq_true_iff.mp both
  obtain ⟨msg, found, log⟩ := (Option.any_eq_true _ _).mp there
  cases msg with
  | authOps payload =>
      exact ⟨early, index, turn, late, before, payload, rfl, ran, of_decide_eq_true new, found⟩
  | announce announce => cases log
  | keyRotation rotation => cases log

theorem informed_exchange : ∀ peer, invitedSwarm.Informed pairSetup exchange peer := by
  have founderHeard : publishesAt [.act true .announceTick quietTurn] true 1 = true := by
    decide +kernel
  have guestHeard : publishesAt [.act true .announceTick quietTurn, .hear false true 1 quietTurn,
      .act false .announceTick quietTurn] false 1 = true := by decide +kernel
  intro peer
  have speaks : peer ∈ invitedSwarm.speakers := by
    have both : ∀ peer, isLeech (invitedSwarm.tasks peer).role = false := by decide +kernel
    exact both peer
  refine ⟨fun source _ apart => ?_, fun op member => ⟨peer, speaks, member⟩⟩
  cases peer <;> cases source
  · exact absurd rfl apart
  · exact hears_of_publishesAt founderHeard
  · exact hears_of_publishesAt guestHeard
  · exact absurd rfl apart

theorem invitation_spreads : ∃ final : Swarm sequentialGroup Bool,
    (machine sequentialGroup pairSetup).run invitedSwarm exchange = some final ∧
    (∀ peer, (final.tasks peer).loop.authState.pending = []) ∧
    (∀ op, op ∈ final.opsOf false ↔
      op ∈ invitedSwarm.opsOf false ∨ ∃ source ∈ invitedSwarm.speakers, op ∈ invitedSwarm.opsOf source) ∧
    ∀ groupId, (final.tasks true).loop.authState.members groupId =
      (final.tasks false).loop.authState.members groupId := by
  have known : ((machine sequentialGroup pairSetup).run invitedSwarm exchange).any (fun final =>
      [true, false].all fun peer => (final.opsOf peer).all (· ∈ [creation, admission])) = true := by
    decide +kernel
  obtain ⟨final, ran, listed⟩ := (Option.any_eq_true _ _).mp known
  have within : ∀ peer, ∀ op ∈ final.opsOf peer, op ∈ admissionGroup := by
    intro peer op member
    have here := List.all_eq_true.mp listed peer (by cases peer <;> decide)
    have either := of_decide_eq_true (List.all_eq_true.mp here op member)
    simpa [admissionGroup] using either
  have quiet : ∀ event ∈ exchange, event.authors = false := by decide +kernel
  obtain ⟨settled, _, collected, agree⟩ := membership_converges cleartext sequentialGroup admissionGroup
    admissionGroup_setting pairSetup pairSwarm invitedSwarm final invitation exchange pairSwarm_begun
    ⟨inviteAndRestart_unrejected.1, fun _ _ => trivial⟩ invitation_ran ran quiet within
  exact ⟨final, ran, settled, collected false (informed_exchange false).hears,
    agree admissionGroup_orderIrrelevant true false (informed_exchange true) (informed_exchange false)⟩

end Samples

end Peerdup.Daemon.Swarm
