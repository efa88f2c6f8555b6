import Peerdup.Daemon.RunShareProperties

/-!
# The disk of a leech

What a leech writes depends on the announces and the torrents alone.
-/

set_option autoImplicit false

namespace Peerdup.Daemon

open Foundation Auth Crypto Rotation

variable {crdt : GroupCrdt} {crypto : Primitives}

/-- What an entry of the log offers a leech, and how the torrent behaves. -/
def announceOf : TaskEntry → Option (Announce × (FileTree → Fetch))
  | .acted (.gossip (.payload (some (.announce announce))), turn) => some (announce, turn.fetch)
  | _ => none

/-- Whether a leech is done, and its disk, after one more offer. -/
def leechFetch (disk : Bool × Device) (offer : Announce × (FileTree → Fetch)) : Bool × Device :=
  if disk.1 then disk
  else
    match RunningShare.leechApplyAnnounce disk.2 offer.1 offer.2 with
    | (.error _, device) => (false, device)
    | (.ok (), device) => (true, device)

theorem leechAnnounce_leeched {share : RunningShare crdt} {completed : Bool}
    (role : share.role = .leech completed) (announce : Announce) (fetch : FileTree → Fetch) :
    let disk := leechFetch (completed, share.device) (announce, fetch)
    (share.leechAnnounce completed announce fetch).role = .leech disk.1 ∧
      (share.leechAnnounce completed announce fetch).device = disk.2 := by
  unfold RunningShare.leechAnnounce leechFetch
  cases completed with
  | true => exact ⟨role, rfl⟩
  | false =>
      rcases RunningShare.leechApplyAnnounce share.device announce fetch with ⟨result, device⟩
      cases result with
      | error failure => exact ⟨role, rfl⟩
      | ok _ => exact ⟨rfl, rfl⟩

theorem foldl_leechFetch_done (device : Device) (offers : List (Announce × (FileTree → Fetch))) :
    offers.foldl leechFetch (true, device) = (true, device) := by
  induction offers with
  | nil => rfl
  | cons offer offers ih => exact ih

/-- The disk of a task in `leech_loop` is the one these offers make of it. -/
def LeechedBy (completed : Bool) (device : Device) (log : List TaskEntry)
    (share : RunningShare crdt) : Prop :=
  share.role = .leech ((log.filterMap announceOf).foldl leechFetch (completed, device)).1 ∧
    share.device = ((log.filterMap announceOf).foldl leechFetch (completed, device)).2

theorem LeechedBy.unmoved {completed : Bool} {device : Device} {log : List TaskEntry}
    {share next : RunningShare crdt} {entry : TaskEntry} (leeched : LeechedBy completed device log share)
    (nothing : announceOf entry = none) (role : next.role = share.role)
    (disk : next.device = share.device) : LeechedBy completed device (log ++ [entry]) next := by
  rw [LeechedBy, List.filterMap_append, List.filterMap_cons_none nothing, List.filterMap_nil,
    List.append_nil, role, disk]
  exact leeched

theorem LeechedBy.does {setup : ShareSetup crypto} {completed goesOn : Bool} {device : Device}
    {log : List TaskEntry} {share next : RunningShare crdt} {entry : TaskEntry}
    (leeched : LeechedBy completed device log share)
    (does : (runShare crdt setup).Does share entry next goesOn) :
    LeechedBy completed device (log ++ [entry]) next := by
  obtain ⟨role, disk⟩ := leeched
  cases entry with
  | handled call command turn reply =>
      have same : share.handle setup turn command = (reply, next, goesOn) := does
      have after : (share.handle setup turn command).2.1 = next := by rw [same]
      subst after
      exact LeechedBy.unmoved ⟨role, disk⟩ rfl rfl rfl
  | acted step =>
      obtain ⟨branch, turn⟩ := step
      have same : share.act setup turn branch = (next, goesOn) := does
      have after : (share.act setup turn branch).1 = next := by rw [same]
      subst after
      cases branch with
      | localChange inputs =>
          have still : (share.act setup turn (.localChange inputs)).1 = share := by
            unfold RunningShare.act RunningShare.localChange
            rw [role]
          rw [still]
          exact LeechedBy.unmoved ⟨role, disk⟩ rfl rfl rfl
      | announceTick =>
          have still : (share.act setup turn .announceTick).1 = share := by
            unfold RunningShare.act RunningShare.announceTick
            rw [role]
          rw [still]
          exact LeechedBy.unmoved ⟨role, disk⟩ rfl rfl rfl
      | gossip item =>
          cases item with
          | ended => exact LeechedBy.unmoved ⟨role, disk⟩ rfl rfl rfl
          | lagged => exact LeechedBy.unmoved ⟨role, disk⟩ rfl rfl rfl
          | payload msg =>
              cases msg with
              | none => exact LeechedBy.unmoved ⟨role, disk⟩ rfl rfl rfl
              | some msg =>
                  cases msg with
                  | authOps ops =>
                      exact LeechedBy.unmoved ⟨role, disk⟩ rfl rfl rfl
                  | keyRotation rotation =>
                      exact LeechedBy.unmoved ⟨role, disk⟩ rfl rfl rfl
                  | announce announce =>
                      have fetched : (share.act setup turn
                          (.gossip (.payload (some (.announce announce))))).1 =
                          share.leechAnnounce
                            ((log.filterMap announceOf).foldl leechFetch (completed, device)).1
                            announce turn.fetch := by
                        unfold RunningShare.act RunningShare.receive
                        dsimp only
                        rw [role]
                      have offered : announceOf (.acted (.gossip (.payload (some
                          (.announce announce))), turn)) = some (announce, turn.fetch) := rfl
                      rw [LeechedBy, List.filterMap_append, List.filterMap_cons_some offered,
                        List.filterMap_nil, List.foldl_append, fetched]
                      have leeched := leechAnnounce_leeched role announce turn.fetch
                      rw [disk] at leeched
                      exact leeched

/-- A leech stores what it fetches as it is: neither its keys nor the membership nor a command
have a say in what is on its disk, and one completed fetch is the last. -/
theorem leech_neverDecrypts (crypto : Primitives) (crdt : GroupCrdt) (setup : ShareSetup crypto)
    (share : RunningShare crdt) (completed : Bool) (leech : share.role = .leech completed)
    (events : List (Actor.Event ShareCommand Turn (Branch × Turn))) (box : CommandChannel crdt)
    (ran : (channelMachine crdt setup).run (.fresh share) events = some box) :
    LeechedBy completed share.device box.log box.state ∧
      ∀ front back, box.log = front ++ back → ∀ device,
        (front.filterMap announceOf).foldl leechFetch (completed, share.device) = (true, device) →
        box.state.device = device := by
  have performs := (Actor.explained_of_run ran).1.performs
  have leeched : LeechedBy completed share.device box.log box.state :=
    performs.history (fun _ _ _ _ _ leeched does => leeched.does does) ⟨leech, rfl⟩
  refine ⟨leeched, fun front back whole device done => ?_⟩
  rw [leeched.2, whole, List.filterMap_append, List.foldl_append, done, foldl_leechFetch_done]

section Samples

open Reference ShareLoop

/-- A torrent that completes at once and leaves one file. -/
def fetchingTurn : Turn :=
  { quietTurn with
    fetch := fun _ => ⟨.ok (some 0), .ofFiles [([ascii "docs", ascii "a"], [1])], .ok ()⟩ }

def seedAnnounce : Announce := ⟨"4f", [("127.0.0.1", 4240)], none, none, none⟩

/-- Two announces reach a leech. -/
def twoOffers : List (Actor.Event ShareCommand Turn (Branch × Turn)) :=
  [.act (.gossip (.payload (some (.announce seedAnnounce))), fetchingTurn),
    .act (.gossip (.payload (some (.announce seedAnnounce))), quietTurn)]

theorem twoOffers_fetchOnce : ∃ box,
    (channelMachine sequentialGroup docsSetup).run
        (.fresh (docsTask (docsLoop founded) (.leech false))) twoOffers = some box ∧
      LeechedBy false ⟨.empty, [], none⟩ box.log box.state := by
  have running : ((channelMachine sequentialGroup docsSetup).run
      (.fresh (docsTask (docsLoop founded) (.leech false))) twoOffers).isSome = true := by
    decide +kernel
  obtain ⟨box, ran⟩ := Option.isSome_iff_exists.mp running
  exact ⟨box, ran, (leech_neverDecrypts cleartext sequentialGroup docsSetup _ false rfl twoOffers
    box ran).1⟩

end Samples

end Peerdup.Daemon
