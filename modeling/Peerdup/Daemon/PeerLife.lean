import Peerdup.ClockProperties
import Peerdup.Daemon.ApplyRemote
import Peerdup.Foundation.Machine

/-!
# One peer's share over the daemon's life

The daemon starts, reconciles the disk with the persisted state, runs `sync_loop` and is
stopped, between its handlers or inside one. The user edits files at any time.
-/

set_option autoImplicit false

namespace Peerdup.Daemon

open Foundation Crypto

variable (crypto : Primitives) (root : Path) (peerIdHex : String) (key : KeyRing)

/-- The steps all branches share: encrypt the content and seed the shadow. -/
def seedContent (device : Device) (inputs : LocalInputs) (manifest : Manifest) :
    Except SyncFailure (String × Nat) × Device :=
  match syncPlaintextToShadow crypto device.tree root key inputs.nonces manifest with
  | (.error failure, tree) => (.error failure, device.withTree tree)
  | (.ok (), tree) => createAndAddShadowTorrent (device.withTree tree) (inputs.seed tree)

def reconcileOnStart (device : Device) (inputs : LocalInputs) :
    Except SyncFailure (Option ShareState) × Device :=
  match hasContent device.tree root with
  | .error failure => (.error failure, device)
  -- Without content the persisted state, if there is one, is dropped.
  | .ok false => (.ok none, device)
  | .ok true =>
      match snapshotContent crypto device.tree root with
      | .error failure => (.error failure, device)
      | .ok (diskVh, manifest) =>
          match seedContent crypto root key device inputs manifest with
          | (.error failure, device) => (.error failure, device)
          | (.ok (infoHash, torrentId), device) =>
              let adopt (clock : VectorClock) : Except SyncFailure (Option ShareState) × Device :=
                let state : ShareState := ⟨diskVh, infoHash, torrentId, clock, inputs.now, manifest⟩
                match persist device inputs.saved state with
                | (.error failure, device) => (.error failure, device)
                | (.ok (), device) => (.ok (some state), device)
              match device.stateFile with
              -- First run.
              | none => adopt (VectorClock.new.increment peerIdHex)
              | some persisted =>
                  if persisted.versionHash = diskVh then
                    (.ok (some ⟨diskVh, infoHash, torrentId, persisted.clock, persisted.timestamp,
                      manifest⟩), device)
                  -- Edited while the daemon was down.
                  else adopt (persisted.clock.increment peerIdHex)

/-- The share, the state `sync_loop` holds while it runs, every clock it has announced and
every version it has authored, oldest first. -/
structure PeerLife where
  device : Device
  running : Option (Option ShareState)
  announced : List VectorClock
  authored : List ShareState

inductive LifeEvent where
  | userEdits (tree : FileTree)
  /-- `killed`: the process ends after the save of the state and before it is announced. -/
  | start (inputs : LocalInputs) (killed : Bool)
  | stop
  | localChange (inputs : LocalInputs) (killed : Bool)
  | announceTick
  | receive (announce : Announce) (fetch : FileTree → Fetch) (saved : Except SyncFailure Unit)
      (killed : Bool)

namespace PeerLife

/-- A handler is done with a state. -/
def settle (life : PeerLife) (killed : Bool) (device : Device) (state : ShareState) : PeerLife :=
  if killed then { life with device, running := none }
  else { life with device, running := some (some state), announced := life.announced ++ [state.clock] }

def author (life : PeerLife) (state : ShareState) : PeerLife :=
  { life with authored := life.authored ++ [state] }

/-- Whether the start made a version of its own. -/
def authorsOnStart (device : Device) (state : ShareState) : Bool :=
  match device.stateFile with
  | none => true
  | some persisted => persisted.versionHash ≠ state.versionHash

def startLoop (life : PeerLife) (inputs : LocalInputs) (killed : Bool) : PeerLife :=
  match life.device.tree.createDirAll root with
  | .error _ => life
  | .ok tree =>
      -- A new session manages nothing yet.
      let device : Device := { life.device with tree, managed := [] }
      match reconcileOnStart crypto root peerIdHex key device inputs with
      | (.error _, device) => { life with device }
      | (.ok none, device) => { life with device, running := some none }
      | (.ok (some state), after) =>
          let life := if authorsOnStart device state then life.author state else life
          life.settle killed after state

def changeLocally (life : PeerLife) (current : Option ShareState) (inputs : LocalInputs)
    (killed : Bool) : PeerLife :=
  match handleLocalChange crypto life.device root peerIdHex key inputs current with
  | (.error _, device) => { life with device }
  | (.ok none, device) => { life with device }
  | (.ok (some state), device) => (life.author state).settle killed device state

/-- A state that cannot be saved is kept and announced all the same. -/
def receiveAnnounce (life : PeerLife) (current : Option ShareState) (announce : Announce)
    (fetch : FileTree → Fetch) (saved : Except SyncFailure Unit) (killed : Bool) : PeerLife :=
  match judgeAnnounce current announce with
  | .ignored => life
  | .localWins state => life.settle killed (persist life.device saved state).2 state
  | .applies remote =>
      match applyRemoteSync crypto life.device root remote key fetch current with
      | (.error _, device) => { life with device }
      | (.ok state, device) => life.settle killed (persist device saved state).2 state

/-- Events that the daemon is not there to take leave everything as it is. -/
def machine : Machine PeerLife LifeEvent where
  step life
    | .userEdits tree => some { life with device := life.device.withTree tree }
    | .start inputs killed =>
        match life.running with
        | none => some (life.startLoop crypto root peerIdHex key inputs killed)
        | some _ => some life
    | .stop => some { life with running := none }
    | .localChange inputs killed =>
        match life.running with
        | none => some life
        | some current => some (life.changeLocally crypto root peerIdHex key current inputs killed)
    | .announceTick =>
        match life.running with
        | some (some state) => some { life with announced := life.announced ++ [state.clock] }
        | some none => some life
        | none => some life
    | .receive announce fetch saved killed =>
        match life.running with
        | none => some life
        | some current =>
            some (life.receiveAnnounce crypto root key current announce fetch saved killed)

/-- A share that was just configured over any disk. -/
def fresh (tree : FileTree) : PeerLife := ⟨⟨tree, [], none⟩, none, [], []⟩

/-- Every clock announced covers those announced before it, and every authored version has
an own counter of its own. -/
structure ClocksSurvive (life : PeerLife) : Prop where
  announced : life.announced.Pairwise fun earlier later =>
    later.compare earlier = .equal ∨ later.compare earlier = .selfDominates
  authored : (life.authored.map fun state => state.clock.get peerIdHex).Nodup

/-- A start that finds a persisted state finds content too, no counter that is about to be
incremented stands at its maximum, and a state taken over from an announce is saved. -/
def KeepsClock (life : PeerLife) : LifeEvent → Prop
  | .start _ _ => life.running = none → ∀ tree persisted,
      life.device.tree.createDirAll root = .ok tree → life.device.stateFile = some persisted →
        hasContent tree root ≠ .ok false ∧
          ∀ diskVh manifest, snapshotContent crypto tree root = .ok (diskVh, manifest) →
            persisted.versionHash ≠ diskVh → persisted.clock.count peerIdHex + 1 < 2 ^ 64
  | .localChange _ _ => ∀ current, life.running = some current →
      ∀ newVhash manifest, snapshotContent crypto life.device.tree root = .ok (newVhash, manifest) →
        unchanged current newVhash = false →
          (currentClock current).count peerIdHex + 1 < 2 ^ 64
  | .receive _ _ saved _ => saved = .ok ()
  | _ => True

/-- `KeepsClock`, evaluated. -/
def keepsClock (life : PeerLife) : LifeEvent → Bool
  | .start _ _ =>
      match life.running, life.device.tree.createDirAll root, life.device.stateFile with
      | none, .ok tree, some persisted =>
          (hasContent tree root).toOption ≠ some false &&
            match snapshotContent crypto tree root with
            | .error _ => true
            | .ok (diskVh, _) =>
                persisted.versionHash = diskVh || persisted.clock.count peerIdHex + 1 < 2 ^ 64
      | _, _, _ => true
  | .localChange _ _ =>
      match life.running, snapshotContent crypto life.device.tree root with
      | some current, .ok (newVhash, _) =>
          unchanged current newVhash || (currentClock current).count peerIdHex + 1 < 2 ^ 64
      | _, _ => true
  | .receive _ _ saved _ => saved.isOk
  | _ => true

end PeerLife

end Peerdup.Daemon
