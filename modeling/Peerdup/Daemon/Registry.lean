import Peerdup.Daemon.PresentShare
import Peerdup.Foundation.Machine

/-!
# The registry of running shares

A daemon has a map from share ids to the tasks that take their commands, and the set of all
its tasks. The map is what `share_add` and `share_join` ask, and what `serve` ends by.
-/

set_option autoImplicit false

namespace Peerdup.Daemon

open Foundation Auth Crypto ShareFiles

inductive TaskExit where
  | clean
  | error
  | panic
deriving DecidableEq

inductive TaskStatus where
  | running
  /-- A `share_remove` has sent it `Shutdown`. -/
  | asked
  | exited (cause : TaskExit)
deriving DecidableEq

def TaskStatus.hasExited : TaskStatus → Bool
  | .exited _ => true
  | _ => false

structure ShareTask where
  number : Nat
  share : String
  status : TaskStatus
deriving DecidableEq

/-- `DaemonRuntime::shares` and `DaemonRuntime::tasks`. A sender is the number of its task. -/
structure Registry where
  shares : List (String × Nat)
  tasks : List ShareTask
  next : Nat
  sent : ∀ entry ∈ shares, entry.2 < next
  spawned : ∀ task ∈ tasks, task.number < next
  owned : ∀ entry ∈ shares, ∀ task ∈ tasks, task.number = entry.2 → task.share = entry.1

namespace Registry

def empty : Registry where
  shares := []
  tasks := []
  next := 0
  sent _ impossible := nomatch impossible
  spawned _ impossible := nomatch impossible
  owned _ impossible := nomatch impossible

variable (registry : Registry)

def ids : List String := registry.shares.map Prod.fst

def sender (id : String) : Option Nat := (registry.shares.find? (·.1 = id)).map Prod.snd

/-- Spawn a task and keep its sender, in place of the one that the share had. -/
def register (id : String) : Registry where
  shares := registry.shares.filter (·.1 ≠ id) ++ [(id, registry.next)]
  tasks := registry.tasks ++ [⟨registry.next, id, .running⟩]
  next := registry.next + 1
  sent := by
    intro entry member
    rcases List.mem_append.mp member with older | fresh
    · have less := registry.sent entry (List.mem_of_mem_filter older)
      omega
    · cases List.mem_singleton.mp fresh
      exact Nat.lt_succ_self _
  spawned := by
    intro task member
    rcases List.mem_append.mp member with older | fresh
    · have less := registry.spawned task older
      omega
    · cases List.mem_singleton.mp fresh
      exact Nat.lt_succ_self _
  owned := by
    intro entry inside task member same
    rcases List.mem_append.mp inside with older | fresh
    · have sent := registry.sent entry (List.mem_of_mem_filter older)
      rcases List.mem_append.mp member with running | new
      · exact registry.owned entry (List.mem_of_mem_filter older) task running same
      · cases List.mem_singleton.mp new
        dsimp only at same
        omega
    · cases List.mem_singleton.mp fresh
      rcases List.mem_append.mp member with running | new
      · have spawned := registry.spawned task running
        dsimp only at same
        omega
      · cases List.mem_singleton.mp new
        rfl

/-- Keep some of the senders, and give every task the status it comes to. -/
def update (keep : String → Bool) (status : ShareTask → TaskStatus) : Registry where
  shares := registry.shares.filter (keep ·.1)
  tasks := registry.tasks.map fun task => { task with status := status task }
  next := registry.next
  sent entry member := registry.sent entry (List.mem_of_mem_filter member)
  spawned := by
    intro task member
    obtain ⟨before, listed, same⟩ := List.mem_map.mp member
    rw [← same]
    exact registry.spawned before listed
  owned := by
    intro entry inside task member
    obtain ⟨before, listed, same⟩ := List.mem_map.mp member
    rw [← same]
    exact registry.owned entry (List.mem_of_mem_filter inside) before listed

/-- Take a share's sender out of the map, and send `Shutdown` to its task. A task that has
exited takes no command. -/
def unregister (id : String) : Registry :=
  registry.update (· ≠ id) fun task =>
    if registry.sender id = some task.number ∧ task.status = .running then .asked else task.status

def exit (number : Nat) (cause : TaskExit) : Registry :=
  registry.update (fun _ => true) fun task =>
    if task.number = number then .exited cause else task.status

/-- `join_next` hands out a task that has exited. The map is not looked at. -/
def reap (number : Nat) : Registry where
  shares := registry.shares
  tasks := registry.tasks.filter fun task => !(task.number = number && task.status.hasExited)
  next := registry.next
  sent := registry.sent
  spawned task member := registry.spawned task (List.mem_of_mem_filter member)
  owned entry inside task member := registry.owned entry inside task (List.mem_of_mem_filter member)

def hasExited (number : Nat) : Bool :=
  registry.tasks.any fun task => task.number = number && task.status.hasExited

def isAlive (number : Nat) : Bool :=
  registry.tasks.any fun task => task.number = number && !task.status.hasExited

end Registry

inductive ServeEvent where
  | spawnAtStart (config : StoredConfig) (created : Key)
  | shareAdd (topic : String) (path : Bytes) (role : String) (now : Timestamp) (created : Key)
  | shareJoin (decoded : Except Failure Ticket) (path : Bytes) (now : Timestamp) (created : Key)
  | shareRemove (id : String)
  | exit (number : Nat) (cause : TaskExit)
  | reap (number : Nat)

/-- A daemon as `serve` runs it. -/
structure Serve where
  crdt : GroupCrdt
  crypto : Primitives
  formats : AddFormats
  identity : crypto.PrivateKey
  dataDir : RawPath
  cwd : Except SyncFailure RawPath
  noSharesAtStart : Bool
  registerDbus : Bool

namespace Serve

variable (serve : Serve)

/-- One step, with the disk as it happens to be. Tasks and users write to it all the time. -/
def step (registry : Registry) : FileTree × ServeEvent → Option Registry
  | (tree, .spawnAtStart config created) =>
      match spawnTask tree serve.crdt serve.crypto (shareDir serve.dataDir config.id) created with
      | (.error _, _) => some registry
      | (.ok _, _) => some (registry.register config.id)
  | (tree, .shareAdd topic path role now created) =>
      match ShareFiles.shareAdd tree serve.dataDir serve.crypto serve.formats serve.crdt
          serve.identity created now registry.ids serve.cwd topic path role with
      | (.error _, _, _) => some registry
      | (.ok id, _, _) => some (registry.register id)
  | (tree, .shareJoin decoded path now created) =>
      match ShareFiles.shareJoin serve.formats.toFileFormats tree serve.dataDir serve.crypto
          serve.identity serve.crdt created now registry.ids serve.cwd decoded path with
      | (.error _, _, _) => some registry
      | (.ok id, _, _) => some (registry.register id)
  | (tree, .shareRemove id) =>
      match loadAll serve.formats.toFileFormats tree serve.dataDir with
      | .error _ => some registry
      | .ok _ => some (registry.unregister id)
  | (_, .exit number cause) =>
      if registry.isAlive number then some (registry.exit number cause) else none
  | (_, .reap number) => if registry.hasExited number then some (registry.reap number) else none

def machine : Machine Registry (FileTree × ServeEvent) := ⟨serve.step⟩

/-- The test that ends `serve`: all share tasks have finished. -/
def allFinished (registry : Registry) : Bool :=
  let sharesActive := !registry.shares.isEmpty
  !sharesActive && !serve.noSharesAtStart && !serve.registerDbus

end Serve

/-- Which tasks count as running: those just spawned do, those that have exited do not. -/
structure Census where
  counts : TaskStatus → Bool
  running : counts .running = true
  exited : ∀ cause, counts (.exited cause) = false

namespace Census

/-- A task counts until it has exited. -/
def live : Census := ⟨fun status => !status.hasExited, rfl, fun _ => rfl⟩

/-- A task counts until a removal has told it to end. -/
def unasked : Census := ⟨fun status => decide (status = .running), rfl, fun _ => rfl⟩

end Census

namespace Registry

variable {registry next : Registry} {id other : String} (census : Census)

def Runs (registry : Registry) (id : String) : Prop :=
  ∃ task ∈ registry.tasks, task.share = id ∧ census.counts task.status = true

/-- The map has exactly the shares that are running. -/
def Tracks (registry : Registry) : Prop := ∀ id, id ∈ registry.ids ↔ registry.Runs census id

theorem tracks_empty : Tracks census empty := by
  intro id
  simp [Runs, empty, ids]

theorem mem_ids_register : other ∈ (registry.register id).ids ↔ other = id ∨ other ∈ registry.ids := by
  simp only [ids, register, List.map_append, List.mem_append, List.map_cons, List.map_nil,
    List.mem_singleton, List.mem_map, List.mem_filter, decide_eq_true_eq]
  constructor
  · rintro (⟨entry, ⟨listed, _⟩, same⟩ | here)
    · exact .inr ⟨entry, listed, same⟩
    · exact .inl here
  · rintro (here | ⟨entry, listed, same⟩)
    · exact .inr here
    · by_cases replaced : entry.1 = id
      · exact .inr (same.symm.trans replaced)
      · exact .inl ⟨entry, ⟨listed, replaced⟩, same⟩

theorem runs_register :
    (registry.register id).Runs census other ↔ other = id ∨ registry.Runs census other := by
  simp only [Runs, register, List.mem_append, List.mem_singleton]
  constructor
  · rintro ⟨task, older | fresh, same, counted⟩
    · exact .inr ⟨task, older, same, counted⟩
    · subst fresh
      exact .inl same.symm
  · rintro (here | ⟨task, listed, same, counted⟩)
    · exact ⟨_, .inr rfl, here.symm, census.running⟩
    · exact ⟨task, .inl listed, same, counted⟩

theorem mem_ids_update {keep : String → Bool} {status : ShareTask → TaskStatus} :
    id ∈ (registry.update keep status).ids ↔ id ∈ registry.ids ∧ keep id = true := by
  simp only [ids, update, List.mem_map, List.mem_filter]
  constructor
  · rintro ⟨entry, ⟨listed, kept⟩, same⟩
    exact ⟨⟨entry, listed, same⟩, same ▸ kept⟩
  · rintro ⟨⟨entry, listed, same⟩, kept⟩
    exact ⟨entry, ⟨listed, same ▸ kept⟩, same⟩

theorem runs_update {keep : String → Bool} {status : ShareTask → TaskStatus} :
    (registry.update keep status).Runs census id ↔
      ∃ task ∈ registry.tasks, task.share = id ∧ census.counts (status task) = true := by
  simp [Runs, update]

/-- The task behind a sender belongs to the share of that sender. -/
theorem share_of_sender {task : ShareTask} (member : task ∈ registry.tasks)
    (sent : registry.sender id = some task.number) : task.share = id := by
  obtain ⟨entry, found, number⟩ := Option.map_eq_some_iff.mp sent
  have named : entry.1 = id := by simpa using List.find?_some found
  exact (registry.owned entry (List.mem_of_find?_eq_some found) task member number.symm).trans named

variable {census}

theorem Tracks.register (tracks : registry.Tracks census) (id : String) :
    (registry.register id).Tracks census := by
  intro other
  rw [mem_ids_register, runs_register, tracks other]

theorem Tracks.reap (tracks : registry.Tracks census) (number : Nat) :
    (registry.reap number).Tracks census := by
  intro id
  refine (tracks id).trans ?_
  simp only [Runs, Registry.reap, List.mem_filter]
  constructor
  · rintro ⟨task, listed, same, counted⟩
    refine ⟨task, ⟨listed, ?_⟩, same, counted⟩
    cases stands : task.status with
    | running => simp [TaskStatus.hasExited]
    | asked => simp [TaskStatus.hasExited]
    | exited cause =>
        rw [stands, census.exited] at counted
        cases counted
  · rintro ⟨task, ⟨listed, _⟩, same, counted⟩
    exact ⟨task, listed, same, counted⟩

/-- An exit is reflected in the map when the task was not the last one of its share. -/
theorem tracks_exit_iff (tracks : registry.Tracks census) (number : Nat) (cause : TaskExit) :
    (registry.exit number cause).Tracks census ↔
      ∀ task ∈ registry.tasks, task.number = number → census.counts task.status = true →
        ∃ other ∈ registry.tasks, other.number ≠ number ∧ other.share = task.share ∧
          census.counts other.status = true := by
  have runs (id : String) : (registry.exit number cause).Runs census id ↔
      ∃ task ∈ registry.tasks, task.number ≠ number ∧ task.share = id ∧
        census.counts task.status = true := by
    rw [Registry.exit, runs_update]
    constructor
    · intro ⟨task, listed, same, counted⟩
      split at counted
      · rw [census.exited] at counted
        cases counted
      · next apart => exact ⟨task, listed, apart, same, counted⟩
    · intro ⟨task, listed, apart, same, counted⟩
      exact ⟨task, listed, same, by rw [if_neg apart, counted]⟩
  have listed (id : String) : id ∈ (registry.exit number cause).ids ↔ registry.Runs census id := by
    rw [Registry.exit, mem_ids_update, tracks id]
    exact and_iff_left rfl
  constructor
  · intro still task member _ counted
    exact (runs task.share).mp ((still _).mp ((listed _).mpr ⟨task, member, rfl, counted⟩))
  · intro others id
    rw [listed, runs]
    constructor
    · intro ⟨task, member, same, counted⟩
      by_cases here : task.number = number
      · obtain ⟨other, inside, apart, shared, alive⟩ := others task member here counted
        exact ⟨other, inside, apart, shared.trans same, alive⟩
      · exact ⟨task, member, here, same, counted⟩
    · intro ⟨task, member, _, same, counted⟩
      exact ⟨task, member, same, counted⟩

/-- A removal is reflected when it ends the only task of the share, and a task that is told to
end does not count. -/
theorem tracks_unregister_iff (tracks : registry.Tracks census) (id : String) :
    (registry.unregister id).Tracks census ↔
      ∀ task ∈ registry.tasks, task.share = id → census.counts task.status = true →
        registry.sender id = some task.number ∧ task.status = .running ∧
          census.counts .asked = false := by
  have runs (other : String) : (registry.unregister id).Runs census other ↔
      ∃ task ∈ registry.tasks, task.share = other ∧ census.counts task.status = true ∧
        ¬ (registry.sender id = some task.number ∧ task.status = .running ∧
          census.counts .asked = false) := by
    rw [unregister, runs_update]
    constructor
    · intro ⟨task, listed, same, counted⟩
      split at counted
      · next told =>
        refine ⟨task, listed, same, told.2 ▸ census.running, fun ⟨_, _, ended⟩ => ?_⟩
        cases ended.symm.trans counted
      · next spared =>
        exact ⟨task, listed, same, counted, fun ⟨sent, running, _⟩ => spared ⟨sent, running⟩⟩
    · intro ⟨task, listed, same, counted, spared⟩
      refine ⟨task, listed, same, ?_⟩
      split
      · next told =>
        cases asked : census.counts .asked with
        | false => exact absurd ⟨told.1, told.2, asked⟩ spared
        | true => rfl
      · exact counted
  have listed (other : String) : other ∈ (registry.unregister id).ids ↔
      registry.Runs census other ∧ other ≠ id := by
    rw [unregister, mem_ids_update, tracks other, decide_eq_true_eq]
  constructor
  · intro still task member same counted
    by_contra spared
    exact ((listed id).mp ((still id).mpr ((runs id).mpr ⟨task, member, same, counted, spared⟩))).2 rfl
  · intro only other
    rw [listed, runs]
    constructor
    · intro ⟨⟨task, member, same, counted⟩, apart⟩
      refine ⟨task, member, same, counted, fun told => ?_⟩
      exact apart (same.symm.trans (share_of_sender member told.1))
    · intro ⟨task, member, same, counted, spared⟩
      refine ⟨⟨task, member, same, counted⟩, fun here => ?_⟩
      exact spared (only task member (same.trans here) counted)

end Registry

namespace Serve

variable (serve : Serve) (census : Census)

/-- What the map of running shares is for. -/
structure TracksTasks (registry : Registry) : Prop where
  /-- Reaping leaves the map as it is, so that the exited tasks can be passed over. -/
  tracked : registry.Tracks .live
  reaped : (∀ task ∈ registry.tasks, task.status.hasExited = false) →
    ∀ id, id ∈ registry.ids ↔ ∃ task ∈ registry.tasks, task.share = id
  /-- A share whose task is gone is not refused as already running. -/
  addable : ∀ id, ¬ registry.Runs .live id → id ∉ registry.ids
  finishes : registry.tasks = [] → serve.noSharesAtStart = false → serve.registerDbus = false →
    serve.allFinished registry = true

/-- All exited tasks have been reaped, and no removal waits for a task. -/
def Settled (registry : Registry) : Prop := ∀ task ∈ registry.tasks, task.status = .running

variable {serve census}

theorem tracksTasks_iff {registry : Registry} :
    serve.TracksTasks registry ↔ registry.Tracks .live := by
  constructor
  · exact fun tracks => tracks.tracked
  · intro tracked
    refine ⟨tracked, ?_, fun id stopped listed => stopped ((tracked id).mp listed), ?_⟩
    · intro reaped id
      rw [tracked id]
      constructor
      · intro ⟨task, member, same, _⟩
        exact ⟨task, member, same⟩
      · intro ⟨task, member, same⟩
        exact ⟨task, member, same, by simp [Census.live, reaped task member]⟩
    · intro gone atStart unused
      have unlisted : registry.shares = [] := by
        rw [List.eq_nil_iff_forall_not_mem]
        intro entry inside
        obtain ⟨task, member, _⟩ := (tracked entry.1).mp (List.mem_map_of_mem inside)
        rw [gone] at member
        cases member
      rw [allFinished, unlisted, atStart, unused]
      rfl

/-- A settled daemon has nothing but tasks that no census passes over. -/
theorem Settled.tracksTasks {registry : Registry} (settled : Settled registry)
    (tracks : registry.Tracks .unasked) : serve.TracksTasks registry := by
  rw [tracksTasks_iff]
  intro id
  rw [tracks id]
  constructor
  · intro ⟨task, member, same, _⟩
    exact ⟨task, member, same, by rw [settled task member]; rfl⟩
  · intro ⟨task, member, same, _⟩
    exact ⟨task, member, same, by rw [settled task member]; rfl⟩

variable (serve census)

/-- No task exits while it is the last one of its share that counts, and a share is removed only
where the task that is told to end is all that counts for it, and no longer does. -/
def TaskKept (registry : Registry) : FileTree × ServeEvent → Prop
  | (_, .exit number _) =>
      ∀ task ∈ registry.tasks, task.number = number → census.counts task.status = true →
        ∃ other ∈ registry.tasks, other.number ≠ number ∧ other.share = task.share ∧
          census.counts other.status = true
  | (tree, .shareRemove id) =>
      (∃ configs, loadAll serve.formats.toFileFormats tree serve.dataDir = .ok configs) →
        ∀ task ∈ registry.tasks, task.share = id → census.counts task.status = true →
          registry.sender id = some task.number ∧ task.status = .running ∧
            census.counts .asked = false
  | _ => True

variable {serve census}

theorem tracks_step_iff {registry next : Registry} {event : FileTree × ServeEvent}
    (tracks : registry.Tracks census) (stepped : serve.step registry event = some next) :
    next.Tracks census ↔ serve.TaskKept census registry event := by
  obtain ⟨tree, event⟩ := event
  cases event with
  | spawnAtStart config created =>
      rw [step] at stepped
      split at stepped
      · cases stepped
        exact iff_of_true tracks trivial
      · cases stepped
        exact iff_of_true (tracks.register _) trivial
  | shareAdd topic path role now created =>
      rw [step] at stepped
      split at stepped
      · cases stepped
        exact iff_of_true tracks trivial
      · cases stepped
        exact iff_of_true (tracks.register _) trivial
  | shareJoin decoded path now created =>
      rw [step] at stepped
      split at stepped
      · cases stepped
        exact iff_of_true tracks trivial
      · cases stepped
        exact iff_of_true (tracks.register _) trivial
  | shareRemove id =>
      rw [step] at stepped
      unfold TaskKept
      split at stepped
      · next failure failed =>
        cases stepped
        refine iff_of_true tracks fun ⟨configs, loaded⟩ => ?_
        cases failed.symm.trans loaded
      · next configs loaded =>
        cases stepped
        rw [Registry.tracks_unregister_iff tracks]
        exact ⟨fun only _ => only, fun kept => kept ⟨configs, loaded⟩⟩
  | exit number cause =>
      rw [step] at stepped
      split at stepped
      · cases stepped
        exact Registry.tracks_exit_iff tracks number cause
      · cases stepped
  | reap number =>
      rw [step] at stepped
      split at stepped
      · cases stepped
        exact iff_of_true (tracks.reap number) trivial
      · cases stepped

theorem taskKept_of_refused {registry : Registry} {event : FileTree × ServeEvent}
    (refused : serve.step registry event = none) : serve.TaskKept census registry event := by
  obtain ⟨tree, event⟩ := event
  cases event with
  | spawnAtStart config created => trivial
  | shareAdd topic path role now created => trivial
  | shareJoin decoded path now created => trivial
  | shareRemove id =>
      rw [step] at refused
      split at refused
      · cases refused
      · cases refused
  | exit number cause =>
      rw [step] at refused
      split at refused
      · cases refused
      next dead =>
        intro task member same counted
        refine absurd ?_ dead
        refine List.any_eq_true.mpr ⟨task, member, ?_⟩
        cases stands : task.status with
        | running => simp [same, TaskStatus.hasExited]
        | asked => simp [same, TaskStatus.hasExited]
        | exited cause =>
            rw [stands, census.exited] at counted
            cases counted
  | reap number => trivial

/-- The map follows a census all along a run exactly when its tasks are kept. -/
theorem along_taskKept_iff (events : List (FileTree × ServeEvent)) :
    serve.machine.Along (serve.TaskKept census) Registry.empty events ↔
      ∀ front back reached, events = front ++ back →
        serve.machine.run Registry.empty front = some reached → reached.Tracks census :=
  serve.machine.along_iff_reached (fun _ _ _ tracks stepped => tracks_step_iff tracks stepped)
    (fun _ _ refused => taskKept_of_refused refused) (Registry.tracks_empty census)

/-- The map follows the tasks all along a run exactly when no share loses its last task, on its
own or to a removal. After a removal it follows them again as soon as the task has ended. -/
theorem run_tracksTasks_iff (serve : Serve) (events : List (FileTree × ServeEvent)) :
    (serve.machine.Along (serve.TaskKept .live) Registry.empty events ↔
      ∀ front back reached, events = front ++ back →
        serve.machine.run Registry.empty front = some reached → serve.TracksTasks reached) ∧
    (serve.machine.Along (serve.TaskKept .unasked) Registry.empty events →
      ∀ front back reached, events = front ++ back →
        serve.machine.run Registry.empty front = some reached → Settled reached →
          serve.TracksTasks reached) := by
  constructor
  · simp only [tracksTasks_iff]
    exact along_taskKept_iff events
  · intro kept front back reached split ran settled
    exact settled.tracksTasks ((along_taskKept_iff events).mp kept front back reached split ran)

section Sample

open Reference

/-- A daemon without D-Bus, over the one share that it starts with. -/
def docsServe : Serve where
  crdt := sequentialGroup
  crypto := cleartext
  formats := sampleAddFormats
  identity := guest
  dataDir := sampleDataDir
  cwd := .ok []
  noSharesAtStart := false
  registerDbus := false

def failedDocs : List (FileTree × ServeEvent) :=
  [(FileTree.empty, .spawnAtStart teamDocs (.ofBytes 32 [])), (FileTree.empty, .exit 0 .error),
    (FileTree.empty, .reap 0)]

/-- A task that fails is reaped and stays in the map: the share cannot be added again, and the
daemon does not end although no task is left. -/
theorem failedTask_staysRegistered :
    ∃ final, docsServe.machine.run Registry.empty failedDocs = some final ∧ final.tasks = [] ∧
      ¬ docsServe.TracksTasks final ∧ docsServe.allFinished final = false ∧
      (ShareFiles.shareAdd FileTree.empty sampleDataDir cleartext sampleAddFormats sequentialGroup
          guest (.ofBytes 32 []) 0 final.ids (.ok []) "team docs" (ascii "/home/docs") "sync").1 =
        .error [.text ("share " ++ idFromTopic cleartext "team docs" ++ " is already running")] := by
  have ends : ((docsServe.machine.run Registry.empty failedDocs).any fun final =>
      decide (final.tasks = [] ∧ docsServe.allFinished final = false ∧
        final.ids = [idFromTopic cleartext "team docs"])) = true := by decide +kernel
  cases ran : docsServe.machine.run Registry.empty failedDocs with
  | none =>
      rw [ran] at ends
      cases ends
  | some final =>
      rw [ran] at ends
      obtain ⟨gone, unfinished, listed⟩ := of_decide_eq_true ends
      refine ⟨final, rfl, gone, ?_, unfinished, ?_⟩
      · intro tracks
        rw [tracks.finishes gone rfl rfl] at unfinished
        cases unfinished
      · rw [listed]
        decide +kernel

end Sample

end Serve

end Peerdup.Daemon
