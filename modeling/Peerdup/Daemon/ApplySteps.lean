import Peerdup.Daemon.LiveSync

/-!
# An apply that nobody interrupts

Step by step and without an edit in between, an apply comes to what `apply_remote_sync`
computes in one go.
-/

set_option autoImplicit false

namespace Peerdup.Daemon

open Foundation Crypto

variable {crypto : Primitives} {root : Path} {peerIdHex : String} {key : KeyRing}
  {current : Option ShareState} {remote : RemoteVersion} {torrentId : Nat} {manifest : Manifest}
  {saved : Except SyncFailure Unit}

/-- What librqbit has written when it is done. -/
def downloadAll (root : Path) (files : List (Path × Bytes)) (tree : FileTree) : FileTree :=
  files.foldl (fun tree (shadowRel, ciphertext) => tree.place (shadowRoot root ++ shadowRel) ciphertext)
    tree

namespace LiveSync

variable {sync : LiveSync}

theorem run_waiting (waiting : sync.loop = .waiting current) (events : List LiveEvent)
    (applies : ∀ event ∈ events, (∃ shadowRel ciphertext, event = .download shadowRel ciphertext) ∨
      (∃ added completed, event = .fetched added completed) ∨ ∃ saved, event = .proceed saved) :
    (machine crypto root peerIdHex key).run sync events = some sync := by
  induction events with
  | nil => rfl
  | cons event events ih =>
      have rest := ih fun later member => applies later (List.mem_cons_of_mem _ member)
      have here : (machine crypto root peerIdHex key).step sync event = some sync := by
        unfold machine
        dsimp only
        rcases applies event List.mem_cons_self with ⟨_, _, rfl⟩ | ⟨_, _, rfl⟩ | ⟨_, rfl⟩
        · rw [waiting]
        · rw [waiting]
        · rw [waiting]
      exact (Machine.run_cons_iff _).mpr ⟨sync, here, rest⟩

theorem run_downloads (files : List (Path × Bytes))
    (fetching : sync.loop = .applying current (.fetching remote)) :
    (machine crypto root peerIdHex key).run sync
        (files.map fun (shadowRel, ciphertext) => .download shadowRel ciphertext) =
      some { sync with device := sync.device.withTree (downloadAll root files sync.device.tree) } := by
  induction files generalizing sync with
  | nil => rfl
  | cons file files ih =>
      obtain ⟨shadowRel, ciphertext⟩ := file
      have here : (machine crypto root peerIdHex key).step sync (.download shadowRel ciphertext) =
          some (sync.download root shadowRel ciphertext) := by
        unfold machine
        dsimp only
        rw [fetching]
      rw [List.map_cons, Machine.run, here]
      exact ih fetching

theorem step_proceed {phase : ApplyPhase} (applying : sync.loop = .applying current phase) :
    (machine crypto root peerIdHex key).step sync (.proceed saved) =
      some (sync.proceed crypto root key current saved phase) := by
  unfold machine
  dsimp only
  rw [applying]

theorem run_replicate_waiting (waiting : sync.loop = .waiting current) (count : Nat) :
    (machine crypto root peerIdHex key).run sync (List.replicate count (.proceed saved)) =
      some sync := by
  refine run_waiting waiting _ fun event member => ?_
  exact .inr (.inr ⟨saved, List.eq_of_mem_replicate member⟩)

theorem run_decryptFiles (shadowFiles : List Path)
    (decrypting : sync.loop = .applying current (.decrypting remote torrentId shadowFiles manifest)) :
    (machine crypto root peerIdHex key).run sync
        (List.replicate shadowFiles.length (.proceed saved)) =
      some (match decryptFiles crypto root key shadowFiles manifest sync.device.tree with
        | (.error _, tree) =>
            { sync with device := sync.device.withTree tree, loop := .waiting current }
        | (.ok manifest, tree) =>
            { sync with
              device := sync.device.withTree tree
              loop := .applying current (.decrypting remote torrentId [] manifest) }) := by
  induction shadowFiles generalizing sync manifest with
  | nil =>
      rw [decryptFiles, List.length_nil, List.replicate_zero, Machine.run_nil]
      dsimp only
      rw [← decrypting]
      rfl
  | cons shadowRel shadowFiles ih =>
      rw [List.length_cons, List.replicate_succ, Machine.run, step_proceed decrypting, decryptFiles]
      dsimp only [Option.bind_some]
      rw [proceed, decryptNext]
      cases ran : decryptFile crypto sync.device.tree root key shadowRel with
      | mk outcome tree =>
          cases outcome with
          | error failure => exact run_replicate_waiting rfl _
          | ok found =>
              cases found with
              | none => exact ih rfl
              | some rel => exact ih rfl

theorem run_deleting {state : ShareState} {version : Path → Option Bytes} (orphans : List Path)
    (deleting : sync.loop = .applying current (.deleting state version orphans)) :
    (machine crypto root peerIdHex key).run sync
        (List.replicate (orphans.length + 1) (.proceed saved)) =
      some ⟨(persist (sync.device.withTree
        (orphans.foldl (fun tree rel => tryRemove tree (root ++ rel)) sync.device.tree)) saved
          state).2, .waiting (some state), version⟩ := by
  induction orphans generalizing sync with
  | nil =>
      rw [List.length_nil, Nat.zero_add, List.replicate_one, Machine.run, step_proceed deleting]
      rfl
  | cons orphan orphans ih =>
      rw [List.length_cons, List.replicate_succ, Machine.run, step_proceed deleting]
      dsimp only [Option.bind_some]
      exact ih rfl

/-- The loop is back where `apply_remote_sync` would have left it. -/
def Completes (saved : Except SyncFailure Unit) (current : Option ShareState) (final : LiveSync) :
    Except SyncFailure ShareState × Device → Prop
  | (.error _, device) => final.device = device ∧ final.loop = .waiting current
  | (.ok state, device) =>
      final.device = (persist device saved state).2 ∧ final.loop = .waiting (some state)

/-- The rest of `apply_remote_sync` once the shadow is decrypted. -/
def finishApply (crypto : Primitives) (root : Path) (remote : RemoteVersion)
    (current : Option ShareState) (torrentId : Nat) (manifest : Manifest) (device : Device) :
    Except SyncFailure ShareState × Device :=
  match snapshotContent crypto device.tree root with
  | .error failure => (.error failure, device)
  | .ok (computedVhash, _) =>
      if computedVhash ≠ remote.versionHash then
        (.error [.text ("decrypted plaintext version_hash " ++ computedVhash ++
          " != announced " ++ remote.versionHash)], device)
      else
        let device :=
          match current with
          | none => device
          | some state =>
              device.withTree (deleteOrphans device.tree root state.manifest manifest)
        (.ok (appliedState current remote torrentId manifest), device)

theorem run_verify (crypto : Primitives) (root : Path) (peerIdHex : String) (key : KeyRing)
    (saved : Except SyncFailure Unit)
    (decrypted : sync.loop = .applying current (.decrypting remote torrentId [] manifest)) :
    ∃ count final, (machine crypto root peerIdHex key).run sync
        (List.replicate count (.proceed saved)) = some final ∧
      Completes saved current final
        (finishApply crypto root remote current torrentId manifest sync.device) := by
  unfold finishApply
  have first : (machine crypto root peerIdHex key).step sync (.proceed saved) =
      some (sync.verify crypto root current remote torrentId manifest) := step_proceed decrypted
  cases snapshot : snapshotContent crypto sync.device.tree root with
  | error failure =>
      refine ⟨1, { sync with loop := .waiting current }, ?_, rfl, rfl⟩
      rw [verify, snapshot] at first
      rw [List.replicate_one, Machine.run, first]
      rfl
  | ok taken =>
      obtain ⟨computedVhash, computed⟩ := taken
      rw [verify, snapshot] at first
      dsimp only at first ⊢
      by_cases differs : computedVhash ≠ remote.versionHash
      · rw [if_pos differs] at first ⊢
        refine ⟨1, { sync with loop := .waiting current }, ?_, rfl, rfl⟩
        rw [List.replicate_one, Machine.run, first]
        rfl
      · rw [if_neg differs] at first ⊢
        let state := appliedState current remote torrentId manifest
        let tree := (orphans current manifest).foldl (fun tree rel => tryRemove tree (root ++ rel))
          sync.device.tree
        let deleting : LiveSync := { sync with
          loop := .applying current
            (.deleting state (plaintext sync.device.tree root) (orphans current manifest)) }
        have removed : (machine crypto root peerIdHex key).run deleting
            (List.replicate ((orphans current manifest).length + 1) (.proceed saved)) = _ :=
          run_deleting (orphans current manifest) rfl
        refine ⟨(orphans current manifest).length + 1 + 1,
          ⟨(persist (sync.device.withTree tree) saved state).2, .waiting (some state),
            plaintext sync.device.tree root⟩, ?_, ?_, rfl⟩
        · rw [List.replicate_succ]
          exact (Machine.run_cons_iff _).mpr ⟨deleting, first, removed⟩
        · cases current with
          | none => rfl
          | some held => rfl

theorem run_decrypting (crypto : Primitives) (root : Path) (peerIdHex : String) (key : KeyRing)
    (saved : Except SyncFailure Unit) {shadowFiles : List Path}
    (decrypting : sync.loop = .applying current (.decrypting remote torrentId shadowFiles manifest)) :
    ∃ count final, (machine crypto root peerIdHex key).run sync
        (List.replicate count (.proceed saved)) = some final ∧
      Completes saved current final
        (match decryptFiles crypto root key shadowFiles manifest sync.device.tree with
          | (.error failure, tree) =>
              (.error (.text "decrypting shadow to plaintext after fetch" :: failure),
                sync.device.withTree tree)
          | (.ok newManifest, tree) =>
              finishApply crypto root remote current torrentId newManifest
                (sync.device.withTree tree)) := by
  have passed : (machine crypto root peerIdHex key).run sync
      (List.replicate shadowFiles.length (.proceed saved)) = _ :=
    run_decryptFiles shadowFiles decrypting
  cases ran : decryptFiles crypto root key shadowFiles manifest sync.device.tree with
  | mk outcome tree =>
      rw [ran] at passed
      cases outcome with
      | error failure => exact ⟨shadowFiles.length, _, passed, rfl, rfl⟩
      | ok newManifest =>
          let decrypted : LiveSync := { sync with
            device := sync.device.withTree tree
            loop := .applying current (.decrypting remote torrentId [] newManifest) }
          have checked : ∃ count final, (machine crypto root peerIdHex key).run decrypted
              (List.replicate count (.proceed saved)) = some final ∧
            Completes saved current final (finishApply crypto root remote current torrentId
              newManifest decrypted.device) := run_verify crypto root peerIdHex key saved rfl
          obtain ⟨count, final, onward, completes⟩ := checked
          refine ⟨shadowFiles.length + count, final, ?_, completes⟩
          rw [List.replicate_add]
          exact (Machine.run_append_iff _).mpr ⟨decrypted, passed, onward⟩

/-- A finished download is decrypted file by file, or its files cannot be listed. -/
theorem fetched_cases (sync : LiveSync) (crypto : Primitives) (key : KeyRing)
    (current : Option ShareState) (remote : RemoteVersion) (torrentId : Nat) :
    (∃ shadowFiles, sync.fetched root current remote (.ok (some torrentId)) (.ok ()) =
        { sync with
          device := sync.device.addTorrent torrentId
          loop := .applying current (.decrypting remote torrentId shadowFiles []) } ∧
      syncShadowToPlaintext crypto sync.device.tree root key =
        decryptFiles crypto root key shadowFiles [] sync.device.tree) ∨
    ∃ failure, sync.fetched root current remote (.ok (some torrentId)) (.ok ()) =
        { sync with device := sync.device.addTorrent torrentId, loop := .waiting current } ∧
      syncShadowToPlaintext crypto sync.device.tree root key =
        (.error failure, sync.device.tree) := by
  have sameTree : (sync.device.addTorrent torrentId).tree = sync.device.tree := rfl
  unfold fetched syncShadowToPlaintext
  dsimp only
  rw [sameTree]
  by_cases absent : sync.device.tree.look (shadowRoot root) = none
  · rw [if_pos absent, if_pos absent]
    exact .inl ⟨[], rfl, rfl⟩
  · rw [if_neg absent, if_neg absent]
    cases collected : collectFiles sync.device.tree (shadowRoot root) with
    | error failure => exact .inr ⟨failure, rfl, rfl⟩
    | ok shadowFiles => exact .inl ⟨shadowFiles, rfl, rfl⟩

/-- The rest of `apply_remote_sync` once librqbit has come back. -/
def finishFetch (crypto : Primitives) (root : Path) (remote : RemoteVersion) (key : KeyRing)
    (current : Option ShareState) (added : Added) (completed : Except SyncFailure Unit)
    (device : Device) : Except SyncFailure ShareState × Device :=
  match added with
  | .error failure => (.error failure, device)
  | .ok none => (.error noHandle, device)
  | .ok (some torrentId) =>
      let device := device.addTorrent torrentId
      match completed with
      | .error failure => (.error (.text "wait_until_completed" :: failure), device)
      | .ok () =>
          match syncShadowToPlaintext crypto device.tree root key with
          | (.error failure, tree) =>
              (.error (.text "decrypting shadow to plaintext after fetch" :: failure),
                device.withTree tree)
          | (.ok newManifest, tree) =>
              finishApply crypto root remote current torrentId newManifest (device.withTree tree)

theorem run_fetched (crypto : Primitives) (root : Path) (peerIdHex : String) (key : KeyRing)
    (saved : Except SyncFailure Unit) (added : Added) (completed : Except SyncFailure Unit)
    (fetching : sync.loop = .applying current (.fetching remote)) :
    ∃ count final, (machine crypto root peerIdHex key).run sync
        (.fetched added completed :: List.replicate count (.proceed saved)) = some final ∧
      Completes saved current final
        (finishFetch crypto root remote key current added completed sync.device) := by
  have taken : (machine crypto root peerIdHex key).step sync (.fetched added completed) =
      some (sync.fetched root current remote added completed) := by
    unfold machine
    dsimp only
    rw [fetching]
  cases added with
  | error failure =>
      exact ⟨0, { sync with loop := .waiting current }, (Machine.run_cons_iff _).mpr ⟨_, taken, rfl⟩,
        rfl, rfl⟩
  | ok handle =>
      cases handle with
      | none =>
          exact ⟨0, { sync with loop := .waiting current },
            (Machine.run_cons_iff _).mpr ⟨_, taken, rfl⟩, rfl, rfl⟩
      | some torrentId =>
          cases completed with
          | error failure =>
              exact ⟨0,
                { sync with device := sync.device.addTorrent torrentId, loop := .waiting current },
                (Machine.run_cons_iff _).mpr ⟨_, taken, rfl⟩, rfl, rfl⟩
          | ok done =>
              have same : (sync.device.addTorrent torrentId).tree = sync.device.tree := rfl
              unfold finishFetch
              dsimp only
              rcases fetched_cases sync crypto key current remote torrentId with
                ⟨shadowFiles, phase, decryption⟩ | ⟨failure, phase, decryption⟩
              · let decrypting : LiveSync := { sync with
                  device := sync.device.addTorrent torrentId
                  loop := .applying current (.decrypting remote torrentId shadowFiles []) }
                have start := taken.trans (congrArg some phase)
                have onward : ∃ count final, (machine crypto root peerIdHex key).run decrypting
                  (List.replicate count (.proceed saved)) = some final ∧ _ :=
                  run_decrypting crypto root peerIdHex key saved rfl
                obtain ⟨count, final, ran, completes⟩ := onward
                refine ⟨count, final, (Machine.run_cons_iff _).mpr ⟨decrypting, start, ran⟩, ?_⟩
                rw [same, decryption]
                exact completes
              · have start := taken.trans (congrArg some phase)
                refine ⟨0, _, (Machine.run_cons_iff _).mpr ⟨_, start, rfl⟩, ?_⟩
                rw [same, decryption]
                exact ⟨rfl, rfl⟩

/-- An apply that nobody interrupts is `apply_remote_sync`. -/
theorem run_receive {announce : Announce} (waiting : sync.loop = .waiting current)
    (judged : judgeAnnounce current announce = .applies remote) (files : List (Path × Bytes))
    (added : Added) (completed : Except SyncFailure Unit) :
    ∃ count final, (machine crypto root peerIdHex key).run sync
        (.receive announce saved ::
          ((files.map fun (shadowRel, ciphertext) => .download shadowRel ciphertext) ++
            .fetched added completed :: List.replicate count (.proceed saved))) = some final ∧
      Completes saved current final
        (applyRemoteSync crypto sync.device root remote key
          (fun tree => ⟨added, downloadAll root files tree, completed⟩) current) := by
  have received : (machine crypto root peerIdHex key).step sync (.receive announce saved) =
      some (sync.receive root current announce saved) := by
    unfold machine
    dsimp only
    rw [waiting]
  -- What is left of the events once nothing is under way changes nothing.
  have idle {after : LiveSync} (back : after.loop = .waiting current) (count : Nat) :
      (machine crypto root peerIdHex key).run after
        ((files.map fun (shadowRel, ciphertext) => .download shadowRel ciphertext) ++
          .fetched added completed :: List.replicate count (.proceed saved)) = some after := by
    refine run_waiting back _ fun event member => ?_
    rcases List.mem_append.mp member with download | later
    · obtain ⟨file, _, same⟩ := List.mem_map.mp download
      exact .inl ⟨file.1, file.2, same.symm⟩
    rcases List.mem_cons.mp later with same | last
    · exact .inr (.inl ⟨added, completed, same⟩)
    · exact .inr (.inr ⟨saved, List.eq_of_mem_replicate last⟩)
  rw [receive, judged] at received
  dsimp only at received
  unfold applyRemoteSync
  by_cases peers : (usablePeers remote.btEndpoints).isEmpty = true
  · rw [if_pos peers] at received ⊢
    refine ⟨0, sync, ?_, rfl, waiting⟩
    rw [Machine.run, received]
    exact idle waiting 0
  rw [if_neg peers] at received ⊢
  dsimp only
  cases made : (sync.device.deleteCurrent current).tree.createDirAll (shadowRoot root) with
  | error error =>
      rw [made] at received
      let after : LiveSync := { sync with device := sync.device.deleteCurrent current }
      have back : after.loop = .waiting current := waiting
      have rest := idle back 0
      refine ⟨0, after, ?_, rfl, waiting⟩
      rw [Machine.run, received]
      exact rest
  | ok tree =>
      rw [made] at received
      dsimp only at received ⊢
      let fetching : LiveSync := { sync with
        device := (sync.device.deleteCurrent current).withTree (downloadAll root files tree)
        loop := .applying current (.fetching remote) }
      have fetch : (machine crypto root peerIdHex key).run
          { sync with
            device := (sync.device.deleteCurrent current).withTree tree
            loop := .applying current (.fetching remote) }
          (files.map fun (shadowRel, ciphertext) => .download shadowRel ciphertext) =
          some fetching := run_downloads files rfl
      have onward : ∃ count final, (machine crypto root peerIdHex key).run fetching
          (.fetched added completed :: List.replicate count (.proceed saved)) = some final ∧
          Completes saved current final
            (finishFetch crypto root remote key current added completed fetching.device) :=
        run_fetched crypto root peerIdHex key saved added completed rfl
      obtain ⟨count, final, ran, completes⟩ := onward
      refine ⟨count, final, ?_, completes⟩
      rw [Machine.run, received]
      exact (Machine.run_append_iff _).mpr ⟨fetching, fetch, ran⟩

end LiveSync

end Peerdup.Daemon
