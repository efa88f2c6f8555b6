import Peerdup.CryptoProperties
import Peerdup.Foundation.Machine
import Peerdup.Reference

/-!
# The life of `keys.bin`

Every call may fail at any of its file operations. `save_keyring` writes a temporary
file and renames it, so a failure leaves the old keys or the new ones.
-/

set_option autoImplicit false

namespace Peerdup.Crypto

open Foundation

/-- How far `save_keyring` gets: a failure strikes before the new file is renamed into
place, or when its mode is set afterwards. -/
inductive SaveFate where
  | done
  | beforeRename (failure : Failure)
  | afterRename (failure : Failure)
deriving DecidableEq

def saveKeyring (fate : SaveFate) (ring : KeyRing) (keysBin : Option Bytes) :
    Except Failure Unit × Option Bytes :=
  match fate with
  | .done => (.ok (), some ring.fileBytes)
  | .beforeRename failure => (.error failure, keysBin)
  | .afterRename failure => (.error failure, some ring.fileBytes)

/-- How the file operations of one call go: reading `keys.bin`, saving a first ring, and
saving a changed one. -/
structure FileFates where
  reading : Option Failure
  creating : SaveFate
  saving : SaveFate
deriving DecidableEq

def FileFates.allDone : FileFates := ⟨none, .done, .done⟩

namespace FileFates

variable (fates : FileFates)

def loadOrCreateKeyring (created : Key) (keysBin : Option Bytes) :
    Except Failure KeyRing × Option Bytes :=
  match keysBin with
  | some raw =>
      match fates.reading with
      | some failure => (.error failure, some raw)
      | none => (parseKeys raw, some raw)
  | none =>
      let ring : KeyRing := ⟨[created], singleton_ne_nil created⟩
      match saveKeyring fates.creating ring none with
      | (.error failure, keysBin) => (.error failure, keysBin)
      | (.ok (), keysBin) => (.ok ring, keysBin)

def installKeyring (keysBin : Option Bytes) (keys : List Key) :
    Except Failure Unit × Option Bytes :=
  match keysBin with
  | some raw => (.error ["keys.bin already exists; refusing to overwrite"], some raw)
  | none =>
      if empty : keys = [] then (.error ["cannot install an empty keyring"], none)
      else saveKeyring fates.saving ⟨keys, empty⟩ none

def rotateKeyring (created fresh : Key) (keysBin : Option Bytes) :
    Except Failure Nat × Option Bytes :=
  match fates.loadOrCreateKeyring created keysBin with
  | (.error failure, keysBin) => (.error failure, keysBin)
  | (.ok ring, keysBin) =>
      let ring := ring.push fresh
      match saveKeyring fates.saving ring keysBin with
      | (.error failure, keysBin) => (.error failure, keysBin)
      | (.ok (), keysBin) => (.ok ring.currentEpoch, keysBin)

def installEpochKey (created : Key) (keysBin : Option Bytes) (epoch : Nat) (key : Key) :
    Except Failure InstallOutcome × Option Bytes :=
  match fates.loadOrCreateKeyring created keysBin with
  | (.error failure, keysBin) => (.error failure, keysBin)
  | (.ok ring, keysBin) =>
      let current := ring.currentEpoch
      if epoch = current then
        if ring.currentKey = key then (.ok .idempotent, keysBin)
        else (.error ["epoch " ++ toString epoch ++ " already populated with a different key"],
          keysBin)
      else if epoch < current then (.ok .stale, keysBin)
      else if epoch > current + 1 then (.ok (.gap current epoch), keysBin)
      else
        match saveKeyring fates.saving (ring.push key) keysBin with
        | (.error failure, keysBin) => (.error failure, keysBin)
        | (.ok (), keysBin) => (.ok .installed, keysBin)

end FileFates

/-! Where no file operation fails, these are the calls the share loop makes. -/

theorem loadOrCreateKeyring_allDone (created : Key) (keysBin : Option Bytes) :
    FileFates.allDone.loadOrCreateKeyring created keysBin = loadOrCreateKeyring created keysBin := by
  cases keysBin with
  | none => rfl
  | some raw => rfl

theorem installKeyring_allDone (keysBin : Option Bytes) (keys : List Key) :
    FileFates.allDone.installKeyring keysBin keys = installKeyring keysBin keys := by
  cases keysBin with
  | none => rfl
  | some raw => rfl

theorem rotateKeyring_allDone (created fresh : Key) (keysBin : Option Bytes) :
    FileFates.allDone.rotateKeyring created fresh keysBin = rotateKeyring created fresh keysBin := by
  rw [FileFates.rotateKeyring, loadOrCreateKeyring_allDone, rotateKeyring]
  rcases loadOrCreateKeyring created keysBin with ⟨result, file⟩
  cases result with
  | error failure => rfl
  | ok ring => rfl

theorem installEpochKey_allDone (created : Key) (keysBin : Option Bytes) (epoch : Nat) (key : Key) :
    FileFates.allDone.installEpochKey created keysBin epoch key =
      installEpochKey created keysBin epoch key := by
  rw [FileFates.installEpochKey, loadOrCreateKeyring_allDone, installEpochKey]
  rcases loadOrCreateKeyring created keysBin with ⟨result, file⟩
  cases result with
  | error failure => rfl
  | ok ring => rfl

/-- The key list that a reader finds. -/
def keysOf : Option Bytes → List Key
  | none => []
  | some raw =>
      match parseKeys raw with
      | .error _ => []
      | .ok ring => ring.keys

@[simp] theorem keysOf_fileBytes (ring : KeyRing) : keysOf (some ring.fileBytes) = ring.keys := by
  rw [keysOf, parseKeys_fileBytes]

theorem readable_fileBytes (ring : KeyRing) : Readable (some ring.fileBytes) := by
  intro raw same
  cases same
  exact (parseKeys_ok_iff _).mp ⟨ring, parseKeys_fileBytes ring⟩

/-- The file has only gained keys, at its end. -/
structure Grown (before after : Option Bytes) : Prop where
  readable : Readable after
  keys : keysOf before <+: keysOf after

theorem Grown.refl {keysBin : Option Bytes} (readable : Readable keysBin) : Grown keysBin keysBin :=
  ⟨readable, List.prefix_refl _⟩

theorem Grown.trans {first second third : Option Bytes} (earlier : Grown first second)
    (later : Grown second third) : Grown first third :=
  ⟨later.readable, earlier.keys.trans later.keys⟩

theorem grown_saveKeyring (fate : SaveFate) {ring : KeyRing} {keysBin : Option Bytes}
    (readable : Readable keysBin) (longer : keysOf keysBin <+: ring.keys) :
    Grown keysBin (saveKeyring fate ring keysBin).2 := by
  have renamed : Grown keysBin (some ring.fileBytes) := by
    refine ⟨readable_fileBytes ring, ?_⟩
    rw [keysOf_fileBytes]
    exact longer
  cases fate with
  | done => exact renamed
  | beforeRename failure => exact .refl readable
  | afterRename failure => exact renamed

theorem saveKeyring_ok {fate : SaveFate} {ring : KeyRing} {keysBin after : Option Bytes}
    (saved : saveKeyring fate ring keysBin = (.ok (), after)) : after = some ring.fileBytes := by
  cases fate with
  | done =>
      cases saved
      rfl
  | beforeRename failure => cases saved
  | afterRename failure => cases saved

namespace FileFates

variable (fates : FileFates)

theorem loadOrCreateKeyring_ok {fates : FileFates} {created : Key} {keysBin after : Option Bytes}
    {ring : KeyRing} (loaded : fates.loadOrCreateKeyring created keysBin = (.ok ring, after)) :
    keysOf after = ring.keys := by
  unfold loadOrCreateKeyring at loaded
  cases keysBin with
  | none =>
      dsimp only at loaded
      split at loaded
      · cases loaded
      · next saved =>
          cases loaded
          rw [saveKeyring_ok saved, keysOf_fileBytes]
  | some raw =>
      dsimp only at loaded
      split at loaded
      · cases loaded
      · have parsed : parseKeys raw = .ok ring := congrArg Prod.fst loaded
        have same : some raw = after := congrArg Prod.snd loaded
        rw [← same, keysOf, parsed]

theorem grown_loadOrCreateKeyring (created : Key) {keysBin : Option Bytes}
    (readable : Readable keysBin) :
    Grown keysBin (fates.loadOrCreateKeyring created keysBin).2 := by
  unfold loadOrCreateKeyring
  cases keysBin with
  | none =>
      have saved : Grown none (saveKeyring fates.creating ⟨[created], by simp⟩ none).2 :=
        grown_saveKeyring fates.creating readable List.nil_prefix
      dsimp only
      split
      · next fate =>
          rw [fate] at saved
          exact saved
      · next fate =>
          rw [fate] at saved
          exact saved
  | some raw =>
      dsimp only
      split
      · exact .refl readable
      · exact .refl readable

theorem grown_installKeyring {keysBin : Option Bytes} (readable : Readable keysBin)
    (keys : List Key) : Grown keysBin (fates.installKeyring keysBin keys).2 := by
  unfold installKeyring
  cases keysBin with
  | some raw => exact .refl readable
  | none =>
      dsimp only
      split
      · exact .refl readable
      · exact grown_saveKeyring fates.saving readable List.nil_prefix

/-- Pushing one key onto a loaded ring grows the file, also where the save fails. -/
theorem grown_push {fates : FileFates} {created : Key} {keysBin loadedBin : Option Bytes}
    {ring : KeyRing} (readable : Readable keysBin)
    (loaded : fates.loadOrCreateKeyring created keysBin = (.ok ring, loadedBin)) (fate : SaveFate)
    (key : Key) : Grown keysBin (saveKeyring fate (ring.push key) loadedBin).2 := by
  have first := fates.grown_loadOrCreateKeyring created readable
  rw [loaded] at first
  have longer : keysOf loadedBin <+: (ring.push key).keys := by
    rw [loadOrCreateKeyring_ok loaded, KeyRing.keys_push]
    exact List.prefix_append _ _
  exact first.trans (grown_saveKeyring fate first.readable longer)

theorem grown_rotateKeyring (created fresh : Key) {keysBin : Option Bytes}
    (readable : Readable keysBin) : Grown keysBin (fates.rotateKeyring created fresh keysBin).2 := by
  have first := fates.grown_loadOrCreateKeyring created readable
  unfold rotateKeyring
  rcases loaded : fates.loadOrCreateKeyring created keysBin with ⟨result, loadedBin⟩
  rw [loaded] at first
  cases result with
  | error failure => exact first
  | ok ring =>
      have pushed := grown_push readable loaded fates.saving fresh
      dsimp only
      split
      · next saved =>
          rw [saved] at pushed
          exact pushed
      · next saved =>
          rw [saved] at pushed
          exact pushed

theorem grown_installEpochKey (created : Key) (epoch : Nat) (key : Key) {keysBin : Option Bytes}
    (readable : Readable keysBin) :
    Grown keysBin (fates.installEpochKey created keysBin epoch key).2 := by
  have first := fates.grown_loadOrCreateKeyring created readable
  unfold installEpochKey
  rcases loaded : fates.loadOrCreateKeyring created keysBin with ⟨result, loadedBin⟩
  rw [loaded] at first
  cases result with
  | error failure => exact first
  | ok ring =>
      have pushed := grown_push readable loaded fates.saving key
      dsimp only
      split
      · split
        · exact first
        · exact first
      · split
        · exact first
        · split
          · exact first
          · split
            · next saved =>
                rw [saved] at pushed
                exact pushed
            · next saved =>
                rw [saved] at pushed
                exact pushed

end FileFates

/-- The calls that may write `keys.bin`, with the random keys they draw. -/
inductive KeyringCall where
  | loadOrCreateKeyring (created : Key)
  | rotateKeyring (created fresh : Key)
  | installEpochKey (created : Key) (epoch : Nat) (key : Key)
  | installKeyring (keys : List Key)
deriving DecidableEq

/-- The file a call leaves, whatever it returns. -/
def KeyringCall.leaves (fates : FileFates) (keysBin : Option Bytes) : KeyringCall → Option Bytes
  | .loadOrCreateKeyring created => (fates.loadOrCreateKeyring created keysBin).2
  | .rotateKeyring created fresh => (fates.rotateKeyring created fresh keysBin).2
  | .installEpochKey created epoch key => (fates.installEpochKey created keysBin epoch key).2
  | .installKeyring keys => (fates.installKeyring keysBin keys).2

/-- The share's `keys.bin` under any calls. -/
def keysFile : Machine (Option Bytes) (FileFates × KeyringCall) where
  step keysBin := fun (fates, call) => some (call.leaves fates keysBin)

theorem grown_leaves (fates : FileFates) (call : KeyringCall) {keysBin : Option Bytes}
    (readable : Readable keysBin) : Grown keysBin (call.leaves fates keysBin) := by
  cases call with
  | loadOrCreateKeyring created => exact fates.grown_loadOrCreateKeyring created readable
  | rotateKeyring created fresh => exact fates.grown_rotateKeyring created fresh readable
  | installEpochKey created epoch key => exact fates.grown_installEpochKey created epoch key readable
  | installKeyring keys => exact fates.grown_installKeyring readable keys

theorem grown_run {start final : Option Bytes} (readable : Readable start)
    {calls : List (FileFates × KeyringCall)} (ran : keysFile.run start calls = some final) :
    Grown start final := by
  have preserved : ∀ (file : Option Bytes) (call : FileFates × KeyringCall) (next : Option Bytes),
      Grown start file → keysFile.step file call = some next → Grown start next := by
    intro file (fates, call) next grown stepped
    cases stepped
    exact grown.trans (grown_leaves fates call grown.readable)
  exact keysFile.run_invariant preserved (.refl readable) ran

/-- A `Vec` of keys has at most `isize::MAX` bytes. -/
def KeyRing.FitsMemory (ring : KeyRing) : Prop := ring.keys.length * keyLen < 2 ^ 63

theorem KeyRing.FitsMemory.currentEpoch_lt {ring : KeyRing} (fits : ring.FitsMemory) :
    ring.currentEpoch < 2 ^ 64 := by
  have bound : ring.currentEpoch * 32 < 2 ^ 63 := fits
  omega

/-- Whatever calls are made and fail, the keys only grow at the end of the file: what any
loaded ring encrypts, every ring loaded later decrypts, and a saved ring is read back. -/
theorem oldContent_readable (crypto : Primitives) (lawful : crypto.Lawful) (start : Option Bytes)
    (readable : Readable start) (earlier later : List (FileFates × KeyringCall))
    (before after : Option Bytes) (reached : keysFile.run start earlier = some before) :
    (keysFile.run before later = some after → keysOf before <+: keysOf after) ∧
      (∀ (fates laterFates : FileFates) (created laterCreated : Key) (ring longer : KeyRing)
        (loadedBin laterBin : Option Bytes) (nonce : Nonce) (plaintext blob : Bytes),
        fates.loadOrCreateKeyring created before = (.ok ring, loadedBin) → ring.FitsMemory →
        keysFile.run loadedBin later = some after →
        laterFates.loadOrCreateKeyring laterCreated after = (.ok longer, laterBin) →
        encrypt crypto ring nonce plaintext = .ok blob →
        decrypt crypto longer blob = .ok plaintext) ∧
      ∀ (fate : SaveFate) (ring : KeyRing) (created : Key) (saved : Option Bytes),
        saveKeyring fate ring before = (.ok (), saved) →
        loadOrCreateKeyring created saved = (.ok ring, saved) := by
  have formed := (grown_run readable reached).readable
  refine ⟨fun ran => (grown_run formed ran).keys, ?_, ?_⟩
  · intro fates laterFates created laterCreated ring longer loadedBin laterBin nonce plaintext blob
      loaded fits ran reloaded encrypted
    have first := fates.grown_loadOrCreateKeyring created formed
    rw [loaded] at first
    have between := grown_run first.readable ran
    have last := laterFates.grown_loadOrCreateKeyring laterCreated between.readable
    rw [reloaded] at last
    have extends_ : ring.keys <+: longer.keys := by
      rw [← FileFates.loadOrCreateKeyring_ok loaded, ← FileFates.loadOrCreateKeyring_ok reloaded]
      exact (between.trans last).keys
    exact decrypt_encrypt lawful extends_ fits.currentEpoch_lt encrypted
  · intro fate ring created saved done
    rw [saveKeyring_ok done]
    exact loadOrCreateKeyring_fileBytes created ring

section Archive

open Reference

def firstKey : Key := .ofBytes 32 [1]

def secondKey : Key := .ofBytes 32 [2]

def firstRing : KeyRing := ⟨[firstKey], by simp⟩

/-- A rotation whose `chmod` fails, and an epoch too far ahead. -/
def archiveCalls : List (FileFates × KeyringCall) :=
  [(⟨none, .done, .afterRename ["chmod 0600"]⟩, .rotateKeyring firstKey secondKey),
    (.allDone, .installEpochKey firstKey (2 ^ 64 - 1) firstKey)]

theorem archive_readable :
    [firstKey] <+: [firstKey, secondKey] ∧
      decrypt cleartext (firstRing.push secondKey)
        (Codec.littleEndian 8 1 ++ (Octets.ofBytes 24 []).bytes ++
          (firstKey.bytes ++ (Octets.ofBytes 24 []).bytes ++ [7])) = .ok [7] ∧
      loadOrCreateKeyring secondKey (some firstRing.fileBytes) =
        (.ok firstRing, some firstRing.fileBytes) := by
  have history := oldContent_readable cleartext cleartext_lawful none
    (fun _ absent => by cases absent) [(.allDone, .installKeyring [firstKey])] archiveCalls
    (some firstRing.fileBytes) (some (firstRing.push secondKey).fileBytes) (by decide +kernel)
  have ran : keysFile.run (some firstRing.fileBytes) archiveCalls =
      some (some (firstRing.push secondKey).fileBytes) := by decide +kernel
  refine ⟨?_, ?_, history.2.2 .done firstRing secondKey _ rfl⟩
  · have grown := history.1 ran
    rw [keysOf_fileBytes, keysOf_fileBytes] at grown
    exact grown
  · refine history.2.1 .allDone .allDone firstKey firstKey firstRing _ _
      (some (firstRing.push secondKey).fileBytes) (.ofBytes 24 []) [7] _ ?_ (show 1 * 32 < 2 ^ 63 by decide) ran ?_ rfl
    · rw [loadOrCreateKeyring_allDone, loadOrCreateKeyring_fileBytes]
    · rw [loadOrCreateKeyring_allDone, loadOrCreateKeyring_fileBytes]

end Archive

end Peerdup.Crypto
