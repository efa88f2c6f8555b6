import Peerdup.Daemon.AnnouncedClocks
import Peerdup.Foundation.Handles

/-!
# The torrents a task leaves behind

`sync_loop` deletes the torrent of the version it holds before it adds another. When the call
then fails, what it has added is in no state and stays.
-/

set_option autoImplicit false

namespace Peerdup.Daemon

open Foundation Auth Crypto Rotation

variable {crdt : GroupCrdt} {crypto : Primitives}

section Calls

variable {device after : Device} {root : Path} {peerIdHex : String} {key : KeyRing}
  {current : Option ShareState}

end Calls

section Task

variable {setup : ShareSetup crypto} {share next : RunningShare crdt} {current : Option ShareState}

end Task

section Run

variable {setup : ShareSetup crypto} {share : RunningShare crdt}

end Run

section Sample

open Reference ShareLoop

end Sample

end Peerdup.Daemon
