import Mathlib.Data.List.Infix

/-!
# Handles that are replaced

An owner has handles open and remembers one. To replace it, it closes that one and opens
another. A replacement that fails may leave a handle open that nobody remembers.
-/

set_option autoImplicit false

namespace Peerdup.Foundation

structure Handles (Id : Type) where
  opened : List Id
  held : Option Id

namespace Handles

variable {Id : Type} [DecidableEq Id]

/-- Open, and not remembered. -/
def strays (handles : Handles Id) : List Id :=
  handles.opened.filter fun id => some id ≠ handles.held

variable {given : Id → Prop} {handles after : Handles Id} {failed : Bool}

end Handles

end Peerdup.Foundation
