import Mathlib.Logic.Basic

/-!
A channel that keeps the last value only. Its receivers compare versions to notice
a new one. A value sent while there is no receiver is not stored.
-/

namespace HashMiner.Foundation

universe u

structure Watch (α : Type u) where
  value : α
  version : Nat
  receivers : Nat

namespace Watch

variable {α : Type u}

/-- The channel with the receiver that it is created with. -/
def channel (value : α) : Watch α := ⟨value, 0, 1⟩

def subscribe (c : Watch α) : Watch α := { c with receivers := c.receivers + 1 }

def drop (c : Watch α) : Watch α := { c with receivers := c.receivers - 1 }

def send (c : Watch α) (value : α) : Watch α :=
  if c.receivers = 0 then c else { c with value, version := c.version + 1 }

theorem send_received {c : Watch α} (value : α) (received : 0 < c.receivers) :
    c.send value = { c with value, version := c.version + 1 } :=
  if_neg (Nat.pos_iff_ne_zero.mp received)

theorem send_unreceived {c : Watch α} (value : α) (unreceived : c.receivers = 0) :
    c.send value = c := if_pos unreceived

end Watch

end HashMiner.Foundation
