import Mathlib.Logic.Function.Basic

/-!
# The ring of recently stored slots

`tswap_frontswap_store` pushes every slot it is called on, and a prefetch
request pops the most recent ones. A push on a full ring advances the head over
the oldest slot.
-/

namespace Memtrade.Tswap

/-- A swap slot: a swap type and an offset within it. -/
structure Slot where
  type : Nat
  offset : Nat
deriving DecidableEq, Repr

/-- `tswap_prefetch_buffer` with its two indices. -/
structure PrefetchRing where
  slots : Nat → Slot
  head : Nat
  tail : Nat

namespace PrefetchRing

def empty : PrefetchRing := ⟨fun _ => ⟨0, 0⟩, 0, 0⟩

/-- The push of `tswap_frontswap_store`; `size` is `PREFETCH_BUFFER_SIZE`. -/
def push (size : Nat) (r : PrefetchRing) (x : Slot) : PrefetchRing where
  head := if (r.tail + 1) % size = r.head then (r.head + 1) % size else r.head
  slots := Function.update r.slots r.tail x
  tail := (r.tail + 1) % size

/-- The pop of `tswap_prefetch_store`; `none` on an empty ring. -/
def pop (size : Nat) (r : PrefetchRing) : Option (Slot × PrefetchRing) :=
  if r.tail = r.head then none
  else
    let tail := (r.tail + size - 1) % size
    some (r.slots tail, { r with tail := tail })

end PrefetchRing

end Memtrade.Tswap
