import HashMiner.Foundation.Machine
import HashMiner.Kernel.Permutation

/-!
# The kernel `mine`

A launch starts one thread for every position of the grid. Threads share the flag
`found` and the word `result`; each reads the flag, claims it by compare-and-swap
if its hash is accepted, and then stores its nonce. The machine `grid` interleaves
these steps in any order.
-/

namespace HashMiner.Kernel

open Foundation Foundation.Keccak

def initialState (challenge : Vector U64 4) (nonce : U64) : State :=
  let st : State := Vector.replicate 25 0
  let st := put (put (put (put st 0 (challenge.get 0)) 1 (challenge.get 1)) 2 (challenge.get 2)) 3
    (challenge.get 3)
  let st := put st 7 (bswap64Kernel nonce)
  put (put st 8 0x0000000000000001) 16 0x8000000000000000

/-- The flag `less`: the permuted state against the target, most significant word first. -/
def less (challenge target : Vector U64 4) (nonce : U64) : Bool :=
  let st := keccakF1600Arr (initialState challenge nonce)
  let h0 := bswap64Kernel (st.get 0)
  let h1 := bswap64Kernel (st.get 1)
  let h2 := bswap64Kernel (st.get 2)
  let h3 := bswap64Kernel (st.get 3)
  let d0 := target.get 0
  let d1 := target.get 1
  let d2 := target.get 2
  let d3 := target.get 3
  decide (h0 < d0) ||
    (h0 == d0 && decide (h1 < d1)) ||
    (h0 == d0 && h1 == d1 && decide (h2 < d2)) ||
    (h0 == d0 && h1 == d1 && h2 == d2 && decide (h3 < d3))

/-- `gid` of thread `g`, which is thread `g % blockDim` of block `g / blockDim`. -/
def gid (blockDim : U32) (g : Nat) : U64 :=
  BitVec.ofNat 64 (g / blockDim.toNat) * blockDim.setWidth 64 +
    BitVec.ofNat 64 (g % blockDim.toNat)

/-- The arguments of one launch that no thread writes. -/
structure Launch where
  challenge : Vector U64 4
  target : Vector U64 4
  nonceStart : U64
  gridDim : U32
  blockDim : U32

namespace Launch

def threads (l : Launch) : Nat := l.gridDim.toNat * l.blockDim.toNat

def nonce (l : Launch) (g : Nat) : U64 := l.nonceStart + gid l.blockDim g

def accepts (l : Launch) (g : Nat) : Bool := less l.challenge l.target (l.nonce g)

end Launch

inductive Thread where
  | entry
  | hashing
  | claimed
  | exited
  deriving DecidableEq

structure Grid where
  found : U32
  result : U64
  thread : Nat → Thread

namespace Grid

/-- The memory that a launch finds, with every thread at its entry. -/
def start (found : U32) (result : U64) : Grid := ⟨found, result, fun _ => .entry⟩

def move (s : Grid) (g : Nat) (t : Thread) : Grid :=
  { s with thread := Function.update s.thread g t }

/-- The next atomic step of thread `g`. -/
def step (l : Launch) (s : Grid) (g : Nat) : Option Grid :=
  if g < l.threads then
    match s.thread g with
    | .entry => some (if s.found ≠ 0 then s.move g .exited else s.move g .hashing)
    | .hashing =>
      some (if l.accepts g then
        if s.found = 0 then { s with found := 1 }.move g .claimed else s.move g .exited
      else s.move g .exited)
    | .claimed => some ({ s with result := l.nonce g }.move g .exited)
    | .exited => none
  else none

def machine (l : Launch) : Machine Grid Nat := ⟨step l⟩

/-- The thread whose step stores to `result`. -/
def stores (s : Grid) (g : Nat) : List Nat := if s.thread g = .claimed then [g] else []

/-- What the host waits for. -/
def Complete (l : Launch) (s : Grid) : Prop := ∀ g < l.threads, s.thread g = .exited

instance (l : Launch) (s : Grid) : Decidable (s.Complete l) :=
  inferInstanceAs (Decidable (∀ g < l.threads, s.thread g = .exited))

end Grid

end HashMiner.Kernel
