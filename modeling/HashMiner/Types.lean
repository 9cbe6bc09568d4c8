import HashMiner.Foundation.Bytes

/-!
Fixed-width integers, byte arrays and errors shared by all components.
-/

namespace HashMiner

open Foundation

abbrev U32 := BitVec 32
abbrev U64 := BitVec 64
abbrev U128 := BitVec 128
abbrev U256 := BitVec 256

abbrev B256 := Vector Byte 32
abbrev Address := Vector Byte 20
abbrev TxHash := B256

def B256.zero : B256 := Vector.replicate 32 0

/-- `U256::from_be_bytes`, as a number. -/
def B256.value (h : B256) : Nat := beNat h.toList

structure Hit where
  nonce : U256
  hash : B256
  epochId : U64
  deriving DecidableEq, Repr

inductive MinerError where
  | io (message : String)
  | config (message : String)
  | rpc (message : String)
  | contract (message : String)
  | keystore (message : String)
  | gpu (message : String)
  | tx (message : String)
  | revert (message : String)
  | genesisNotComplete
  | wrongChain
  | alloy (message : String)
  deriving DecidableEq, Repr

/-- `Uint::to::<u64>`, which panics on a value that does not fit. -/
def U256.toU64? (x : U256) : Option U64 :=
  if x.toNat < 2 ^ 64 then some (x.setWidth 64) else none

theorem U256.toNat_of_toU64? {x : U256} {n : U64} (fits : x.toU64? = some n) :
    n.toNat = x.toNat := by
  unfold U256.toU64? at fits
  split at fits <;> cases fits
  next small => rw [BitVec.toNat_setWidth, Nat.mod_eq_of_lt small]

/-- `a + b` on unsigned integers: an overflow panics in a build with overflow
checks and wraps in one without. -/
def addUnsigned {w : Nat} (overflowChecks : Bool) (a b : BitVec w) : Option (BitVec w) :=
  if overflowChecks ∧ 2 ^ w ≤ a.toNat + b.toNat then none else some (a + b)

theorem addUnsigned_le {w : Nat} {overflowChecks : Bool} {a b sum : BitVec w}
    (added : addUnsigned overflowChecks a b = some sum) : sum.toNat ≤ a.toNat + b.toNat := by
  unfold addUnsigned at added
  split at added <;> cases added
  rw [BitVec.toNat_add]
  exact Nat.mod_le _ _

theorem toNat_of_addUnsigned {w : Nat} {overflowChecks : Bool} {a b sum : BitVec w}
    (added : addUnsigned overflowChecks a b = some sum)
    (fits : overflowChecks = false → a.toNat + b.toNat < 2 ^ w) :
    sum.toNat = a.toNat + b.toNat := by
  unfold addUnsigned at added
  split at added <;> cases added
  next whole =>
  rw [BitVec.toNat_add]
  apply Nat.mod_eq_of_lt
  cases overflowChecks with
  | false => exact fits rfl
  | true => exact Nat.not_le.mp fun overflow => whole ⟨rfl, overflow⟩

theorem addUnsigned_eq_none {w : Nat} {overflowChecks : Bool} {a b : BitVec w} :
    addUnsigned overflowChecks a b = none ↔
      overflowChecks = true ∧ 2 ^ w ≤ a.toNat + b.toNat := by
  unfold addUnsigned
  split
  · next overflow => exact iff_of_true rfl overflow
  · next whole => exact iff_of_false nofun whole

theorem addUnsigned_of_lt {w : Nat} {a b : BitVec w} (overflowChecks : Bool)
    (fits : a.toNat + b.toNat < 2 ^ w) : addUnsigned overflowChecks a b = some (a + b) :=
  if_neg fun overflow => Nat.not_le.mpr fits overflow.2

end HashMiner
