import HashMiner.Foundation.Keccak.Sponge
import HashMiner.Types

/-!
The two hashes of the proof of work. The digest of the hash package is a
parameter; `StandardDigest` says which function it computes.
-/

namespace HashMiner.Chain

open Foundation

/-- One `update` and `finalize` of the package's `Keccak::v256`. -/
abbrev Digest := List Byte → B256

def StandardDigest (keccak : Digest) : Prop :=
  ∀ message, keccak message = Keccak.keccak256 message

/-- `buf[start..start + src.len()].copy_from_slice(src)` -/
def copyFromSlice (buf : List Byte) (start : Nat) (src : List Byte) : List Byte :=
  buf.take start ++ src ++ buf.drop (start + src.length)

def challengePreimage (chainId : U64) (contract miner : Address) (epoch : U64) : List Byte :=
  let buf := List.replicate 128 0
  let buf := copyFromSlice buf 24 (beBytes 8 chainId.toNat)
  let buf := copyFromSlice buf 44 contract.toList
  let buf := copyFromSlice buf 76 miner.toList
  copyFromSlice buf 120 (beBytes 8 epoch.toNat)

def computeChallenge (keccak : Digest) (chainId : U64) (contract miner : Address) (epoch : U64) :
    B256 :=
  keccak (challengePreimage chainId contract miner epoch)

def innerPreimage (challenge : B256) (nonce : U256) : List Byte :=
  let buf := List.replicate 64 0
  let buf := copyFromSlice buf 0 challenge.toList
  copyFromSlice buf 32 (beBytes 32 nonce.toNat)

def computeInnerHash (keccak : Digest) (challenge : B256) (nonce : U256) : B256 :=
  keccak (innerPreimage challenge nonce)

theorem innerPreimage_eq (challenge : B256) (nonce : U256) :
    innerPreimage challenge nonce = challenge.toList ++ beBytes 32 nonce.toNat := by
  simp [innerPreimage, copyFromSlice]

end HashMiner.Chain
