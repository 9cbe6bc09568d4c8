import HashMiner.Chain.Challenge
import HashMiner.Foundation.Abi

/-!
# The hashed bytes as the contract encodes them

The contract hashes `abi.encode` of the same arguments. The fields are copied to fixed
places of a zeroed buffer; each of them fills up its word.
-/

namespace HashMiner.Chain

open Foundation

/-- `abi.encode(block.chainid, address(this), miner, _epoch())` -/
def challengeTypes : List Abi.Ty := [Abi.uint256, .address, .address, Abi.uint256]

/-- `abi.encode(challenge, nonce)` -/
def innerTypes : List Abi.Ty := [Abi.bytes32, Abi.uint256]

def challengeWords : U64 × Address × Address × U64 → Abi.Values challengeTypes
  | (chainId, contract, miner, epoch) =>
    (chainId.setWidth 256, contract, miner, epoch.setWidth 256, ⟨⟩)

def challengeArgs : Abi.Values challengeTypes → U64 × Address × Address × U64
  | (chainId, contract, miner, epoch, _) =>
    (BitVec.setWidth 64 chainId, contract, miner, BitVec.setWidth 64 epoch)

def innerWords : B256 × U256 → Abi.Values innerTypes
  | (challenge, nonce) => (challenge, nonce, ⟨⟩)

def innerArgs : Abi.Values innerTypes → B256 × U256
  | (challenge, nonce, _) => (challenge, nonce)

/-- A copy into the part of the buffer that is still zero. -/
theorem copyFromSlice_zeros {front src : List Byte} {start n : Nat} (gap rest : Nat)
    (starts : start = front.length + gap) (fits : n = gap + src.length + rest) :
    copyFromSlice (front ++ List.replicate n 0) start src =
      front ++ List.replicate gap 0 ++ src ++ List.replicate rest 0 := by
  subst starts fits
  have before : (front ++ List.replicate (gap + src.length + rest) 0).take (front.length + gap) =
      front ++ List.replicate gap (0 : Byte) := by
    rw [List.take_length_add_append, List.take_replicate]
    congr 2
    omega
  have behind : (front ++ List.replicate (gap + src.length + rest) 0).drop
      (front.length + gap + src.length) = List.replicate rest (0 : Byte) := by
    rw [Nat.add_assoc, List.drop_length_add_append, List.drop_replicate]
    congr 1
    omega
  rw [copyFromSlice, before, behind]

theorem challengePreimage_eq (chainId : U64) (contract miner : Address) (epoch : U64) :
    challengePreimage chainId contract miner epoch =
      List.replicate 24 0 ++ beBytes 8 chainId.toNat ++ List.replicate 12 0 ++ contract.toList ++
        List.replicate 12 0 ++ miner.toList ++ List.replicate 24 0 ++ beBytes 8 epoch.toNat := by
  have zeroed : List.replicate 128 (0 : Byte) = [] ++ List.replicate 128 0 := rfl
  simp only [challengePreimage]
  rw [zeroed, copyFromSlice_zeros 24 96, copyFromSlice_zeros 12 64, copyFromSlice_zeros 12 32,
    copyFromSlice_zeros 24 0]
  · simp only [List.nil_append, List.replicate_zero, List.append_nil]
  all_goals simp

theorem encodeHead_u64 (x : U64) :
    Abi.encodeHead Abi.uint256 (x.setWidth 256) = List.replicate 24 0 ++ beBytes 8 x.toNat := by
  have small : x.toNat < 256 ^ 8 := x.isLt
  have kept : (x.setWidth 256).toNat = x.toNat :=
    BitVec.toNat_setWidth_of_le (by decide)
  rw [Abi.encodeHead_uint256, kept, beBytes_pad 24 small]

theorem encodeHead_address (a : Address) :
    Abi.encodeHead .address a = List.replicate 12 0 ++ a.toList := by
  have small := beNat_lt a.toList
  have whole := beBytes_beNat a.toList
  rw [Vector.length_toList] at small whole
  rw [Abi.encodeHead, beBytes_pad 12 small, whole]

theorem encode_challengeWords (chainId : U64) (contract miner : Address) (epoch : U64) :
    challengePreimage chainId contract miner epoch =
      Abi.encode challengeTypes (challengeWords (chainId, contract, miner, epoch)) := by
  rw [challengePreimage_eq]
  simp only [challengeTypes, challengeWords, Abi.encode, encodeHead_u64, encodeHead_address,
    List.append_nil, List.append_assoc]

theorem encode_innerWords (challenge : B256) (nonce : U256) :
    innerPreimage challenge nonce = Abi.encode innerTypes (innerWords (challenge, nonce)) := by
  rw [innerPreimage_eq]
  simp only [innerTypes, innerWords, Abi.encode, Abi.encodeHead_bytes32, Abi.encodeHead_uint256,
    List.append_nil]

theorem challengeArgs_challengeWords (a : U64 × Address × Address × U64) :
    challengeArgs (challengeWords a) = a := by
  obtain ⟨chainId, contract, miner, epoch⟩ := a
  have narrowed (x : U64) : BitVec.setWidth 64 (x.setWidth 256) = x := by simp
  simp only [challengeWords, challengeArgs, narrowed]

/-- What is hashed is what the contract hashes, and it determines the arguments. -/
theorem preimages_are_abi_encodings :
    ((∀ keccak chainId contract miner epoch, computeChallenge keccak chainId contract miner epoch =
        keccak (Abi.encode challengeTypes (challengeWords (chainId, contract, miner, epoch)))) ∧
      Abi.Writes (fun (chainId, contract, miner, epoch) =>
        challengePreimage chainId contract miner epoch) challengeTypes challengeWords
        challengeArgs) ∧
    (∀ keccak challenge nonce, computeInnerHash keccak challenge nonce =
        keccak (Abi.encode innerTypes (innerWords (challenge, nonce)))) ∧
      Abi.Writes (fun (challenge, nonce) => innerPreimage challenge nonce) innerTypes innerWords
        innerArgs := by
  refine ⟨⟨?_, ?_⟩, ?_, ?_⟩
  · intro keccak chainId contract miner epoch
    rw [computeChallenge, encode_challengeWords]
  · refine Abi.writes_of_encodes (fun a => ?_) challengeArgs_challengeWords
    obtain ⟨chainId, contract, miner, epoch⟩ := a
    exact encode_challengeWords chainId contract miner epoch
  · intro keccak challenge nonce
    rw [computeInnerHash, encode_innerWords]
  · refine Abi.writes_of_encodes (fun a => ?_) fun a => rfl
    obtain ⟨challenge, nonce⟩ := a
    exact encode_innerWords challenge nonce

end HashMiner.Chain
