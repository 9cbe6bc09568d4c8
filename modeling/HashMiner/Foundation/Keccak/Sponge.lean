import HashMiner.Foundation.Bytes
import HashMiner.Foundation.Keccak.Permutation

/-!
# Keccak-256

The sponge with rate 136 and capacity 64 bytes, and the original padding
`0x01 … 0x80`. A message shorter than one block is absorbed by one permutation;
`keccak256_oneBlock` names the state it is applied to.
-/

namespace HashMiner.Foundation.Keccak

/-- Bytes absorbed by one permutation. -/
def rate : Nat := 136

/-- The padding fills up the last block, and is never empty. -/
def padding (length : Nat) : List Byte :=
  let gap := rate - length % rate
  if gap = 1 then [0x81] else 0x01 :: (List.replicate (gap - 2) 0 ++ [0x80])

theorem length_padding (length : Nat) : (padding length).length = rate - length % rate := by
  have used : length % rate < rate := Nat.mod_lt _ (by decide)
  simp only [padding]
  split
  · simp_all
  · simp
    omega

def blockLane (block : List Byte) (i : Nat) : Lane := leWord ((block.drop (8 * i)).take 8)

def absorbBlock (a : State) (block : List Byte) : State :=
  permute (Vector.ofFn fun i => if i.val < 17 then a.get i ^^^ blockLane block i.val else a.get i)

def absorb : Nat → State → List Byte → State
  | 0, a, _ => a
  | n + 1, a, bytes => absorb n (absorbBlock a (bytes.take rate)) (bytes.drop rate)

/-- The first 32 bytes of the state. -/
def squeeze (a : State) : Vector Byte 32 :=
  ⟨(leBytes 8 (a.get 0).toNat ++ leBytes 8 (a.get 1).toNat ++ leBytes 8 (a.get 2).toNat ++
    leBytes 8 (a.get 3).toNat).toArray, by simp⟩

def keccak256 (message : List Byte) : Vector Byte 32 :=
  let padded := message ++ padding message.length
  squeeze (absorb (padded.length / rate) (Vector.replicate 25 0) padded)

/-- The lanes of one padded block over an empty capacity. -/
def blockState (block : List Byte) : State :=
  Vector.ofFn fun i => if i.val < 17 then blockLane block i.val else 0

theorem keccak256_oneBlock {message : List Byte} (short : message.length < rate) :
    keccak256 message =
      squeeze (permute (blockState (message ++ padding message.length))) := by
  have full : (message ++ padding message.length).length = rate := by
    rw [List.length_append, length_padding, Nat.mod_eq_of_lt short]
    omega
  have first : absorbBlock (Vector.replicate 25 0) (message ++ padding message.length) =
      permute (blockState (message ++ padding message.length)) := by
    have zero (i : Fin 25) : (Vector.replicate 25 0#64).get i = 0#64 :=
      Vector.getElem_replicate i.isLt
    simp [absorbBlock, blockState, zero]
  rw [keccak256, full, Nat.div_self (by decide)]
  simp only [absorb, List.take_of_length_le full.le, first]

theorem blockLane_append_left {as bs : List Byte} {i : Nat} (inside : 8 * i + 8 ≤ as.length) :
    blockLane (as ++ bs) i = blockLane as i := by
  rw [blockLane, List.drop_append_of_le_length (by omega),
    List.take_append_of_le_length (by simp; omega), blockLane]

theorem blockLane_append_right {as bs : List Byte} {n i : Nat} (aligned : as.length = 8 * n) :
    blockLane (as ++ bs) (n + i) = blockLane bs i := by
  rw [blockLane, blockLane, show 8 * (n + i) = as.length + 8 * i by omega, ← List.drop_drop,
    List.drop_left]

theorem toList_squeeze (a : State) :
    (squeeze a).toList = leBytes 8 (a.get 0).toNat ++ leBytes 8 (a.get 1).toNat ++
      leBytes 8 (a.get 2).toNat ++ leBytes 8 (a.get 3).toNat := by
  simp [squeeze, Vector.toList]

/-- The published digest of the empty message. -/
example : (keccak256 []).toList =
    [0xc5, 0xd2, 0x46, 0x01, 0x86, 0xf7, 0x23, 0x3c, 0x92, 0x7e, 0x7d, 0xb2, 0xdc, 0xc7, 0x03, 0xc0,
      0xe5, 0x00, 0xb6, 0x53, 0xca, 0x82, 0x27, 0x3b, 0x7b, 0xfa, 0xd8, 0x04, 0x5d, 0x85, 0xa4,
      0x70] := by decide +kernel

end HashMiner.Foundation.Keccak
