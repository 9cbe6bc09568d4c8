import HashMiner.Chain.Challenge

/-!
The deployment that the miner works for, and a challenge of it.
-/

namespace HashMiner.Chain

open Foundation

def contract : Address :=
  #v[0xAC, 0x7b, 0x5d, 0x06, 0xfa, 0x1e, 0x77, 0xD0, 0x8a, 0xea, 0x40, 0xd4, 0x6c, 0xB7, 0xC5, 0x92,
    0x3A, 0x87, 0xA0, 0xcc]

def chainId : U64 := 1

def epochBlocks : U64 := 100

/-- The miner of the repository's layout test, which hashes for epoch 250707. -/
def layoutMiner : Address := #v[0, 0, 0, 0, 0, 0, 0, 0, 0, 0, 0, 0, 0, 0, 0, 0, 0, 0, 0, 1]

def layoutChallenge : B256 :=
  #v[0xf8, 0xf8, 0xc2, 0x3e, 0xea, 0x46, 0x13, 0x44, 0x91, 0xea, 0xc4, 0xe5, 0x26, 0x51, 0xe9, 0x17,
    0x16, 0x5a, 0x0c, 0xbe, 0xbb, 0x5a, 0x57, 0x7c, 0xd5, 0xf5, 0x67, 0xbd, 0xe3, 0x46, 0xf8, 0x52]

theorem computeChallenge_layoutMiner :
    computeChallenge Keccak.keccak256 chainId contract layoutMiner 250707 = layoutChallenge := by
  decide +kernel

theorem value_layoutChallenge :
    (computeInnerHash Keccak.keccak256 layoutChallenge 0x4243).value / 2 ^ 240 = 7630 := by
  decide +kernel

/-- The hash of the nonce before. -/
theorem value_layoutChallenge_before :
    (computeInnerHash Keccak.keccak256 layoutChallenge 0x4242).value / 2 ^ 240 = 61072 := by
  decide +kernel

end HashMiner.Chain
