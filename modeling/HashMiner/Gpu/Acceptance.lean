import HashMiner.Chain.Contract
import HashMiner.Gpu.Runtime
import Mathlib.Tactic.IntervalCases

/-!
# The kernel accepts what the contract accepts

The host packs the challenge in little-endian lanes and the target in big-endian
words. The sponge state a thread builds is the padded preimage of the inner hash,
so its flag `less` compares that hash with the target.
-/

namespace HashMiner.Gpu

open Foundation Foundation.Keccak Kernel Chain

/-- A nonce of 64 bits occupies the last eight of its 32 bytes. -/
theorem beBytes_nonce (nonce : U64) :
    beBytes 32 (nonce.setWidth 256).toNat = List.replicate 24 0 ++ beBytes 8 nonce.toNat := by
  have width : (nonce.setWidth 256).toNat = nonce.toNat := by
    have bound := nonce.isLt
    rw [BitVec.toNat_setWidth, Nat.mod_eq_of_lt (by omega)]
  have high : nonce.toNat / 256 ^ 8 = 0 := Nat.div_eq_of_lt nonce.isLt
  rw [width, beBytes_add 24 8, high, beBytes_zero]

theorem leWord_beBytes (nonce : U64) : leWord (beBytes 8 nonce.toNat) = bswap64Kernel nonce := by
  apply BitVec.eq_of_toNat_eq
  rw [toNat_leWord (by simp), toNat_bswap64Kernel]

theorem blockLane_zeros : ∀ j < 3, blockLane (List.replicate 24 0) j = 0 := by decide

theorem blockLane_padding : ∀ j < 9, blockLane (padding 64) j =
    if j = 0 then 0x0000000000000001 else if j = 8 then 0x8000000000000000 else 0 := by decide

/-- The thread writes its state lane by lane; these are the lanes of the padded block. -/
theorem initialState_eq_blockState (challenge : B256) (nonce : U64) :
    initialState (challengeLanes challenge) nonce =
      blockState (innerPreimage challenge (nonce.setWidth 256) ++ padding 64) := by
  have block : innerPreimage challenge (nonce.setWidth 256) ++ padding 64 =
      challenge.toList ++ (List.replicate 24 0 ++ (beBytes 8 nonce.toNat ++ padding 64)) := by
    rw [innerPreimage_eq, beBytes_nonce]
    simp
  have inChallenge : ∀ j < 4, blockLane (innerPreimage challenge (nonce.setWidth 256) ++ padding 64)
      j = leWord ((challenge.toList.drop (8 * j)).take 8) := by
    intro j hj
    rw [block, blockLane_append_left (by simp; omega), blockLane]
  have inZeros : ∀ j < 3, blockLane (innerPreimage challenge (nonce.setWidth 256) ++ padding 64)
      (4 + j) = 0 := by
    intro j hj
    rw [block, blockLane_append_right (by simp), blockLane_append_left (by simp; omega),
      blockLane_zeros j hj]
  have inNonce : blockLane (innerPreimage challenge (nonce.setWidth 256) ++ padding 64) 7 =
      bswap64Kernel nonce := by
    rw [block, show 7 = 4 + (3 + 0) from rfl, blockLane_append_right (by simp),
      blockLane_append_right (by simp), blockLane_append_left (by simp), blockLane,
      List.drop_zero, List.take_of_length_le (by simp), leWord_beBytes]
  have inPadding : ∀ j < 9, blockLane (innerPreimage challenge (nonce.setWidth 256) ++ padding 64)
      (8 + j) = blockLane (padding 64) j := by
    intro j hj
    rw [block, show 8 + j = 4 + (3 + (1 + j)) by omega, blockLane_append_right (by simp),
      blockLane_append_right (by simp), blockLane_append_right (by simp)]
  clear block
  generalize innerPreimage challenge (nonce.setWidth 256) ++ padding 64 = padded at *
  apply Vector.ext
  intro i hi
  rw [blockState, Vector.getElem_ofFn]
  rcases (by omega : i < 4 ∨ 4 ≤ i ∧ i < 7 ∨ i = 7 ∨ 8 ≤ i ∧ i < 17 ∨ 17 ≤ i) with
    h | h | h | h | h
  · rw [if_pos (by simp; omega), inChallenge i h]
    interval_cases i <;> rfl
  · obtain ⟨j, rfl⟩ := Nat.exists_eq_add_of_le h.1
    have small : j < 3 := by omega
    rw [if_pos (by simp; omega), inZeros j small]
    interval_cases j <;> rfl
  · subst h
    rw [if_pos (by simp), inNonce]
    rfl
  · obtain ⟨j, rfl⟩ := Nat.exists_eq_add_of_le h.1
    have small : j < 9 := by omega
    rw [if_pos (by simp; omega), inPadding j small, blockLane_padding j small]
    interval_cases j <;> rfl
  · rw [if_neg (by simp; omega)]
    interval_cases i <;> rfl

theorem toNat_bswap64Kernel_eq_beNat (x : U64) :
    (bswap64Kernel x).toNat = beNat (leBytes 8 x.toNat) := by
  rw [toNat_bswap64Kernel, beNat, beBytes]

/-- The digest read big-endian, by its swapped lanes. -/
theorem value_squeeze (a : State) :
    B256.value (squeeze a) = (bswap64Kernel (a.get 0)).toNat * 2 ^ 192 +
      (bswap64Kernel (a.get 1)).toNat * 2 ^ 128 + (bswap64Kernel (a.get 2)).toNat * 2 ^ 64 +
      (bswap64Kernel (a.get 3)).toNat := by
  rw [B256.value, toList_squeeze, beNat_four (by simp) (by simp) (by simp)]
  simp only [toNat_bswap64Kernel_eq_beNat]

theorem toNat_targetLanes (target : U256) :
    target.toNat = ((targetLanes target).get 0).toNat * 2 ^ 192 +
      ((targetLanes target).get 1).toNat * 2 ^ 128 + ((targetLanes target).get 2).toNat * 2 ^ 64 +
      ((targetLanes target).get 3).toNat := by
  have whole : beNat (beBytes 32 target.toNat) = target.toNat := by
    rw [beNat_beBytes]
    exact Nat.mod_eq_of_lt target.isLt
  exact whole.symm.trans (beNat_words (length_beBytes 32 target.toNat))

/-- Numbers of four words compare like their words, most significant first. -/
theorem words_lt {a b c d a' b' c' d' : U64} :
    (a < a' ∨ a = a' ∧ b < b' ∨ (a = a' ∧ b = b') ∧ c < c' ∨
      ((a = a' ∧ b = b') ∧ c = c') ∧ d < d') ↔
    a.toNat * 2 ^ 192 + b.toNat * 2 ^ 128 + c.toNat * 2 ^ 64 + d.toNat <
      a'.toNat * 2 ^ 192 + b'.toNat * 2 ^ 128 + c'.toNat * 2 ^ 64 + d'.toNat := by
  simp only [BitVec.lt_def, ← BitVec.toNat_inj]
  omega

/-- The digest of the inner hash is squeezed from the state that the thread permutes. -/
theorem value_computeInnerHash {keccak : Digest} (standard : StandardDigest keccak)
    (challenge : B256) (nonce : U64) :
    (computeInnerHash keccak challenge (nonce.setWidth 256)).value =
      B256.value (squeeze (keccakF1600Arr (initialState (challengeLanes challenge) nonce))) := by
  have length : (innerPreimage challenge (nonce.setWidth 256)).length = 64 := by
    simp [innerPreimage_eq]
  rw [computeInnerHash, standard, keccak256_oneBlock (by rw [length]; decide), length,
    ← initialState_eq_blockState, keccakF1600Arr_eq_permute]

theorem less_lanes_iff {keccak : Digest} (standard : StandardDigest keccak) (challenge : B256)
    (target : U256) (nonce : U64) :
    less (challengeLanes challenge) (targetLanes target) nonce = true ↔
      (computeInnerHash keccak challenge (nonce.setWidth 256)).value < target.toNat := by
  rw [value_computeInnerHash standard, value_squeeze, toNat_targetLanes, ← words_lt]
  simp [less, or_assoc]

theorem hotSwap_frame {rt rt' : GpuRuntime} {challenge : B256} {target : U256} {epochId : U32}
    {calls : HotSwapCalls} (loaded : rt.hotSwap challenge target epochId calls = (.ok (), rt')) :
    rt' = { rt with
      challengeBuf := challengeLanes challenge
      targetBuf := targetLanes target
      epochIdHost := epochId } := by
  unfold GpuRuntime.hotSwap at loaded
  split at loaded
  · cases loaded
  · split at loaded
    · cases loaded
    · split at loaded <;> cases loaded
      rfl

theorem hotSwap_loads {rt rt' : GpuRuntime} {challenge : B256} {target : U256} {epochId : U32}
    {calls : HotSwapCalls} (loaded : rt.hotSwap challenge target epochId calls = (.ok (), rt')) :
    rt'.challengeBuf = challengeLanes challenge ∧ rt'.targetBuf = targetLanes target := by
  rw [hotSwap_frame loaded]
  exact ⟨rfl, rfl⟩

/-- After a hot swap, the threads accept the nonces whose inner hash, read as a
big-endian number, is below the target. -/
theorem mine_accepts_iff_innerHash_lt (keccak : Digest) (standard : StandardDigest keccak)
    (rt rt' : GpuRuntime) (challenge : B256) (target : U256) (epochId : U32)
    (calls : HotSwapCalls) (loaded : rt.hotSwap challenge target epochId calls = (.ok (), rt'))
    (nonce : U64) :
    less rt'.challengeBuf rt'.targetBuf nonce = true ↔
      (computeInnerHash keccak challenge (nonce.setWidth 256)).value < target.toNat := by
  obtain ⟨lanes, words⟩ := hotSwap_loads loaded
  rw [lanes, words]
  exact less_lanes_iff standard challenge target nonce

/-- The target is in the order of the challenge's first small hash. -/
theorem layoutChallenge_lt :
    (computeInnerHash Keccak.keccak256 layoutChallenge
      ((0x4243 : U64).setWidth 256)).value < (BitVec.twoPow 256 253).toNat := by
  have value := value_layoutChallenge
  rw [BitVec.toNat_twoPow]
  change (computeInnerHash Keccak.keccak256 layoutChallenge 0x4243).value < _
  omega

theorem mine_accepts_after_first_swap :
    ∃ rt, GpuRuntime.init.hotSwap layoutChallenge (BitVec.twoPow 256 253) 0 ⟨.done, .done, none⟩ =
        (.ok (), rt) ∧
      less rt.challengeBuf rt.targetBuf 0x4243 = true :=
  ⟨⟨challengeLanes layoutChallenge, targetLanes (BitVec.twoPow 256 253), 0, 0, 0⟩, rfl,
    (mine_accepts_iff_innerHash_lt keccak256 (fun _ => rfl) .init _ layoutChallenge _ 0
      ⟨.done, .done, none⟩ rfl 0x4243).mpr layoutChallenge_lt⟩

end HashMiner.Gpu
