import HashMiner.Chain.Encoding
import HashMiner.Chain.Watcher
import HashMiner.Foundation.Revert
import Mathlib.Logic.Function.Basic

/-!
# The mining part of the contract

Arithmetic is checked. What a call reads of its transaction and of the block is in the
environment; the balances are those of the token that the contract extends.
-/

namespace HashMiner.Contract

open Foundation Chain

def miningSupply : U256 := BitVec.ofNat 256 (18900000 * 10 ^ 18)

def eraMints : U256 := 100000

def baseReward : U256 := BitVec.ofNat 256 (100 * 10 ^ 18)

def epochBlocks : U256 := 100

def adjustmentInterval : U256 := 2016

def targetBlocksPerMint : U256 := 5

def maxMintsPerBlock : U256 := 10

inductive Revert where
  | genesisNotComplete
  | insufficientWork
  | proofAlreadyUsed
  | blockCapReached
  | supplyExhausted
  | panic (code : Nat)
  | mulDiv
  | transfer (reason : String)
  deriving DecidableEq

/-- The panic of checked arithmetic. -/
def overflow : Revert := .panic 0x11

inductive Event where
  | mined (miner : Address) (nonce reward era : U256)
  | difficultyAdjusted (old next blocksTaken : U256)
  | halving (era newReward : U256)

structure Storage where
  genesisComplete : Bool
  totalMints : U256
  totalMiningMinted : U256
  currentDifficulty : U256
  lastAdjustmentMint : U256
  lastAdjustmentBlock : U256
  mintsInBlock : U256 → U256
  usedProofs : B256 → Bool

structure Env where
  chainId : U256
  self : Address
  sender : Address
  blockNumber : U256

/-- `_transfer(from, to, value)` of the token. -/
structure Token (Ledger : Type) where
  transfer : Address → Address → U256 → Ledger → Except String Ledger

/-- `FullMath.mulDiv`: the product is not cut off. -/
def mulDiv (a b denominator : U256) : Except Revert U256 :=
  let quotient := a.toNat * b.toNat / denominator.toNat
  if denominator = 0 ∨ 2 ^ 256 ≤ quotient then .error .mulDiv else .ok (BitVec.ofNat 256 quotient)

variable (env : Env) (s : Storage)

def epoch : U256 := env.blockNumber / epochBlocks

def challenge (miner : Address) : B256 :=
  Keccak.keccak256 (Abi.encode challengeTypes (env.chainId, env.self, miner, epoch env, ⟨⟩))

/-- `era < 64 ? BASE_REWARD >> era : 0` -/
def rewardOf (era : U256) : U256 := if era < 64 then baseReward >>> era.toNat else 0

/-- `taken == 0 ? old / 4 : FullMath.mulDiv(old, taken, target)` -/
def scaled (old taken target : U256) : Except Revert U256 :=
  if taken = 0 then .ok (old / 4) else mulDiv old taken target

def adjustDifficulty : Except Revert (Storage × List Event) := do
  let taken ← subChecked overflow env.blockNumber s.lastAdjustmentBlock
  let target ← mulChecked overflow adjustmentInterval targetBlocksPerMint
  let next ← scaled s.currentDifficulty taken target
  let most ← mulChecked overflow s.currentDifficulty 4
  let least := s.currentDifficulty / 4
  let next := if next < least then least else next
  let next := if most < next then most else next
  let next := if next = 0 then 1 else next
  return ({ s with
    currentDifficulty := next
    lastAdjustmentMint := s.totalMints
    lastAdjustmentBlock := env.blockNumber },
    [.difficultyAdjusted s.currentDifficulty next taken])

/-- The adjustment, when enough mints have been made `since` the last one. -/
def adjustWhenDue (since : U256) : Except Revert (Storage × List Event) :=
  if adjustmentInterval ≤ since then adjustDifficulty env s else .ok (s, [])

variable {Ledger : Type} (token : Token Ledger) (ledger : Ledger) (nonce : U256)

def mine : Except Revert (Storage × Ledger × List Event) := do
  revertIf (s.genesisComplete = false) .genesisNotComplete
  revertIf (miningSupply ≤ s.totalMiningMinted) .supplyExhausted
  revertIf (maxMintsPerBlock ≤ s.mintsInBlock env.blockNumber) .blockCapReached
  let result := Keccak.keccak256
    (Abi.encode innerTypes (challenge env env.sender, nonce, ⟨⟩))
  revertIf (s.currentDifficulty.toNat ≤ B256.value result) .insufficientWork
  let key := Keccak.keccak256
    (Abi.encode [.address, Abi.uint256, Abi.uint256] (env.sender, nonce, epoch env, ⟨⟩))
  revertIf (s.usedProofs key = true) .proofAlreadyUsed
  let mints ← addChecked overflow (s.mintsInBlock env.blockNumber) 1
  let totalMints ← addChecked overflow s.totalMints 1
  let s := { s with
    usedProofs := Function.update s.usedProofs key true
    mintsInBlock := Function.update s.mintsInBlock env.blockNumber mints
    totalMints }
  let since ← subChecked overflow s.totalMints s.lastAdjustmentMint
  let (s, adjusted) ← adjustWhenDue env s since
  let era := s.totalMints / eraMints
  let left ← subChecked overflow miningSupply s.totalMiningMinted
  let reward := if left < rewardOf era then left else rewardOf era
  revertIf (reward = 0) .supplyExhausted
  let minted ← addChecked overflow s.totalMiningMinted reward
  let s := { s with totalMiningMinted := minted }
  let ledger ← (token.transfer env.self env.sender reward ledger).mapError .transfer
  let halving := if 0 < era ∧ s.totalMints % eraMints = 0 then [.halving era reward] else []
  return (s, ledger, adjusted ++ halving ++ [.mined env.sender nonce reward era])

def miningState : Except Revert MiningStateReturn := do
  let era := s.totalMints / eraMints
  let remaining ← subChecked overflow miningSupply s.totalMiningMinted
  let epochBlocksLeft_ ← subChecked overflow epochBlocks (env.blockNumber % epochBlocks)
  return ⟨era, rewardOf era, s.currentDifficulty, s.totalMiningMinted, remaining, epoch env,
    epochBlocksLeft_⟩

theorem miningState_ok (supplied : s.totalMiningMinted.toNat ≤ miningSupply.toNat) :
    miningState env s = .ok ⟨s.totalMints / eraMints, rewardOf (s.totalMints / eraMints),
      s.currentDifficulty, s.totalMiningMinted, miningSupply - s.totalMiningMinted, epoch env,
      epochBlocks - env.blockNumber % epochBlocks⟩ := by
  have within : (env.blockNumber % epochBlocks).toNat ≤ epochBlocks.toNat := by
    rw [BitVec.toNat_umod]
    exact Nat.le_of_lt (Nat.mod_lt _ (by decide))
  simp only [miningState, subChecked_of_le supplied, subChecked_of_le within]
  rfl

section Reverts

variable {env s token ledger nonce}

/-- Why a call of `mine` reverts. -/
inductive Reverts (env : Env) (s : Storage) (nonce : U256) : Revert → Prop
  | genesis : s.genesisComplete = false → Reverts env s nonce .genesisNotComplete
  | exhausted : miningSupply ≤ s.totalMiningMinted → Reverts env s nonce .supplyExhausted
  | blockCap : maxMintsPerBlock ≤ s.mintsInBlock env.blockNumber →
      Reverts env s nonce .blockCapReached
  | noWork : Reverts env s nonce .insufficientWork
  | used : Reverts env s nonce .proofAlreadyUsed
  | arithmetic : Reverts env s nonce overflow
  | quotient : Reverts env s nonce .mulDiv
  | noReward (total : U256) : total.toNat = s.totalMints.toNat + 1 →
      rewardOf (total / eraMints) = 0 → Reverts env s nonce .supplyExhausted
  | transfer (reason : String) : Reverts env s nonce (.transfer reason)

theorem scaled_error {old taken target : U256} {e : Revert}
    (reverted : scaled old taken target = .error e) : e = .mulDiv := by
  unfold scaled mulDiv at reverted
  split at reverted
  · cases reverted
  · dsimp only at reverted
    split at reverted <;> cases reverted
    rfl

theorem adjustWhenDue_error {since : U256} {e : Revert}
    (reverted : adjustWhenDue env s since = .error e) : e = overflow ∨ e = .mulDiv := by
  simp only [adjustWhenDue, adjustDifficulty] at reverted
  split at reverted
  · rcases bind_reverts.mp reverted with early | ⟨taken, _, reverted⟩
    · exact .inl (subChecked_error.mp early).2.symm
    rcases bind_reverts.mp reverted with early | ⟨target, _, reverted⟩
    · exact .inl (mulChecked_error.mp early).2.symm
    rcases bind_reverts.mp reverted with early | ⟨next, _, reverted⟩
    · exact .inr (scaled_error early)
    rcases bind_reverts.mp reverted with early | ⟨most, _, reverted⟩
    · exact .inl (mulChecked_error.mp early).2.symm
    cases reverted
  · cases reverted

/-- An adjustment changes the difficulty and what it is computed from. -/
theorem adjustWhenDue_ok {since : U256} {t : Storage} {events : List Event}
    (adjusted : adjustWhenDue env s since = .ok (t, events)) :
    t = { s with
      currentDifficulty := t.currentDifficulty
      lastAdjustmentMint := t.lastAdjustmentMint
      lastAdjustmentBlock := t.lastAdjustmentBlock } := by
  simp only [adjustWhenDue, adjustDifficulty] at adjusted
  split at adjusted
  · obtain ⟨taken, _, adjusted⟩ := bind_returns.mp adjusted
    obtain ⟨target, _, adjusted⟩ := bind_returns.mp adjusted
    obtain ⟨next, _, adjusted⟩ := bind_returns.mp adjusted
    obtain ⟨most, _, adjusted⟩ := bind_returns.mp adjusted
    cases adjusted
    rfl
  · cases adjusted
    rfl

theorem rewardOf_eq_zero_iff (era : U256) : rewardOf era = 0 ↔ 64 ≤ era.toNat := by
  have bound : (64 : U256).toNat = 64 := rfl
  by_cases early : era < 64
  · have small : era.toNat < 64 := early
    have positive : 0 < 100 * 10 ^ 18 / 2 ^ era.toNat := by
      refine Nat.div_pos ?_ (Nat.two_pow_pos _)
      calc 2 ^ era.toNat ≤ 2 ^ 63 := Nat.pow_le_pow_right (by decide) (Nat.le_of_lt_succ small)
        _ ≤ 100 * 10 ^ 18 := by decide
    refine iff_of_false (fun nothing => ?_) (Nat.not_le.mpr small)
    rw [rewardOf, if_pos early] at nothing
    have shifted := congrArg BitVec.toNat nothing
    rw [BitVec.toNat_ushiftRight, Nat.shiftRight_eq_div_pow] at shifted
    exact Nat.ne_of_gt positive shifted
  · rw [rewardOf, if_neg early]
    exact iff_of_true rfl (Nat.not_lt.mp early)

/-- What is left of the supply is not zero when the first check has passed. -/
theorem left_pos {left : U256} (supplied : ¬ miningSupply ≤ s.totalMiningMinted)
    (remains : subChecked overflow miningSupply s.totalMiningMinted = .ok left) : left ≠ 0 := by
  rintro rfl
  obtain ⟨_, zero⟩ := toNat_of_subChecked remains
  exact supplied (Nat.sub_eq_zero_iff_le.mp zero.symm)

theorem mine_reverts {e : Revert} (reverted : mine env s token ledger nonce = .error e) :
    Reverts env s nonce e := by
  simp only [mine] at reverted
  rcases bind_reverts.mp reverted with early | ⟨_, _, reverted⟩
  · obtain ⟨genesis, rfl⟩ := revertIf_error.mp early
    exact .genesis genesis
  rcases bind_reverts.mp reverted with early | ⟨_, supplied, reverted⟩
  · obtain ⟨exhausted, rfl⟩ := revertIf_error.mp early
    exact .exhausted exhausted
  rcases bind_reverts.mp reverted with early | ⟨_, _, reverted⟩
  · obtain ⟨full, rfl⟩ := revertIf_error.mp early
    exact .blockCap full
  rcases bind_reverts.mp reverted with early | ⟨_, _, reverted⟩
  · obtain ⟨_, rfl⟩ := revertIf_error.mp early
    exact .noWork
  rcases bind_reverts.mp reverted with early | ⟨_, _, reverted⟩
  · obtain ⟨_, rfl⟩ := revertIf_error.mp early
    exact .used
  rcases bind_reverts.mp reverted with early | ⟨mints, _, reverted⟩
  · obtain ⟨_, rfl⟩ := addChecked_error.mp early
    exact .arithmetic
  rcases bind_reverts.mp reverted with early | ⟨total, counted, reverted⟩
  · obtain ⟨_, rfl⟩ := addChecked_error.mp early
    exact .arithmetic
  rcases bind_reverts.mp reverted with early | ⟨since, _, reverted⟩
  · obtain ⟨_, rfl⟩ := subChecked_error.mp early
    exact .arithmetic
  rcases bind_reverts.mp reverted with early | ⟨⟨t, adjusted⟩, adjusts, reverted⟩
  · rcases adjustWhenDue_error early with rfl | rfl
    · exact .arithmetic
    · exact .quotient
  rw [adjustWhenDue_ok adjusts] at reverted
  rcases bind_reverts.mp reverted with early | ⟨left, remains, reverted⟩
  · obtain ⟨_, rfl⟩ := subChecked_error.mp early
    exact .arithmetic
  rcases bind_reverts.mp reverted with early | ⟨_, _, reverted⟩
  · obtain ⟨nothing, rfl⟩ := revertIf_error.mp early
    have positive := left_pos (revertIf_ok.mp supplied) remains
    refine .noReward total (toNat_of_addChecked counted) ?_
    split at nothing
    · exact absurd nothing positive
    · exact nothing
  rcases bind_reverts.mp reverted with early | ⟨minted, _, reverted⟩
  · obtain ⟨_, rfl⟩ := addChecked_error.mp early
    exact .arithmetic
  rcases bind_reverts.mp reverted with early | ⟨after, _, reverted⟩
  · obtain ⟨reason, _, rfl⟩ := mapError_reverts.mp early
    exact .transfer reason
  cases reverted

end Reverts

/-- What a call of `mine` that succeeds has done. -/
structure Mines (env : Env) (s : Storage) (token : Token Ledger) (ledger : Ledger) (nonce : U256)
    (t : Storage) (ledger' : Ledger) (left reward : U256) : Prop where
  work : B256.value (Keccak.keccak256
    (Abi.encode innerTypes (challenge env env.sender, nonce, ⟨⟩))) < s.currentDifficulty.toNat
  room : s.mintsInBlock env.blockNumber < maxMintsPerBlock
  total : t.totalMints.toNat = s.totalMints.toNat + 1
  others : ∀ b, b ≠ env.blockNumber → t.mintsInBlock b = s.mintsInBlock b
  mints : (t.mintsInBlock env.blockNumber).toNat = (s.mintsInBlock env.blockNumber).toNat + 1
  remains : s.totalMiningMinted.toNat + left.toNat = miningSupply.toNat
  rewarded : reward =
    if left < rewardOf (t.totalMints / eraMints) then left else rewardOf (t.totalMints / eraMints)
  positive : reward ≠ 0
  minted : t.totalMiningMinted.toNat = s.totalMiningMinted.toNat + reward.toNat
  transferred : token.transfer env.self env.sender reward ledger = .ok ledger'

section Mines

variable {env s token ledger nonce} {t : Storage} {ledger' : Ledger} {events : List Event}

theorem mine_ok (mined : mine env s token ledger nonce = .ok (t, ledger', events)) :
    ∃ left reward, Mines env s token ledger nonce t ledger' left reward := by
  simp only [mine] at mined
  obtain ⟨_, _, mined⟩ := bind_returns.mp mined
  obtain ⟨_, _, mined⟩ := bind_returns.mp mined
  obtain ⟨_, room, mined⟩ := bind_returns.mp mined
  obtain ⟨_, work, mined⟩ := bind_returns.mp mined
  obtain ⟨_, _, mined⟩ := bind_returns.mp mined
  obtain ⟨mints, counted, mined⟩ := bind_returns.mp mined
  obtain ⟨total, totalled, mined⟩ := bind_returns.mp mined
  obtain ⟨since, _, mined⟩ := bind_returns.mp mined
  obtain ⟨⟨u, adjusted⟩, adjusts, mined⟩ := bind_returns.mp mined
  rw [adjustWhenDue_ok adjusts] at mined
  obtain ⟨left, remains, mined⟩ := bind_returns.mp mined
  obtain ⟨_, positive, mined⟩ := bind_returns.mp mined
  obtain ⟨minted, added, mined⟩ := bind_returns.mp mined
  obtain ⟨moved, transferred, mined⟩ := bind_returns.mp mined
  cases mined
  rw [revertIf_ok, Nat.not_le] at work
  rw [revertIf_ok, BitVec.not_le] at room
  have own : Function.update s.mintsInBlock env.blockNumber mints env.blockNumber = mints :=
    Function.update_self ..
  obtain ⟨le, difference⟩ := toNat_of_subChecked remains
  exact ⟨left, _, {
    work
    room
    total := toNat_of_addChecked totalled
    others := fun b other => Function.update_of_ne other ..
    mints := (congrArg BitVec.toNat own).trans (toNat_of_addChecked counted)
    remains := by
      rw [difference]
      exact Nat.add_sub_of_le le
    rewarded := rfl
    positive := revertIf_ok.mp positive
    minted := toNat_of_addChecked added
    transferred := mapError_returns.mp transferred }⟩

/-- No block after `head` has mints. -/
def AtHead (s : Storage) (head : Nat) : Prop := ∀ b : U256, head < b.toNat → s.mintsInBlock b = 0

theorem AtHead.next {head : Nat} (standing : AtHead s head) : AtHead s (head + 1) :=
  fun b after => standing b (Nat.lt_of_succ_lt after)

theorem AtHead.mine (standing : AtHead s env.blockNumber.toNat)
    (mined : mine env s token ledger nonce = .ok (t, ledger', events)) :
    AtHead t env.blockNumber.toNat := by
  obtain ⟨left, reward, mines⟩ := mine_ok mined
  intro b after
  have other : b ≠ env.blockNumber := by
    rintro rfl
    exact Nat.lt_irrefl _ after
  rw [mines.others b other]
  exact standing b after

end Mines

/-- The contract and the block that is being made. -/
structure World (Ledger : Type) where
  storage : Storage
  ledger : Ledger
  head : U256

/-- A call that reverts leaves everything as it was. -/
inductive WorldEvent where
  | mine (sender : Address) (nonce : U256)
  | nextBlock

namespace World

variable (chainId : U256) (self : Address)

def step (w : World Ledger) : WorldEvent → Option (World Ledger)
  | .mine sender nonce =>
    match Contract.mine ⟨chainId, self, sender, w.head⟩ w.storage token w.ledger nonce with
    | .ok (storage, ledger, _) => some { w with storage, ledger }
    | .error _ => some w
  | .nextBlock =>
    if w.head.toNat + 1 < 2 ^ 256 then some { w with head := w.head + 1 } else none

def machine : Machine (World Ledger) WorldEvent := ⟨step token chainId self⟩

/-- In every run of the contract the blocks to come are empty. -/
theorem run_atHead {v w : World Ledger} {es : List WorldEvent}
    (start : AtHead v.storage v.head.toNat)
    (reached : (machine token chainId self).run v es = some w) :
    AtHead w.storage w.head.toNat := by
  have kept : ∀ (v : World Ledger) (e : WorldEvent) (w : World Ledger),
      AtHead v.storage v.head.toNat → (machine token chainId self).step v e = some w →
      AtHead w.storage w.head.toNat := by
    intro v e w standing taken
    cases e with
    | mine sender nonce =>
      simp only [machine, step] at taken
      split at taken <;> cases taken
      · next mined => exact AtHead.mine standing mined
      · exact standing
    | nextBlock =>
      simp only [machine, step] at taken
      split at taken <;> cases taken
      next fits =>
      have next : (v.head + 1).toNat = v.head.toNat + 1 := by
        rw [BitVec.toNat_add]
        exact Nat.mod_eq_of_lt fits
      rw [next]
      exact standing.next
  exact Machine.invariant_run _ kept start reached

end World

end HashMiner.Contract
