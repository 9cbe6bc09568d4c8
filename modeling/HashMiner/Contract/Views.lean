import HashMiner.Contract.Reserves

/-!
# What the contract shows

The getters return in every state that is reached, and what they say of the next mint
holds of it: its difficulty, its epoch and, but for the turn of an era, its reward.
-/

namespace HashMiner.Contract.Hash

open Foundation Chain Erc20

def epochBlocksLeft (env : Env) : Except Revert U256 :=
  subChecked overflow epochBlocks (env.blockNumber % epochBlocks)

def currentReward (s : Storage) : U256 := rewardOf (s.totalMints / eraMints)

structure GenesisState where
  minted : U256
  remaining : U256
  ethRaised : U256
  complete : Bool

def genesisState (s : State) : Except Failure GenesisState := do
  let remaining ← subChecked Failure.overflow genesisCap s.genesisMinted
  return ⟨s.genesisMinted, remaining, s.genesisEthRaised, complete s⟩

variable {d : Deployment} {b b' : Block} {s : State} {reader sender : Address} {nonce : U256}

/-- The reward is halved by the mint that begins an era, not after it. -/
theorem reward_succ (n : Nat) :
    reward (n + 1) = if (n + 1) % 100000 = 0 then reward n / 2 else reward n := by
  unfold reward
  split
  · next turn =>
    have next : (n + 1) / 100000 = n / 100000 + 1 := by omega
    rw [next, Nat.div_div_eq_div_mul, ← Nat.pow_succ]
  · next within =>
    have same : (n + 1) / 100000 = n / 100000 := by omega
    rw [same]

theorem toNat_blocksLeft (b : U256) :
    (epochBlocks - b % epochBlocks).toNat = 100 - b.toNat % 100 := by
  have period : epochBlocks.toNat = 100 := rfl
  have within : b % epochBlocks ≤ epochBlocks := by
    rw [BitVec.le_def, BitVec.toNat_umod, period]
    omega
  rw [BitVec.toNat_sub_of_le within, BitVec.toNat_umod, period]

/-- An epoch ends with the blocks that are said to be left of it. -/
theorem epoch_eq_iff (later : b.number.toNat ≤ b'.number.toNat) :
    epoch (miningEnv d b' reader) = epoch (miningEnv d b reader) ↔
      b'.number.toNat < b.number.toNat + (epochBlocks - b.number % epochBlocks).toNat := by
  have period : epochBlocks.toNat = 100 := rfl
  rw [toNat_blocksLeft, ← BitVec.toNat_inj]
  simp only [epoch, miningEnv, BitVec.toNat_udiv, period]
  omega

theorem genesisState_ok {ps : List Pending} (supplied : Supplied s ps) :
    genesisState s = .ok ⟨s.genesisMinted, genesisCap - s.genesisMinted, s.genesisEthRaised,
      complete s⟩ := by
  rw [genesisState, subChecked_of_le supplied.minted_le]
  rfl

/-- The getters agree with the supplies, with the epochs of the blocks to come and with what
a mint in the same block is measured by and pays. -/
theorem run_views {balance : U256} {actions : List Action} {x : Execution}
    (reached : (machine d).run (deployed b balance) actions = some x) (reader : Address) :
    ∃ v g, miningState (miningEnv d x.env reader) x.state.mining = .ok v ∧
      epochBlocksLeft (miningEnv d x.env reader) = .ok v.epochBlocksLeft_ ∧
      currentReward x.state.mining = v.reward ∧
      genesisState x.state = .ok g ∧
      v.minted.toNat + v.remaining.toNat = miningSupply.toNat ∧
      g.minted.toNat + g.remaining.toNat = genesisCap.toNat ∧
      g.ethRaised.toNat * 10 ^ 5 = g.minted.toNat ∧
      (∀ b' : Block, x.env.number.toNat ≤ b'.number.toNat →
        (epoch (miningEnv d b' reader) = v.epoch ↔
          b'.number.toNat < x.env.number.toNat + v.epochBlocksLeft_.toNat)) ∧
      ∀ sender nonce o, start d x.env x.state sender (.mine nonce) = .ok o →
        workOf (miningEnv d x.env sender) nonce < v.difficulty.toNat ∧
        ∃ pays : U256, Transfers x.state.ledger d.self sender pays o.state.ledger ∧
          (pays.toNat = if (x.state.mining.totalMints.toNat + 1) % 100000 = 0 then
            v.reward.toNat / 2 else v.reward.toNat) ∧
          o.state.mining.totalMiningMinted.toNat = v.minted.toNat + pays.toNat := by
  have supplied : Supplied x.state (Callee.pendings x.frames) := (reachable_supplied reached).here
  have counts := (reachable_replayed reached).here.counts
  obtain ⟨units, sold⟩ := supplied.sold
  have mined_le : x.state.mining.totalMiningMinted.toNat ≤ miningSupply.toNat := by
    rw [counts.emission, ← emitted_lastMint]
    exact emitted_mono counts.within
  have sold_le : x.state.genesisMinted.toNat ≤ genesisCap.toNat := supplied.minted_le
  refine ⟨_, _, miningState_ok _ _ mined_le, ?_, rfl, genesisState_ok supplied, ?_, ?_, ?_, ?_,
    ?_⟩
  · refine subChecked_of_le ?_
    rw [BitVec.toNat_umod]
    exact Nat.le_of_lt (Nat.mod_lt _ (by decide))
  · rw [BitVec.toNat_sub_of_le mined_le]
    exact Nat.add_sub_cancel' mined_le
  · rw [BitVec.toNat_sub_of_le sold_le]
    exact Nat.add_sub_cancel' sold_le
  · rw [sold.raised, sold.minted, Nat.mul_assoc, ← Nat.pow_add]
  · exact fun b' later => epoch_eq_iff later
  · intro sender nonce o started
    obtain ⟨_, accepts, events, effect⟩ := accepts_of_start counts started
    have shown : (rewardOf (x.state.mining.totalMints / eraMints)).toNat =
        reward x.state.mining.totalMints.toNat := rewardOf_eq counts.within
    have small : reward (x.state.mining.totalMints.toNat + 1) < 2 ^ 256 :=
      Nat.lt_of_le_of_lt (Nat.div_le_self _ _) (by decide)
    refine ⟨accepts.work, BitVec.ofNat 256 (reward (x.state.mining.totalMints.toNat + 1)),
      _transfer_ok.mp (mapError_returns.mp effect.paid), ?_, ?_⟩
    · rw [BitVec.toNat_ofNat, Nat.mod_eq_of_lt small, reward_succ, shown]
    · rw [effect.minted, effect.total, emitted_succ, ← counts.emission, BitVec.toNat_ofNat,
        Nat.mod_eq_of_lt small]

/-- The first mint pays what is shown before it. -/
theorem run_views_oneSalePulled :
    ∃ x v o, (machine live).run (deployed ⟨25070700, 1800⟩ 0) oneSalePulled = some x ∧
      miningState (miningEnv live x.env Chain.layoutMiner) x.state.mining = .ok v ∧
      v.minted.toNat + v.remaining.toNat = miningSupply.toNat ∧
      start live x.env x.state Chain.layoutMiner (.mine openingNonce) = .ok o ∧
      Transfers x.state.ledger live.self Chain.layoutMiner (BitVec.ofNat 256 (100 * 10 ^ 18))
        o.state.ledger := by
  obtain ⟨x, reached, none, _, o, started⟩ := start_oneSalePulled
  obtain ⟨v, _, shown, _, same, _, supply, _, _, _, mints⟩ := run_views reached Chain.layoutMiner
  obtain ⟨_, pays, transfers, value, _⟩ := mints _ _ _ started
  have reward : v.reward.toNat = 100 * 10 ^ 18 := by
    rw [← same, currentReward, none]
    decide
  have paid : pays = BitVec.ofNat 256 (100 * 10 ^ 18) := by
    apply BitVec.eq_of_toNat_eq
    rw [value, none, reward]
    decide
  exact ⟨x, v, o, reached, shown, supply, started, paid ▸ transfers⟩

end HashMiner.Contract.Hash
