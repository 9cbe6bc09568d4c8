import HashMiner.Contract.Frozen
import HashMiner.Gpu.Launch

/-!
# Hits on chain

The kernel, the host and the contract compute one hash and compare it in the same way. A
launch over the contract's challenge and difficulty answers a nonce that the contract takes
unless something else is in the way, and misses none.
-/

namespace HashMiner.Contract.Hash

open Foundation Chain Erc20 Gpu Kernel

/-- `getChallenge(miner)` -/
def getChallenge (d : Deployment) (b : Block) (miner : Address) : B256 :=
  challenge (miningEnv d b miner) miner

/-- What a mint needs besides its work. -/
structure Open (d : Deployment) (b : Block) (s : State) (miner : Address) (nonce : U256) :
    Prop where
  free : s.entered = false
  complete : complete s = true
  miner_ne : miner ≠ zeroAddress
  supply : s.mining.totalMints.toNat < lastMint
  room : (s.mining.mintsInBlock b.number).toNat < 10
  unused : s.mining.usedProofs (proofKey (miningEnv d b miner) nonce) = false
  adjusts : Due s.mining → ¬ Stuck (miningEnv d b miner) s.mining

variable {d : Deployment} {b : Block} {s : State} {miner : Address} {nonce : U256}

theorem minable_iff : Minable d b s miner nonce ↔
    Open d b s miner nonce ∧
      workOf (miningEnv d b miner) nonce < s.mining.currentDifficulty.toNat := by
  constructor
  · rintro ⟨free, complete, miner_ne, supply, room, work, unused, adjusts⟩
    exact ⟨⟨free, complete, miner_ne, supply, room, unused, adjusts⟩, work⟩
  · rintro ⟨⟨free, complete, miner_ne, supply, room, unused, adjusts⟩, work⟩
    exact ⟨free, complete, miner_ne, supply, room, work, unused, adjusts⟩

/-- The contract hashes what the host and the kernel hash. -/
theorem workOf_eq (d : Deployment) (b : Block) (miner : Address) (nonce : U256) :
    workOf (miningEnv d b miner) nonce =
      (computeInnerHash Keccak.keccak256 (getChallenge d b miner) nonce).value := by
  rw [computeInnerHash, encode_innerWords]
  rfl

/-- The challenge of the contract is the one that the host computes for the epoch. -/
theorem getChallenge_eq {chainId epochId : U64} (chain : d.chainId = chainId.setWidth 256)
    (now : epoch (miningEnv d b miner) = epochId.setWidth 256) :
    getChallenge d b miner =
      computeChallenge Keccak.keccak256 chainId d.self miner epochId := by
  rw [computeChallenge, encode_challengeWords, getChallenge, challenge, now]
  rw [challengeWords, ← chain]
  rfl

/-- A challenge lasts for its epoch. -/
theorem getChallenge_of_epoch {b b' : Block}
    (same : epoch (miningEnv d b' miner) = epoch (miningEnv d b miner)) :
    getChallenge d b' miner = getChallenge d b miner := by
  rw [getChallenge, getChallenge, challenge, challenge, same]
  rfl

/-- The kernel accepts a nonce when the contract finds enough work in it. -/
theorem less_iff_work {rt rt' : GpuRuntime} {epochId : U32} {calls : HotSwapCalls} {b b' : Block}
    (loaded : rt.hotSwap (getChallenge d b miner) s.mining.currentDifficulty epochId calls =
      (.ok (), rt'))
    (same : epoch (miningEnv d b' miner) = epoch (miningEnv d b miner)) (nonce : U64) :
    less rt'.challengeBuf rt'.targetBuf nonce = true ↔
      workOf (miningEnv d b' miner) (nonce.setWidth 256) <
        s.mining.currentDifficulty.toNat := by
  obtain ⟨lanes, words⟩ := hotSwap_loads loaded
  rw [lanes, words, workOf_eq, getChallenge_of_epoch same]
  exact less_lanes_iff (fun _ => rfl) _ _ _

/-- A launch over what was read in an epoch of the contract, and what the contract makes of
its nonces later in that epoch while the difficulty stands. -/
theorem launch_mines {b₀ b : Block} {balance : U256} {actions : List Action} {x : Execution}
    (within : (machine d).Along (fun x a _ => Callee.Allows (PullsWithin d) x a)
      (deployed b₀ balance) actions)
    (reached : (machine d).run (deployed b₀ balance) actions = some x)
    (same : epoch (miningEnv d x.env miner) = epoch (miningEnv d b miner))
    {rt rt' rt'' : GpuRuntime} {epochId : U32} {swap : HotSwapCalls}
    (loaded : rt.hotSwap (getChallenge d b miner) x.state.mining.currentDifficulty epochId swap =
      (.ok (), rt'))
    {nonceStart batchSize : U64} {blockSize : U32} {calls : LaunchCalls} {result : Option U64}
    (answered : rt'.launchMine nonceStart batchSize blockSize calls = some (.ok result, rt'')) :
    (∀ nonce, result = some nonce →
      ((∃ o, start d x.env x.state miner (.mine (nonce.setWidth 256)) = .ok o) ↔
        Open d x.env x.state miner (nonce.setWidth 256))) ∧
    (result = none → ∀ g < (gridCount batchSize blockSize).toNat * blockSize.toNat,
      ¬ ∃ o, start d x.env x.state miner
        (.mine ((nonceStart + BitVec.ofNat 64 g).setWidth 256)) = .ok o) := by
  have holds : Callee.Holds (Reserved d) x.env x.state x.frames :=
    keeps_reserved.run (x := deployed b₀ balance) (reserved_initial b₀ balance) within reached
  have mines (nonce : U64) : (∃ o, start d x.env x.state miner
      (.mine (nonce.setWidth 256)) = .ok o) ↔
      Minable d x.env x.state miner (nonce.setWidth 256) := holds.here.mine_iff _
  have work := less_iff_work loaded same
  constructor
  · rintro nonce rfl
    obtain ⟨_, _, _, accepted⟩ := launchMine_some answered
    rw [mines, minable_iff]
    exact and_iff_left ((work nonce).mp accepted)
  · rintro rfl g inside
    have rejected := (launchMine_none_iff answered).mp rfl g inside
    rw [mines, minable_iff]
    rintro ⟨_, enough⟩
    rw [(work _).mpr enough] at rejected
    cases rejected

theorem run_oneThread_rejected {l : Launch} {result : U64} (one : l.threads = 1)
    (rejected : l.accepts 0 = false) :
    ∃ grid, (Grid.machine l).run (.start 0 result) [0, 0] = some grid ∧ grid.Complete l ∧
      grid.found = 0 := by
  refine ⟨⟨0, result, Function.update (fun _ => .entry) 0 .exited⟩, ?_, ?_, rfl⟩
  · simp [Machine.run, Grid.machine, Grid.step, Grid.start, Grid.move, one, rejected]
  · intro g inside
    obtain rfl : g = 0 := by omega
    rfl

theorem getChallenge_live (timestamp : U256) :
    getChallenge live ⟨25070700, timestamp⟩ layoutMiner = layoutChallenge := by
  have now : epoch (miningEnv live ⟨25070700, timestamp⟩ layoutMiner) =
      (250707 : U64).setWidth 256 := by
    change (25070700 : U256) / 100 = _
    decide
  rw [getChallenge_eq (show live.chainId = chainId.setWidth 256 by decide) now]
  exact computeChallenge_layoutMiner

/-- The nonce of the layout test is no hit at the difficulty that the pool opens with. -/
theorem less_opening :
    less (challengeLanes layoutChallenge) (targetLanes (maxUint256 >>> 32)) 0x4243 = false := by
  have value := value_layoutChallenge
  have bound : (maxUint256 >>> 32).toNat < 2 ^ 240 := by decide
  have width : (0x4243 : U64).setWidth 256 = (0x4243 : U256) := by decide
  rw [← Bool.not_eq_true, less_lanes_iff (fun _ => rfl), width]
  intro small
  have none := Nat.div_eq_of_lt (Nat.lt_trans small bound)
  cases value.symm.trans none

theorem run_oneSaleSettled_opening :
    ((machine live).run (deployed ⟨25070700, 1800⟩ 0) oneSaleSettled).map
      (fun x => (x.env.number, x.state.mining.currentDifficulty)) =
    some ((25070700 : U256), (maxUint256 >>> 32 : U256)) := by
  decide +kernel

theorem launch_mines_oneSaleSettled :
    ∃ x, (machine live).run (deployed ⟨25070700, 1800⟩ 0) oneSaleSettled = some x ∧
      ∀ g < (gridCount 1 1).toNat * (1 : U32).toNat,
        ¬ ∃ o, start live x.env x.state layoutMiner
          (.mine (((0x4243 : U64) + BitVec.ofNat 64 g).setWidth 256)) = .ok o := by
  obtain ⟨⟨⟨number, timestamp⟩, state, frames⟩, reached, shape⟩ :=
    Option.map_eq_some_iff.mp run_oneSaleSettled_opening
  obtain ⟨number_eq, difficulty⟩ := Prod.mk.injEq .. ▸ shape
  dsimp only at number_eq difficulty
  subst number_eq
  refine ⟨_, reached, ?_⟩
  let rt : GpuRuntime :=
    ⟨challengeLanes layoutChallenge, targetLanes (maxUint256 >>> 32), 0, 0, 0⟩
  have loaded : GpuRuntime.init.hotSwap (getChallenge live ⟨25070700, timestamp⟩ layoutMiner)
      state.mining.currentDifficulty 0 ⟨.done, .done, none⟩ = (.ok (), rt) := by
    rw [difficulty, getChallenge_live]
    rfl
  have one : (rt.launch 0x4243 1 1).threads = 1 := by
    simp [Launch.threads, GpuRuntime.launch, gridCount]
  have rejected : (rt.launch 0x4243 1 1).accepts 0 = false := by
    rw [Launch.accepts, launch_nonce]
    exact less_opening
  obtain ⟨grid, ran, complete, found⟩ := run_oneThread_rejected one rejected
  have answered := launchMine_of_run (by decide) ran complete
  rw [found] at answered
  refine (launch_mines (Machine.along_of_forall (fun a member _ _ => ?_) _) reached rfl loaded
    answered).2 rfl
  simp only [oneSaleSettled, oneSaleOpened, oneSale, List.cons_append, List.nil_append,
    List.mem_cons, List.not_mem_nil, or_false] at member
  rcases member with rfl | rfl | rfl | rfl | rfl | rfl
  · intro _ _ same
    cases congrArg Prod.snd same
  · intro _ _ same
    cases congrArg Prod.snd same
  all_goals trivial

end HashMiner.Contract.Hash
