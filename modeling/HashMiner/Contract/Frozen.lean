import HashMiner.Contract.Reserves

/-!
# When mining stops for good

The arithmetic of an adjustment is checked. A mint that is due to adjust a difficulty that is
too high reverts, and nothing else can change that difficulty.
-/

namespace HashMiner.Contract.Hash

open Foundation Erc20

/-- The next mint has to adjust the difficulty and cannot. -/
structure Frozen (d : Deployment) (m : Storage) (b : Block) (s : State) (ps : List Pending) :
    Prop where
  mining : s.mining = m
  complete : m.genesisComplete = true
  set : ps.any Pending.prepares = false
  counts : Counts m b.number
  due : Due m
  stuck : Stuck (miningEnv d b d.controller) m

variable {d : Deployment} {b : Block} {who : Option (Address × Call)} {s t : State} {m : Storage}
variable {before after ps : List Pending}

theorem Frozen.rests {qs : List Pending} (holds : Frozen d m b s ps) (mining : t.mining = s.mining)
    (same : qs.any Pending.prepares = ps.any Pending.prepares) : Frozen d m b t qs :=
  ⟨mining.trans holds.mining, holds.complete, same.trans holds.set, holds.counts, holds.due,
    holds.stuck⟩

theorem Frozen.not_mine {sender : Address} {nonce : U256} {mining : Storage} {ledger : Ledger}
    {events : List Contract.Event} (holds : Frozen d m b s ps)
    (mined : Contract.mine (miningEnv d b sender) s.mining Erc20.token s.ledger nonce =
      .ok (mining, ledger, events)) : False := by
  rw [holds.mining] at mined
  exact (accepts_of_mine holds.counts mined).1.adjusts holds.due holds.stuck

theorem Frozen.moves (moves : Moves d b who s before t after)
    (holds : Frozen d m b s (before ++ ps)) : Frozen d m b t (after ++ ps) := by
  have done : Hash.complete s = true := by
    rw [Hash.complete, holds.mining]
    exact holds.complete
  cases moves with
  | receive s sender value => exact holds.rests rfl rfl
  | token s sender call ledger => exact holds.rests rfl rfl
  | sells s sold sender units value cost hashAmount ledger sells =>
    cases done.symm.trans sells.incomplete
  | refunds s sold sender units value cost hashAmount sells =>
    cases done.symm.trans sells.incomplete
  | refunded s buyer cost hashAmount ledger => exact holds.rests rfl rfl
  | opens s t sender call sqrtPriceX96 opens => cases done.symm.trans opens.incomplete
  | initialized s eth hashLP sqrtPriceX96 liquidity ledger => cases holds.set
  | approved s eth hashLP sqrtPriceX96 liquidity => exact holds.rests rfl rfl
  | provides s eth hashLP sqrtPriceX96 liquidity => exact holds.rests rfl rfl
  | seeded s eth hashLP sqrtPriceX96 liquidity => exact holds.rests rfl rfl
  | mine s sender nonce mining ledger events free mined => exact (holds.not_mine mined).elim
  | claims s => exact holds.rests rfl rfl
  | claimed s amount => exact holds.rests rfl rfl
  | rests s sender call => exact holds
  | takes s origin params fee => exact holds.rests rfl rfl
  | took s origin fee => exact holds.rests rfl rfl
  | takesAfter s origin params delta fee => exact holds.rests rfl rfl
  | tookAfter s origin isBuy fee => exact holds.rests rfl rfl

/-- More blocks do not help. -/
theorem Frozen.advance {b' : Block} (holds : Frozen d m b s [])
    (next : b'.number.toNat = b.number.toNat + 1) : Frozen d m b' s [] := by
  have fits : b.number.toNat + 1 < 2 ^ 256 := by
    rw [← next]
    exact b'.number.isLt
  have same : b'.number = b.number + 1 := by
    apply BitVec.eq_of_toNat_eq
    rw [next, BitVec.toNat_add]
    exact (Nat.mod_eq_of_lt fits).symm
  refine ⟨holds.mining, holds.complete, rfl, ?_, holds.due, ?_⟩
  · rw [same]
    exact holds.counts.next fits
  · refine holds.stuck.imp_right fun large => Nat.le_trans large ?_
    refine Nat.div_le_div_right (Nat.mul_le_mul_left _ ?_)
    simp only [sinceBlock, miningEnv, next]
    omega

theorem keeps_frozen (m : Storage) : (callee d).Keeps (Frozen d m) (fun _ _ _ => True) :=
  keeps_of_moves (fun holds next _ => holds.advance next) fun moves _ => Frozen.moves moves

/-- A mint that is due and stuck is never made, whatever happens. -/
theorem run_frozen {x y : Execution} {actions : List Action}
    (counts : Counts x.state.mining x.env.number) (idle : x.frames = [])
    (done : complete x.state = true) (due : Due x.state.mining)
    (stuck : Stuck (miningEnv d x.env d.controller) x.state.mining)
    (reached : (machine d).run x actions = some y) :
    y.state.mining = x.state.mining ∧
      ∀ sender nonce, ¬ ∃ o, start d y.env y.state sender (.mine nonce) = .ok o := by
  have frozen : Callee.Holds (Frozen d x.state.mining) x.env x.state x.frames := by
    rw [idle]
    exact ⟨rfl, done, rfl, counts, due, stuck⟩
  have holds : Callee.Holds (Frozen d x.state.mining) y.env y.state y.frames :=
    (keeps_frozen x.state.mining).run_all frozen reached
  refine ⟨holds.here.mining, ?_⟩
  rintro sender nonce ⟨o, started⟩
  obtain ⟨s₁, enters, started⟩ := bind_returns.mp started
  obtain ⟨free, rfl⟩ := enter_ok enters
  obtain ⟨⟨mining, ledger, events⟩, mined, _⟩ := bind_returns.mp started
  exact holds.here.not_mine (mapError_returns.mp mined)

/-- The storage before the 2016th mint, with a difficulty that does not fit four times. -/
def highStorage : Storage where
  genesisComplete := true
  totalMints := 2015
  totalMiningMinted := BitVec.ofNat 256 (2015 * (100 * 10 ^ 18))
  currentDifficulty := BitVec.ofNat 256 (2 ^ 254)
  lastAdjustmentMint := 0
  lastAdjustmentBlock := 0
  mintsInBlock := fun _ => 0
  usedProofs := fun _ => false

theorem counts_highStorage : Counts highStorage 202 where
  emission := by
    have eras := emitted_eras 2015 0 2016 rfl (by decide)
    have minted : highStorage.totalMiningMinted.toNat = 2015 * (100 * 10 ^ 18) := by decide
    have mints : highStorage.totalMints.toNat = 2015 := rfl
    rw [minted, mints]
    generalize emitted 2015 = total at eras ⊢
    simp only [Finset.range_zero, Finset.sum_empty] at eras
    omega
  within := by decide
  room := fun _ => Nat.zero_le _
  ahead := fun _ _ => rfl
  adjusted := by decide
  recent := by decide
  ordered := by decide
  pace := by decide

def highExecution : Execution := ⟨⟨202, 0⟩, { State.initial 0 with mining := highStorage }, []⟩

theorem run_frozen_highStorage :
    ∃ y, (machine sample).run highExecution [.advance ⟨203, 0⟩] = some y ∧
      ∀ sender nonce, ¬ ∃ o, start sample y.env y.state sender (.mine nonce) = .ok o := by
  have due : Due highStorage := by decide
  have high : 2 ^ 256 ≤ highStorage.currentDifficulty.toNat * 4 := by decide
  have reached : (machine sample).run highExecution [.advance ⟨203, 0⟩] = some _ := rfl
  exact ⟨_, reached, (run_frozen counts_highStorage rfl rfl due (.inl high) reached).2⟩

/-! ## How long that takes -/

theorem foldl_retarget_le (takens : List Nat) (old : Nat) (positive : 0 < old) :
    takens.foldl retarget old ≤ 4 ^ takens.length * old ∧ 0 < takens.foldl retarget old := by
  induction takens generalizing old with
  | nil => exact ⟨Nat.le_of_eq (Nat.one_mul old).symm, positive⟩
  | cons taken takens ih =>
    have most : retarget old taken ≤ 4 * old := (retarget_bounds positive).2.1
    obtain ⟨le, some⟩ := ih (retarget old taken) (retarget_bounds positive).2.2
    refine ⟨Nat.le_trans le ?_, some⟩
    calc 4 ^ takens.length * retarget old taken
        ≤ 4 ^ takens.length * (4 * old) := Nat.mul_le_mul_left _ most
      _ = 4 ^ (taken :: takens).length * old := by
          rw [List.length_cons, Nat.pow_succ, Nat.mul_assoc]

/-- An adjustment does not get stuck before there have been many of them, or very many blocks
since the last. -/
theorem run_not_stuck {balance : U256} {actions : List Action} {x : Execution}
    (reached : (machine d).run (deployed b balance) actions = some x)
    (ready : prepared x.state (Callee.pendings x.frames) = true)
    (few : 4 ^ (x.state.mining.totalMints.toNat / 2016 + 1) ≤ 2 ^ 32)
    (short : 4 ^ (x.state.mining.totalMints.toNat / 2016) *
      (x.env.number.toNat - x.state.mining.lastAdjustmentBlock.toNat) ≤ 10080 * 2 ^ 32) :
    ¬ Stuck (miningEnv d x.env d.controller) x.state.mining := by
  obtain ⟨_, counts, ⟨proofs, told⟩, _, retargeted⟩ := (reachable_replayed reached).here
  have bound := (foldl_retarget_le ((miningEvents x.state).filterMap Event.taken?)
    openingDifficulty (by decide)).1
  rw [← retargeted ready, told.adjusted counts] at bound
  generalize x.state.mining.totalMints.toNat / 2016 = adjustments at few short bound
  rintro (large | large)
  · have small : x.state.mining.currentDifficulty.toNat * 4 < 2 ^ 256 :=
      calc x.state.mining.currentDifficulty.toNat * 4
          ≤ 4 ^ adjustments * openingDifficulty * 4 := Nat.mul_le_mul_right _ bound
        _ = 4 ^ (adjustments + 1) * openingDifficulty := by rw [Nat.pow_succ, Nat.mul_right_comm]
        _ ≤ 2 ^ 32 * openingDifficulty := Nat.mul_le_mul_right _ few
        _ < 2 ^ 256 := by decide
    exact Nat.not_le.mpr small large
  · have small : x.state.mining.currentDifficulty.toNat *
        (x.env.number.toNat - x.state.mining.lastAdjustmentBlock.toNat) < 2 ^ 256 * 10080 :=
      calc x.state.mining.currentDifficulty.toNat *
            (x.env.number.toNat - x.state.mining.lastAdjustmentBlock.toNat)
          ≤ 4 ^ adjustments * openingDifficulty *
              (x.env.number.toNat - x.state.mining.lastAdjustmentBlock.toNat) :=
            Nat.mul_le_mul_right _ bound
        _ = 4 ^ adjustments * (x.env.number.toNat - x.state.mining.lastAdjustmentBlock.toNat) *
              openingDifficulty := Nat.mul_right_comm ..
        _ ≤ 10080 * 2 ^ 32 * openingDifficulty := Nat.mul_le_mul_right _ short
        _ < 2 ^ 256 * 10080 := by decide
    exact Nat.not_le.mpr ((Nat.div_lt_iff_lt_mul (by decide)).mpr small) large

theorem run_oneSaleSettled : ((machine sample).run (deployed ⟨1, 1800⟩ 0) oneSaleSettled).map
    (fun x => (prepared x.state (Callee.pendings x.frames), x.state.mining.totalMints,
      x.env.number)) = some (true, 0, 1) := by
  decide +kernel

theorem run_not_stuck_oneSaleSettled :
    ∃ x, (machine sample).run (deployed ⟨1, 1800⟩ 0) oneSaleSettled = some x ∧
      ¬ Stuck (miningEnv sample x.env sample.controller) x.state.mining := by
  obtain ⟨x, reached, shape⟩ := Option.map_eq_some_iff.mp run_oneSaleSettled
  simp only [Prod.mk.injEq] at shape
  obtain ⟨ready, mints, number⟩ := shape
  refine ⟨x, reached, run_not_stuck reached ready ?_ ?_⟩
  · rw [mints]
    decide
  · rw [mints, number]
    exact Nat.le_trans (Nat.mul_le_mul_left _ (Nat.sub_le _ _)) (by decide)

end HashMiner.Contract.Hash
