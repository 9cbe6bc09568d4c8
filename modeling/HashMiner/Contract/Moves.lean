import HashMiner.Contract.Hash

/-!
# What a call can do

One relation says what the parts of all calls do to the state and to what is pending.
-/

namespace HashMiner.Contract.Hash

open Foundation Erc20

variable {d : Deployment} {b : Block} {s t : State} {sender : Address}

/-- The part of `mintGenesis` up to where the excess is paid back. -/
structure Sells (s : State) (units value cost hashAmount : U256) (sold : State) : Prop where
  free : s.entered = false
  incomplete : complete s = false
  some : 0 < units.toNat
  few : units.toNat ≤ 5
  costs : cost.toNat = units.toNat * 10 ^ 16
  amounts : hashAmount.toNat = units.toNat * 10 ^ 21
  pays : cost.toNat ≤ value.toNat
  received : s.balance.toNat + value.toNat < 2 ^ 256
  room : s.genesisMinted.toNat + hashAmount.toNat ≤ 1050000 * 10 ^ 18
  raised : s.genesisEthRaised.toNat + cost.toNat < 2 ^ 256
  result : sold = { s with
    entered := true
    balance := s.balance + value
    genesisMinted := s.genesisMinted + hashAmount
    genesisEthRaised := s.genesisEthRaised + cost }

/-- The part of `_seedBody` up to where the pool is initialized. -/
structure Opens (d : Deployment) (s : State) (sqrtPriceX96 : U160) (t : State) : Prop where
  free : s.entered = false
  incomplete : complete s = false
  some : s.genesisMinted ≠ 0
  fits : s.genesisMinted.toNat + miningSupply.toNat < 2 ^ 256
  priced : sqrtPriceX96FromAmounts s.genesisEthRaised s.genesisMinted = .ok sqrtPriceX96
  result : ∃ ledger, _mint s.ledger d.self (s.genesisMinted + miningSupply) = .ok ledger ∧
    t = { s with
      entered := true
      mining := { s.mining with genesisComplete := true }
      ledger }

/-- A call or what has been pending, and what it does up to its end or to what is pending
then. -/
inductive Moves (d : Deployment) (b : Block) :
    Option (Address × Call) → State → List Pending → State → List Pending → Prop
  | receive (s : State) (sender : Address) (value : U256) :
    s.balance.toNat + value.toNat < 2 ^ 256 →
    Moves d b (some (sender, .receive value)) s [] { s with balance := s.balance + value } []
  | token (s : State) (sender : Address) (call : Erc20.Call) (ledger : Ledger) :
    Erc20.call s.ledger sender call = .ok ledger →
    Moves d b (some (sender, .token call)) s [] { s with ledger } []
  | sells (s sold : State) (sender : Address) (units value cost hashAmount : U256)
    (ledger : Ledger) : Sells s units value cost hashAmount sold → value = cost →
    _mint sold.ledger sender hashAmount = .ok ledger →
    Moves d b (some (sender, .mintGenesis units value)) s []
      (leave (emit { sold with ledger } (.genesisMint sender cost hashAmount))) []
  | refunds (s sold : State) (sender : Address) (units value cost hashAmount : U256) :
    Sells s units value cost hashAmount sold →
    Moves d b (some (sender, .mintGenesis units value)) s []
      { sold with balance := sold.balance - (value - cost) } [.refund sender cost hashAmount]
  | refunded (s : State) (buyer : Address) (cost hashAmount : U256) (ledger : Ledger) :
    _mint s.ledger buyer hashAmount = .ok ledger →
    Moves d b none s [.refund buyer cost hashAmount]
      (leave (emit { s with ledger } (.genesisMint buyer cost hashAmount))) []
  | opens (s t : State) (sender : Address) (call : Call) (sqrtPriceX96 : U160) :
    Opens d s sqrtPriceX96 t →
    Moves d b (some (sender, call)) s [] t
      [.initializePool s.genesisEthRaised s.genesisMinted sqrtPriceX96]
  | initialized (s : State) (eth hashLP : U256) (sqrtPriceX96 : U160) (liquidity : U128)
    (ledger : Ledger) :
    _approve s.ledger d.self d.permit2 maxUint256 true = .ok ledger →
    Moves d b none s [.initializePool eth hashLP sqrtPriceX96]
      { s with
        mining := { s.mining with
          currentDifficulty := maxUint256 >>> 32
          lastAdjustmentBlock := b.number
          lastAdjustmentMint := 0 }
        ledger }
      [.approvePositionManager eth hashLP sqrtPriceX96 liquidity]
  | approved (s : State) (eth hashLP : U256) (sqrtPriceX96 : U160) (liquidity : U128) :
    Moves d b none s [.approvePositionManager eth hashLP sqrtPriceX96 liquidity] s
      [.approvePoolManager eth hashLP sqrtPriceX96 liquidity]
  | provides (s : State) (eth hashLP : U256) (sqrtPriceX96 : U160) (liquidity : U128) :
    eth.toNat ≤ s.balance.toNat →
    Moves d b none s [.approvePoolManager eth hashLP sqrtPriceX96 liquidity]
      { s with balance := s.balance - eth } [.modifyLiquidities eth hashLP sqrtPriceX96 liquidity]
  | seeded (s : State) (eth hashLP : U256) (sqrtPriceX96 : U160) (liquidity : U128) :
    Moves d b none s [.modifyLiquidities eth hashLP sqrtPriceX96 liquidity]
      (leave (emit (emit s (.liquidityAdded eth hashLP liquidity))
        (.poolSeeded eth hashLP sqrtPriceX96))) []
  | mine (s : State) (sender : Address) (nonce : U256) (mining : Storage) (ledger : Ledger)
    (events : List Contract.Event) : s.entered = false →
    Contract.mine ⟨d.chainId, d.self, sender, b.number⟩ s.mining Erc20.token s.ledger nonce =
      .ok (mining, ledger, events) →
    Moves d b (some (sender, .mine nonce)) s []
      { s with mining, ledger, log := s.log ++ events.map .mining } []
  | claims (s : State) : s.entered = false → s.balance ≠ 0 →
    Moves d b (some (d.controller, .claimFees)) s []
      { s with entered := true, balance := s.balance - s.balance } [.claim s.balance]
  | claimed (s : State) (amount : U256) :
    Moves d b none s [.claim amount] (leave (emit s (.feesClaimed d.controller amount))) []
  | rests (s : State) (sender : Address) (call : Call) : Moves d b (some (sender, call)) s [] s []
  | takes (s : State) (origin : Address) (params : SwapParams) (fee : U256) :
    s.entered = false → complete s = true → feeBeforeSwap params = .ok fee →
    Moves d b (some (d.poolManager, .beforeSwap origin params)) s [] { s with entered := true }
      [.takeBeforeSwap origin fee]
  | took (s : State) (origin : Address) (fee : U256) :
    Moves d b none s [.takeBeforeSwap origin fee]
      (leave (emit s (.feeCollected origin true fee))) []
  | takesAfter (s : State) (origin : Address) (params : SwapParams) (delta : BitVec 256)
    (fee : U256) : feeAfterSwap params (amount0 delta) = .ok fee →
    Moves d b (some (d.poolManager, .afterSwap origin params delta)) s [] s
      [.takeAfterSwap origin params.zeroForOne fee]
  | tookAfter (s : State) (origin : Address) (isBuy : Bool) (fee : U256) :
    Moves d b none s [.takeAfterSwap origin isBuy fee]
      (emit s (.feeCollected origin isBuy fee)) []

/-! ## Every part is one of these -/

theorem paid_ok {value : U256} (receives : paid s value = .ok t) :
    s.balance.toNat + value.toNat < 2 ^ 256 ∧ t = { s with balance := s.balance + value } := by
  obtain ⟨balance, added, receives⟩ := bind_returns.mp receives
  cases receives
  unfold addChecked at added
  split at added <;> cases added
  next fits => exact ⟨Nat.not_le.mp fits, rfl⟩

theorem send_ok {failure : Failure} {value : U256} (sends : send s failure value = .ok t) :
    value.toNat ≤ s.balance.toNat ∧ t = { s with balance := s.balance - value } := by
  obtain ⟨balance, subtracted, sends⟩ := bind_returns.mp sends
  cases sends
  obtain ⟨le, _⟩ := toNat_of_subChecked subtracted
  cases subtracted.symm.trans (subChecked_of_le le)
  exact ⟨le, rfl⟩

theorem enter_ok (enters : enter s = .ok t) :
    s.entered = false ∧ t = { s with entered := true } := by
  obtain ⟨_, free, enters⟩ := bind_returns.mp enters
  cases enters
  exact ⟨Bool.eq_false_of_not_eq_true (revertIf_ok.mp free), rfl⟩

theorem enter_of_free (free : s.entered = false) : enter s = .ok { s with entered := true } := by
  rw [enter, revertIf_of_not (by rw [free]; decide)]
  rfl

theorem mulChecked_units {units unit amount : U256}
    (multiplied : mulChecked Failure.overflow units unit = .ok amount) :
    amount.toNat = units.toNat * unit.toNat := by
  unfold mulChecked at multiplied
  split at multiplied <;> cases multiplied
  next fits => rw [BitVec.toNat_mul, Nat.mod_eq_of_lt (Nat.not_le.mp fits)]

theorem addChecked_ok {x y sum : U256} (added : addChecked Failure.overflow x y = .ok sum) :
    x.toNat + y.toNat < 2 ^ 256 ∧ sum = x + y := by
  unfold addChecked at added
  split at added <;> cases added
  next fits => exact ⟨Nat.not_le.mp fits, rfl⟩

theorem mintedGenesis_ok {cost hashAmount : U256} {o : Outcome State Pending Returned}
    (ends : mintedGenesis s sender cost hashAmount = .ok o) :
    ∃ ledger, _mint s.ledger sender hashAmount = .ok ledger ∧
      o = .done (leave (emit { s with ledger } (.genesisMint sender cost hashAmount)))
        .nothing := by
  obtain ⟨ledger, minted, ends⟩ := bind_returns.mp ends
  cases ends
  exact ⟨ledger, mapError_returns.mp minted, rfl⟩

theorem moves_mintGenesis {units value : U256} {o : Outcome State Pending Returned}
    (started : mintGenesis s sender units value = .ok o) :
    Moves d b (some (sender, .mintGenesis units value)) s [] o.state o.pendings := by
  obtain ⟨s₁, receives, started⟩ := bind_returns.mp started
  obtain ⟨received, rfl⟩ := paid_ok receives
  obtain ⟨s₂, enters, started⟩ := bind_returns.mp started
  obtain ⟨free, rfl⟩ := enter_ok enters
  obtain ⟨_, incomplete, started⟩ := bind_returns.mp started
  obtain ⟨_, few, started⟩ := bind_returns.mp started
  obtain ⟨hashAmount, amounts, started⟩ := bind_returns.mp started
  obtain ⟨cost, costs, started⟩ := bind_returns.mp started
  obtain ⟨_, pays, started⟩ := bind_returns.mp started
  obtain ⟨minted, minting, started⟩ := bind_returns.mp started
  obtain ⟨_, room, started⟩ := bind_returns.mp started
  obtain ⟨raised, raising, started⟩ := bind_returns.mp started
  obtain ⟨excess, exceeds, started⟩ := bind_returns.mp started
  obtain ⟨fits, rfl⟩ := addChecked_ok minting
  obtain ⟨raises, rfl⟩ := addChecked_ok raising
  obtain ⟨le, _⟩ := toNat_of_subChecked exceeds
  cases exceeds.symm.trans (subChecked_of_le le)
  have cap : genesisCap.toNat = 1050000 * 10 ^ 18 := by decide
  have price : genesisPrice.toNat = 10 ^ 16 := by decide
  have unit : genesisUnit.toNat = 10 ^ 21 := by decide
  have most : maxUnitsPerTx.toNat = 5 := rfl
  obtain ⟨nonzero, small⟩ := not_or.mp (revertIf_ok.mp few)
  have sells : Sells s units value cost hashAmount { s with
      entered := true
      balance := s.balance + value
      genesisMinted := s.genesisMinted + hashAmount
      genesisEthRaised := s.genesisEthRaised + cost } := {
    free
    incomplete := Bool.eq_false_of_not_eq_true (revertIf_ok.mp incomplete)
    some := Nat.pos_of_ne_zero fun zero => nonzero (BitVec.eq_of_toNat_eq zero)
    few := Nat.not_lt.mp small
    costs := by rw [mulChecked_units costs, price]
    amounts := by rw [mulChecked_units amounts, unit]
    pays := le
    received
    room := by
      have below : (s.genesisMinted + hashAmount).toNat ≤ genesisCap.toNat :=
        Nat.not_lt.mp (revertIf_ok.mp room)
      rw [BitVec.toNat_add, Nat.mod_eq_of_lt fits, cap] at below
      exact below
    raised := raises
    result := rfl }
  split at started
  · obtain ⟨s₃, sends, started⟩ := bind_returns.mp started
    obtain ⟨_, rfl⟩ := send_ok sends
    cases started
    exact .refunds s _ sender units value cost hashAmount sells
  · next exact' =>
    obtain ⟨ledger, minted, rfl⟩ := mintedGenesis_ok started
    refine .sells s _ sender units value cost hashAmount ledger sells ?_ minted
    have none : (value - cost).toNat = 0 := Nat.eq_zero_of_not_pos exact'
    rw [BitVec.toNat_sub_of_le (BitVec.le_def.mpr le)] at none
    exact BitVec.eq_of_toNat_eq (by omega)

theorem moves_seedBody {call : Call} {o : Outcome State Pending Returned}
    (free : s.entered = false) (incomplete : complete s = false) (sold : s.genesisMinted ≠ 0)
    (started : seedBody d { s with entered := true } = .ok o) :
    Moves d b (some (sender, call)) s [] o.state o.pendings := by
  obtain ⟨supply, added, started⟩ := bind_returns.mp started
  obtain ⟨fits, rfl⟩ := addChecked_ok added
  obtain ⟨ledger, minted, started⟩ := bind_returns.mp started
  obtain ⟨sqrtPriceX96, priced, started⟩ := bind_returns.mp started
  cases started
  refine .opens s _ sender call sqrtPriceX96 {
    free
    incomplete
    some := sold
    fits
    priced
    result := ⟨ledger, mapError_returns.mp minted, rfl⟩ }

/-- A guarded call that has nothing to do leaves the guard as it was. -/
theorem leave_enter (free : s.entered = false) : leave { s with entered := true } = s := by
  cases s
  cases free
  rfl

theorem moves_of_start {c : Call} {o : Outcome State Pending Returned}
    (started : start d b s sender c = .ok o) :
    Moves d b (some (sender, c)) s [] o.state o.pendings := by
  cases c with
  | receive value =>
    obtain ⟨s₁, receives, started⟩ := bind_returns.mp started
    obtain ⟨fits, rfl⟩ := paid_ok receives
    cases started
    exact .receive s sender value fits
  | token call =>
    obtain ⟨ledger, called, started⟩ := bind_returns.mp started
    cases started
    exact .token s sender call ledger (mapError_returns.mp called)
  | mintGenesis units value => exact moves_mintGenesis started
  | seedPool =>
    obtain ⟨s₁, enters, started⟩ := bind_returns.mp started
    obtain ⟨free, rfl⟩ := enter_ok enters
    obtain ⟨_, incomplete, started⟩ := bind_returns.mp started
    obtain ⟨_, soldOut, started⟩ := bind_returns.mp started
    refine moves_seedBody free (Bool.eq_false_of_not_eq_true (revertIf_ok.mp incomplete)) ?_ started
    intro nothing
    have below := revertIf_ok.mp soldOut
    simp only [nothing] at below
    exact below (by decide)
  | partialSeed =>
    obtain ⟨s₁, enters, started⟩ := bind_returns.mp started
    obtain ⟨free, rfl⟩ := enter_ok enters
    obtain ⟨_, _, started⟩ := bind_returns.mp started
    obtain ⟨_, incomplete, started⟩ := bind_returns.mp started
    obtain ⟨_, _, started⟩ := bind_returns.mp started
    obtain ⟨_, _, started⟩ := bind_returns.mp started
    obtain ⟨_, sold, started⟩ := bind_returns.mp started
    exact moves_seedBody free (Bool.eq_false_of_not_eq_true (revertIf_ok.mp incomplete))
      (revertIf_ok.mp sold) started
  | mine nonce =>
    obtain ⟨s₁, enters, started⟩ := bind_returns.mp started
    obtain ⟨free, rfl⟩ := enter_ok enters
    obtain ⟨⟨mining, ledger, events⟩, mined, started⟩ := bind_returns.mp started
    cases started
    have moves := Moves.mine s sender nonce mining ledger events free (mapError_returns.mp mined)
    cases s
    cases free
    exact moves
  | claimFees =>
    obtain ⟨s₁, enters, started⟩ := bind_returns.mp started
    obtain ⟨free, rfl⟩ := enter_ok enters
    obtain ⟨_, controls, started⟩ := bind_returns.mp started
    obtain ⟨_, funded, started⟩ := bind_returns.mp started
    obtain ⟨s₂, sends, ended⟩ := bind_returns.mp started
    obtain ⟨_, rfl⟩ := send_ok sends
    cases ended
    obtain rfl := not_not.mp (revertIf_ok.mp controls)
    exact .claims s free (revertIf_ok.mp funded)
  | beforeInitialize currency0 =>
    obtain ⟨_, _, started⟩ := bind_returns.mp started
    obtain ⟨_, _, started⟩ := bind_returns.mp started
    obtain ⟨_, _, started⟩ := bind_returns.mp started
    cases started
    exact .rests s sender _
  | beforeSwap origin params =>
    obtain ⟨s₁, enters, started⟩ := bind_returns.mp started
    obtain ⟨free, rfl⟩ := enter_ok enters
    obtain ⟨_, manages, started⟩ := bind_returns.mp started
    obtain ⟨_, completed, started⟩ := bind_returns.mp started
    obtain ⟨fee, charged, ended⟩ := bind_returns.mp started
    obtain rfl := not_not.mp (revertIf_ok.mp manages)
    split at ended <;> cases ended
    · change Moves d b _ s [] (leave { s with entered := true }) []
      rw [leave_enter free]
      exact .rests s d.poolManager _
    · exact .takes s origin params fee free
        (Bool.eq_true_of_not_eq_false (revertIf_ok.mp completed)) charged
  | afterSwap origin params delta =>
    obtain ⟨_, manages, started⟩ := bind_returns.mp started
    obtain ⟨fee, charged, ended⟩ := bind_returns.mp started
    obtain rfl := not_not.mp (revertIf_ok.mp manages)
    split at ended <;> cases ended
    · exact .rests s _ _
    · exact .takesAfter s origin params delta fee charged
  | otherHook => cases started

theorem moves_of_resume {p : Pending} {o : Outcome State Pending Returned}
    (resumed : resume d b s p = .ok o) : Moves d b none s [p] o.state o.pendings := by
  cases p with
  | refund buyer cost hashAmount =>
    obtain ⟨ledger, minted, rfl⟩ := mintedGenesis_ok resumed
    exact .refunded s buyer cost hashAmount ledger minted
  | initializePool eth hashLP sqrtPriceX96 =>
    obtain ⟨lower, _, resumed⟩ := bind_returns.mp resumed
    obtain ⟨upper, _, resumed⟩ := bind_returns.mp resumed
    obtain ⟨liquidity, _, resumed⟩ := bind_returns.mp resumed
    obtain ⟨_, _, resumed⟩ := bind_returns.mp resumed
    obtain ⟨ledger, approved, resumed⟩ := bind_returns.mp resumed
    cases resumed
    exact .initialized s eth hashLP sqrtPriceX96 liquidity ledger (mapError_returns.mp approved)
  | approvePositionManager eth hashLP sqrtPriceX96 liquidity =>
    cases resumed
    exact .approved s eth hashLP sqrtPriceX96 liquidity
  | approvePoolManager eth hashLP sqrtPriceX96 liquidity =>
    obtain ⟨_, _, resumed⟩ := bind_returns.mp resumed
    obtain ⟨s₁, sends, resumed⟩ := bind_returns.mp resumed
    obtain ⟨covered, rfl⟩ := send_ok sends
    cases resumed
    exact .provides s eth hashLP sqrtPriceX96 liquidity covered
  | modifyLiquidities eth hashLP sqrtPriceX96 liquidity =>
    cases resumed
    exact .seeded s eth hashLP sqrtPriceX96 liquidity
  | claim amount =>
    cases resumed
    exact .claimed s amount
  | takeBeforeSwap origin fee =>
    cases resumed
    exact .took s origin fee
  | takeAfterSwap origin isBuy fee =>
    cases resumed
    exact .tookAfter s origin isBuy fee

/-- What every part of a call keeps is kept. -/
theorem keeps_of_moves {I : Callee.Property Block State Pending}
    {allowed : Block → State → Address × Call → Prop}
    (advance : ∀ {b b' s}, I b s [] → b'.number.toNat = b.number.toNat + 1 →
      b'.timestamp.toNat < 2 ^ 64 → I b' s [])
    (moves : ∀ {b who s before t after ps}, Moves d b who s before t after →
      (∀ c ∈ who, c.1 ≠ d.self ∧ allowed b s c) → I b s (before ++ ps) → I b t (after ++ ps)) :
    (callee d).Keeps I allowed where
  advance holds follows := by
    obtain ⟨next, short⟩ := of_decide_eq_true follows
    exact advance holds next short
  start {b s ps c o} holds admitted allows started := by
    obtain ⟨sender, call⟩ := c
    have foreign := of_decide_eq_true admitted
    refine moves (moves_of_start (toOption_some.mp started)) ?_ holds
    intro c member
    cases member
    exact ⟨foreign, allows⟩
  resume {b s ps q o} holds resumed := by
    refine moves (moves_of_resume (toOption_some.mp resumed)) ?_ holds
    intro c member
    cases member

theorem start_of_step {x y : Execution} {sender : Address} {c : Call}
    (taken : (machine d).step x (.call (sender, c)) = some y) :
    y = x ∨ ∃ o, start d x.env x.state sender c = .ok o := by
  rcases Callee.start_of_step (p := callee d) taken with same | ⟨o, started⟩
  · exact .inl same
  · exact .inr ⟨o, toOption_some.mp started⟩

end HashMiner.Contract.Hash
