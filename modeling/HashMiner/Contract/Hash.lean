import HashMiner.Contract.Emission
import HashMiner.Contract.Liquidity
import HashMiner.Contract.Swap
import HashMiner.Foundation.Callee

/-!
# The whole contract

A call runs up to where the contract calls out: a buyer that is paid back, the pool and its
managers while the pool is opened, the controller, the pool manager when a fee is taken. The
code that is called may call the contract again.
-/

namespace HashMiner.Contract.Hash

open Foundation Erc20

def genesisCap : U256 := BitVec.ofNat 256 (1050000 * 10 ^ 18)

def genesisPrice : U256 := BitVec.ofNat 256 (10 ^ 16)

def genesisUnit : U256 := BitVec.ofNat 256 (1000 * 10 ^ 18)

def maxUnitsPerTx : U256 := 5

def partialSeedDelay : U256 := 1800

/-- What the constructor sets for good. -/
structure Deployment where
  chainId : U256
  self : Address
  poolManager : Address
  positionManager : Address
  permit2 : Address
  controller : Address
  deployedAt : U256
  self_ne : self ≠ zeroAddress
  poolManager_ne : poolManager ≠ zeroAddress
  positionManager_ne : positionManager ≠ zeroAddress
  permit2_ne : permit2 ≠ zeroAddress

structure Block where
  number : U256
  timestamp : U256

inductive Event where
  | genesisMint (buyer : Address) (ethPaid hashOut : U256)
  | poolSeeded (eth hash : U256) (sqrtPriceX96 : U160)
  | liquidityAdded (ethAmt hashAmt : U256) (liquidity : U128)
  | feeCollected (origin : Address) (isBuy : Bool) (fee : U256)
  | feesClaimed (receiver : Address) (amount : U256)
  | mining (e : Contract.Event)

structure State where
  entered : Bool
  balance : U256
  genesisEthRaised : U256
  genesisMinted : U256
  mining : Storage
  ledger : Ledger
  log : List Event

/-- The state after the constructor, with the wei that the address has been given before. -/
def State.initial (balance : U256) : State where
  entered := false
  balance
  genesisEthRaised := 0
  genesisMinted := 0
  mining := ⟨false, 0, 0, 0, 0, 0, fun _ => 0, fun _ => false⟩
  ledger := Ledger.empty
  log := []

inductive Call where
  | receive (value : U256)
  | token (call : Erc20.Call)
  | mintGenesis (units value : U256)
  | seedPool
  | partialSeed
  | mine (nonce : U256)
  | claimFees
  | beforeInitialize (currency0 : Address)
  | beforeSwap (origin : Address) (params : SwapParams)
  | afterSwap (origin : Address) (params : SwapParams) (delta : BitVec 256)
  | otherHook

/-- What the contract still has to do when the code that it has called returns. -/
inductive Pending where
  | refund (buyer : Address) (cost hashAmount : U256)
  | initializePool (eth hashLP : U256) (sqrtPriceX96 : U160)
  | approvePositionManager (eth hashLP : U256) (sqrtPriceX96 : U160) (liquidity : U128)
  | approvePoolManager (eth hashLP : U256) (sqrtPriceX96 : U160) (liquidity : U128)
  | modifyLiquidities (eth hashLP : U256) (sqrtPriceX96 : U160) (liquidity : U128)
  | claim (amount : U256)
  | takeBeforeSwap (origin : Address) (fee : U256)
  | takeAfterSwap (origin : Address) (isBuy : Bool) (fee : U256)

inductive Returned where
  | nothing
  | beforeSwap (delta : BitVec 256)
  | afterSwap (delta : BitVec 128)

/-- What a call does before it ends or calls out. -/
abbrev Turn := Except Failure (Outcome State Pending Returned)

variable (d : Deployment) (b : Block) (s : State) (sender : Address)

def emit (e : Event) : State := { s with log := s.log ++ [e] }

/-- Wei that come with a call. There are not more of them than a word counts. -/
def paid (value : U256) : Except Failure State := do
  let balance ← addChecked Failure.callFailed s.balance value
  return { s with balance }

/-- Wei that go with a call. The call fails when there are not so many. -/
def send (failure : Failure) (value : U256) : Except Failure State := do
  let balance ← subChecked failure s.balance value
  return { s with balance }

/-- `_nonReentrantBefore` -/
def enter : Except Failure State := do
  revertIf (s.entered = true) Failure.reentrantCall
  return { s with entered := true }

/-- `_nonReentrantAfter` -/
def leave : State := { s with entered := false }

def complete : Bool := s.mining.genesisComplete

/-- The end of `mintGenesis`. -/
def mintedGenesis (cost hashAmount : U256) : Turn := do
  let ledger ← (_mint s.ledger sender hashAmount).mapError .token
  let s := emit { s with ledger } (.genesisMint sender cost hashAmount)
  return .done (leave s) .nothing

def mintGenesis (units value : U256) : Turn := do
  let s ← paid s value
  let s ← enter s
  revertIf (complete s = true) Failure.genesisAlreadyComplete
  revertIf (units = 0 ∨ maxUnitsPerTx < units) Failure.txCapExceeded
  let hashAmount ← mulChecked Failure.overflow units genesisUnit
  let cost ← mulChecked Failure.overflow units genesisPrice
  revertIf (value < cost) Failure.insufficientPayment
  let minted ← addChecked Failure.overflow s.genesisMinted hashAmount
  revertIf (genesisCap < minted) Failure.genesisSoldOut
  let raised ← addChecked Failure.overflow s.genesisEthRaised cost
  let s := { s with genesisMinted := minted, genesisEthRaised := raised }
  let excess ← subChecked Failure.overflow value cost
  if 0 < excess then
    let s ← send s .ethTransferFailed excess
    return .waits s (.refund sender cost hashAmount)
  else
    mintedGenesis s sender cost hashAmount

def seedBody : Turn := do
  let s := { s with mining := { s.mining with genesisComplete := true } }
  let eth := s.genesisEthRaised
  let hashLP := s.genesisMinted
  let supply ← addChecked Failure.overflow hashLP miningSupply
  let ledger ← (_mint s.ledger d.self supply).mapError .token
  let sqrtPriceX96 ← sqrtPriceX96FromAmounts eth hashLP
  return .waits { s with ledger } (.initializePool eth hashLP sqrtPriceX96)

def seedPool : Turn := do
  let s ← enter s
  revertIf (complete s = true) Failure.genesisAlreadyComplete
  revertIf (s.genesisMinted < genesisCap) Failure.genesisNotSoldOut
  seedBody d s

def partialSeed : Turn := do
  let s ← enter s
  revertIf (sender ≠ d.controller) Failure.notController
  revertIf (complete s = true) Failure.genesisAlreadyComplete
  let opens ← addChecked Failure.overflow d.deployedAt partialSeedDelay
  revertIf (b.timestamp < opens) Failure.tooSoon
  revertIf (s.genesisMinted = 0) Failure.nothingToSeed
  seedBody d s

/-- `_seedBody` after `poolManager.initialize`. -/
def initialized (eth hashLP : U256) (sqrtPriceX96 : U160) : Turn := do
  let lower ← TickMath.getSqrtPriceAtTick tickLower
  let upper ← TickMath.getSqrtPriceAtTick tickUpper
  let liquidity ← Liquidity.getLiquidityForAmounts sqrtPriceX96 lower upper eth hashLP
  revertIf (liquidity = 0) Failure.insufficientLiquidity
  let s := { s with
    mining := { s.mining with
      currentDifficulty := maxUint256 >>> 32
      lastAdjustmentBlock := b.number
      lastAdjustmentMint := 0 } }
  let ledger ← (_approve s.ledger d.self d.permit2 maxUint256 true).mapError .token
  return .waits { s with ledger } (.approvePositionManager eth hashLP sqrtPriceX96 liquidity)

/-- `_seedBody` before `positionManager.modifyLiquidities`, with the deadline. -/
def provides (eth hashLP : U256) (sqrtPriceX96 : U160) (liquidity : U128) : Turn := do
  let _ ← addChecked Failure.overflow b.timestamp 120
  let s ← send s .callFailed eth
  return .waits s (.modifyLiquidities eth hashLP sqrtPriceX96 liquidity)

def mine (nonce : U256) : Turn := do
  let s ← enter s
  let (mining, ledger, events) ← (Contract.mine ⟨d.chainId, d.self, sender, b.number⟩ s.mining
    Erc20.token s.ledger nonce).mapError .mining
  let s := { s with mining, ledger, log := s.log ++ events.map .mining }
  return .done (leave s) .nothing

def claimFees : Turn := do
  let s ← enter s
  revertIf (sender ≠ d.controller) Failure.notController
  let amt := s.balance
  revertIf (amt = 0) Failure.nothingToClaim
  let s ← send s .ethTransferFailed amt
  return .waits s (.claim amt)

def beforeInitialize (currency0 : Address) : Turn := do
  revertIf (sender ≠ d.poolManager) Failure.notPoolManager
  revertIf (complete s = false) Failure.genesisNotComplete
  revertIf (currency0 ≠ zeroAddress) Failure.wrongPairConfig
  return .done s .nothing

def beforeSwap (origin : Address) (params : SwapParams) : Turn := do
  let s ← enter s
  revertIf (sender ≠ d.poolManager) Failure.notPoolManager
  revertIf (complete s = false) Failure.genesisNotComplete
  let fee ← feeBeforeSwap params
  if fee = 0 then return .done (leave s) (.beforeSwap (deltaBeforeSwap fee))
  else return .waits s (.takeBeforeSwap origin fee)

/-- The hook is not guarded. -/
def afterSwap (origin : Address) (params : SwapParams) (delta : BitVec 256) : Turn := do
  revertIf (sender ≠ d.poolManager) Failure.notPoolManager
  let fee ← feeAfterSwap params (amount0 delta)
  if fee = 0 then return .done s (.afterSwap (deltaAfterSwap fee))
  else return .waits s (.takeAfterSwap origin params.zeroForOne fee)

/-- A call, up to where the contract calls out. -/
def start : Call → Turn
  | .receive value => do
    let s ← paid s value
    return .done s .nothing
  | .token call => do
    let ledger ← (Erc20.call s.ledger sender call).mapError .token
    return .done { s with ledger } .nothing
  | .mintGenesis units value => mintGenesis s sender units value
  | .seedPool => seedPool d s
  | .partialSeed => partialSeed d b s sender
  | .mine nonce => mine d b s sender nonce
  | .claimFees => claimFees d s sender
  | .beforeInitialize currency0 => beforeInitialize d s sender currency0
  | .beforeSwap origin params => beforeSwap d s sender origin params
  | .afterSwap origin params delta => afterSwap d s sender origin params delta
  | .otherHook => .error .invalidAction

/-- The rest of a call, up to where the contract calls out again. -/
def resume : Pending → Turn
  | .refund buyer cost hashAmount => mintedGenesis s buyer cost hashAmount
  | .initializePool eth hashLP sqrtPriceX96 => initialized d b s eth hashLP sqrtPriceX96
  | .approvePositionManager eth hashLP sqrtPriceX96 liquidity =>
    .ok (.waits s (.approvePoolManager eth hashLP sqrtPriceX96 liquidity))
  | .approvePoolManager eth hashLP sqrtPriceX96 liquidity =>
    provides b s eth hashLP sqrtPriceX96 liquidity
  | .modifyLiquidities eth hashLP sqrtPriceX96 liquidity =>
    let s := emit s (.liquidityAdded eth hashLP liquidity)
    let s := emit s (.poolSeeded eth hashLP sqrtPriceX96)
    .ok (.done (leave s) .nothing)
  | .claim amount => .ok (.done (leave (emit s (.feesClaimed d.controller amount))) .nothing)
  | .takeBeforeSwap origin fee =>
    .ok (.done (leave (emit s (.feeCollected origin true fee))) (.beforeSwap (deltaBeforeSwap fee)))
  | .takeAfterSwap origin isBuy fee =>
    .ok (.done (emit s (.feeCollected origin isBuy fee)) (.afterSwap (deltaAfterSwap fee)))

/-- The number of a block follows that of the one before, and its time is a short word. The
contract never calls itself. -/
def callee : Callee Block State (Address × Call) Pending Returned where
  advance b b' := decide (b'.number.toNat = b.number.toNat + 1 ∧ b'.timestamp.toNat < 2 ^ 64)
  admits c := decide (c.1 ≠ d.self)
  start b s c := (start d b s c.1 c.2).toOption
  resume b s pending := (resume d b s pending).toOption

abbrev Execution := Callee.Execution Block State Pending

abbrev Action := Callee.Action Block (Address × Call)

def machine : Machine Execution Action := (callee d).machine

end HashMiner.Contract.Hash
