import HashMiner.Chain.Contract
import HashMiner.Contract.Moves

/-!
# The guard

Whatever calls whatever, one guarded call is open at most, and the pool is opened once.
-/

namespace HashMiner.Contract.Hash

open Foundation

/-- The call holds the guard while it waits. -/
def Pending.guarded : Pending → Bool
  | .takeAfterSwap _ _ _ => false
  | _ => true

/-- The pool is being opened. -/
def Pending.seeding : Pending → Bool
  | .initializePool _ _ _ => true
  | .approvePositionManager _ _ _ _ => true
  | .approvePoolManager _ _ _ _ => true
  | .modifyLiquidities _ _ _ _ => true
  | _ => false

def Event.seeds : Event → Bool
  | .poolSeeded _ _ _ => true
  | _ => false

structure Guarded (s : State) (ps : List Pending) : Prop where
  one : ps.countP Pending.guarded = s.entered.toNat
  once : s.log.countP Event.seeds + ps.countP Pending.seeding = (complete s).toNat

variable {d : Deployment} {b : Block} {who : Option (Address × Call)} {s t : State}
variable {before after ps : List Pending}

/-- A call that waits with the guard holds it alone. -/
theorem Guarded.held {p : Pending} (holds : Guarded s (p :: ps)) (guarded : p.guarded = true) :
    s.entered = true ∧ ps.countP Pending.guarded = 0 := by
  have one := holds.one
  rw [List.countP_cons_of_pos guarded] at one
  cases entered : s.entered with
  | false =>
    rw [entered] at one
    cases one
  | true =>
    rw [entered] at one
    exact ⟨rfl, Nat.succ.inj one⟩

theorem Guarded.free (holds : Guarded s ps) (free : s.entered = false) :
    ps.countP Pending.guarded = 0 := by
  rw [holds.one, free]
  rfl

/-- A call that waits for the first time. -/
theorem Guarded.takes {p : Pending} (holds : Guarded s ps) (free : s.entered = false)
    (guarded : p.guarded = true) : (p :: ps).countP Pending.guarded = true.toNat := by
  rw [List.countP_cons_of_pos guarded, holds.free free]
  rfl

theorem Guarded.moves (moves : Moves d b who s before t after)
    (holds : Guarded s (before ++ ps)) : Guarded t (after ++ ps) := by
  have one := holds.one
  have once := holds.once
  cases moves with
  | receive s sender value => exact ⟨one, once⟩
  | token s sender call ledger => exact ⟨one, once⟩
  | sells s sold sender units value cost hashAmount ledger sells =>
    obtain rfl := sells.result
    exact ⟨holds.free sells.free, by simpa [leave, emit, complete, Event.seeds] using once⟩
  | refunds s sold sender units value cost hashAmount sells =>
    obtain rfl := sells.result
    exact ⟨holds.takes sells.free rfl, once⟩
  | refunded s buyer cost hashAmount ledger =>
    have held := holds.held rfl
    exact ⟨held.2, by simpa [leave, emit, complete, Event.seeds, Pending.seeding] using once⟩
  | opens s t sender call price opens =>
    obtain ⟨ledger, _, rfl⟩ := opens.result
    have incomplete : s.mining.genesisComplete = false := opens.incomplete
    rw [complete, incomplete] at once
    refine ⟨holds.takes opens.free rfl, ?_⟩
    rw [List.cons_append, List.countP_cons_of_pos rfl, ← Nat.add_assoc]
    exact congrArg (· + 1) once
  | initialized s eth hashLP price liquidity ledger => exact ⟨one, once⟩
  | approved s eth hashLP price liquidity => exact ⟨one, once⟩
  | provides s eth hashLP price liquidity => exact ⟨one, once⟩
  | seeded s eth hashLP price liquidity =>
    have held := holds.held rfl
    refine ⟨held.2, ?_⟩
    rw [List.cons_append, List.countP_cons_of_pos rfl] at once
    simp only [leave, emit, List.countP_append, List.nil_append, List.countP_singleton, Event.seeds]
    exact (Nat.add_right_comm ..).trans once
  | mine s sender nonce mining ledger events free mined =>
    refine ⟨one, ?_⟩
    have quiet : (events.map Event.mining).countP Event.seeds = 0 := by
      rw [List.countP_map]
      exact List.countP_eq_zero.mpr fun _ _ => Bool.false_ne_true
    rw [List.countP_append, quiet, Nat.add_zero, complete, mine_genesis mined]
    exact once
  | claims s free => exact ⟨holds.takes free rfl, once⟩
  | claimed s amount =>
    have held := holds.held rfl
    exact ⟨held.2, by simpa [leave, emit, complete, Event.seeds, Pending.seeding] using once⟩
  | rests s sender call => exact ⟨one, once⟩
  | takes s origin params fee free => exact ⟨holds.takes free rfl, once⟩
  | took s origin fee =>
    have held := holds.held rfl
    exact ⟨held.2, by simpa [leave, emit, complete, Event.seeds, Pending.seeding] using once⟩
  | takesAfter s origin params delta fee => exact ⟨one, once⟩
  | tookAfter s origin isBuy fee =>
    exact ⟨one, by simpa [emit, complete, Event.seeds, Pending.seeding] using once⟩

/-- The contract after its constructor. -/
def deployed (b : Block) (balance : U256) : Execution := ⟨b, State.initial balance, []⟩

/-- An address of one byte, twenty times. -/
def repeated (byte : Byte) : Address := Vector.replicate 20 byte

/-- A deployment at addresses that are easy to tell apart. -/
def sample : Deployment where
  chainId := 1
  self := repeated 1
  poolManager := repeated 2
  positionManager := repeated 3
  permit2 := repeated 4
  controller := repeated 5
  deployedAt := 0
  self_ne := by decide
  poolManager_ne := by decide
  positionManager_ne := by decide
  permit2_ne := by decide

/-- The run in which one buyer pays for one unit. -/
def oneSale : List Action := [.call (repeated 9, .mintGenesis 1 (BitVec.ofNat 256 (10 ^ 16)))]

/-- The run in which the controller then opens the pool. -/
def oneSaleOpened : List Action := oneSale ++ [.call (repeated 5, .partialSeed)]

/-- The run in which the opening comes to its end. -/
def oneSaleSettled : List Action :=
  oneSaleOpened ++ [.ret true, .ret true, .ret true, .ret true]

/-- The deployment that the miner works for. -/
def live : Deployment := { sample with self := Chain.contract, self_ne := by decide }

/-- The opening up to where the liquidity is provided. -/
def oneSaleProvided : List Action := oneSaleOpened ++ [.ret true, .ret true, .ret true]

/-- `permit2` moves what has been put aside for the pool. -/
def pull : Action :=
  .call (repeated 4,
    .token (.transferFrom Chain.contract (repeated 2) (BitVec.ofNat 256 (10 ^ 21))))

def oneSalePulled : List Action := oneSaleProvided ++ [pull, .ret true]

/-- A nonce with enough work for the first difficulty. -/
def openingNonce : U256 := 3146752913

/-- The run in which a mint follows the opening. -/
def oneSaleMined : List Action := oneSalePulled ++ [.call (Chain.layoutMiner, .mine openingNonce)]

theorem keeps_guarded : (callee d).Keeps (fun _ => Guarded) (fun _ _ _ => True) :=
  keeps_of_moves (fun holds _ _ => holds) fun moves _ => Guarded.moves moves

/-- The functions that the guard protects. -/
def Call.guarded : Call → Bool
  | .mintGenesis _ _ => true
  | .seedPool => true
  | .partialSeed => true
  | .mine _ => true
  | .claimFees => true
  | .beforeSwap _ _ => true
  | _ => false

theorem enter_entered (entered : s.entered = true) : enter s = .error .reentrantCall := by
  rw [enter, revertIf, if_pos entered]
  rfl

theorem start_of_entered {sender : Address} {c : Call} (entered : s.entered = true)
    (guarded : c.guarded = true) : ∃ e, start d b s sender c = .error e := by
  cases c with
  | mintGenesis units value =>
    cases receives : paid s value with
    | error e =>
      refine ⟨e, ?_⟩
      rw [start, mintGenesis, receives]
      rfl
    | ok s₁ =>
      obtain ⟨_, rfl⟩ := paid_ok receives
      refine ⟨.reentrantCall, ?_⟩
      have busy := enter_entered (s := { s with balance := s.balance + value }) entered
      rw [start, mintGenesis, receives, ok_bind, busy]
      rfl
  | seedPool => exact ⟨_, by rw [start, seedPool, enter_entered entered]; rfl⟩
  | partialSeed => exact ⟨_, by rw [start, partialSeed, enter_entered entered]; rfl⟩
  | mine nonce => exact ⟨_, by rw [start, Hash.mine, enter_entered entered]; rfl⟩
  | claimFees => exact ⟨_, by rw [start, claimFees, enter_entered entered]; rfl⟩
  | beforeSwap origin params => exact ⟨_, by rw [start, beforeSwap, enter_entered entered]; rfl⟩
  | receive value => cases guarded
  | token call => cases guarded
  | beforeInitialize currency0 => cases guarded
  | afterSwap origin params delta => cases guarded
  | otherHook => cases guarded

/-- At most one guarded call is open, no other one does anything meanwhile, and the pool is
opened once at most. -/
theorem run_guarded {balance : U256} {actions : List Action} {x : Execution}
    (reached : (machine d).run (deployed b balance) actions = some x) :
    (Callee.pendings x.frames).countP Pending.guarded = x.state.entered.toNat ∧
      x.state.log.countP Event.seeds + (Callee.pendings x.frames).countP Pending.seeding =
        (complete x.state).toNat ∧
      (x.state.entered = true → ∀ c : Address × Call, c.1 ≠ d.self → c.2.guarded = true →
        (machine d).step x (.call c) = some x) := by
  have holds : Callee.Holds (fun _ => Guarded) x.env x.state x.frames :=
    keeps_guarded.run_all (x := deployed b balance) (Guarded.mk rfl rfl) reached
  refine ⟨holds.here.one, holds.here.once, ?_⟩
  intro entered c foreign guarded
  have failed : ∃ e, start d x.env x.state c.1 c.2 = .error e := start_of_entered entered guarded
  obtain ⟨e, failed⟩ := failed
  have admitted : (callee d).admits c = true := decide_eq_true foreign
  simp only [machine, Callee.machine, Callee.step, if_pos admitted]
  simp only [callee, failed, Except.toOption]

/-- While a buyer is paid back, fees cannot be claimed. -/
theorem run_guarded_refund :
    ∃ x, (machine sample).run (deployed ⟨1, 0⟩ 0)
        [.call (repeated 9, .mintGenesis 1 (BitVec.ofNat 256 (2 * 10 ^ 16)))] = some x ∧
      x.state.entered = true ∧
      (machine sample).step x (.call (repeated 5, .claimFees)) = some x := by
  refine ⟨_, rfl, rfl, ?_⟩
  exact (@run_guarded sample ⟨1, 0⟩ 0
    [.call (repeated 9, .mintGenesis 1 (BitVec.ofNat 256 (2 * 10 ^ 16)))] _ rfl).2.2 rfl
      (repeated 5, .claimFees) (by decide) rfl

end HashMiner.Contract.Hash
