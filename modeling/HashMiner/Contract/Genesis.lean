import HashMiner.Contract.Guard

/-!
# The genesis and the supply

What has been sold and paid, what the token accounts for, and that the pool opens.
-/

namespace HashMiner.Contract.Hash

open Foundation Erc20

/-- The tokens that a buyer still gets. -/
def Pending.owed : Pending → Nat
  | .refund _ _ hashAmount => hashAmount.toNat
  | _ => 0

/-- The pool is opened with what has been sold, at the price of the genesis. -/
def Pending.Opening (s : State) : Pending → Prop
  | .initializePool eth hashLP sqrtPriceX96 =>
    eth = s.genesisEthRaised ∧ hashLP = s.genesisMinted ∧ sqrtPriceX96 = openingPrice ∧ hashLP ≠ 0
  | .approvePositionManager eth hashLP _ _ => eth = s.genesisEthRaised ∧ hashLP = s.genesisMinted
  | .approvePoolManager eth hashLP _ _ => eth = s.genesisEthRaised ∧ hashLP = s.genesisMinted
  | _ => True

/-- What has been sold, in units. -/
structure Sold (s : State) (units : Nat) : Prop where
  within : units ≤ 1050
  minted : s.genesisMinted.toNat = units * 10 ^ 21
  raised : s.genesisEthRaised.toNat = units * 10 ^ 16

/-- What the contract has issued, with what it still has to issue to buyers. -/
def issued (s : State) : Nat :=
  s.genesisMinted.toNat +
    if complete s = true then s.genesisMinted.toNat + miningSupply.toNat else 0

structure Supplied (s : State) (ps : List Pending) : Prop where
  guarded : Guarded s ps
  sold : ∃ units, Sold s units
  opening : ∀ p ∈ ps, p.Opening s
  accounts : ∃ acc, Refines s.ledger acc ∧ acc.supply + (ps.map Pending.owed).sum = issued s

variable {d : Deployment} {b : Block} {who : Option (Address × Call)} {s t : State}
variable {before after ps : List Pending}

theorem opening_of_not_seeding {p : Pending} (other : p.seeding = false) : p.Opening s := by
  cases p <;> trivial

/-- Nothing is pending that depends on what is sold while it is being sold. -/
theorem Supplied.none_opening (holds : Supplied s ps) (incomplete : complete s = false)
    (t : State) : ∀ p ∈ ps, p.Opening t := by
  have once := holds.guarded.once
  rw [incomplete] at once
  have none : ps.countP Pending.seeding = 0 := Nat.eq_zero_of_add_eq_zero_left once
  intro p member
  exact opening_of_not_seeding (Bool.eq_false_of_not_eq_true (List.countP_eq_zero.mp none p member))

/-- The state in which a unit has been sold. -/
theorem Sells.sold {units value cost hashAmount : U256} {sold : State} {k : Nat}
    (sells : Sells s units value cost hashAmount sold) (amounts : Sold s k) :
    Sold sold (k + units.toNat) ∧
      sold.genesisMinted.toNat = s.genesisMinted.toNat + hashAmount.toNat := by
  obtain rfl := sells.result
  have room := sells.room
  have raised := sells.raised
  have minted : (s.genesisMinted + hashAmount).toNat =
      s.genesisMinted.toNat + hashAmount.toNat := by
    rw [BitVec.toNat_add, Nat.mod_eq_of_lt]
    omega
  have paid : (s.genesisEthRaised + cost).toNat = s.genesisEthRaised.toNat + cost.toNat := by
    rw [BitVec.toNat_add, Nat.mod_eq_of_lt raised]
  have amount := sells.amounts
  have price := sells.costs
  rw [amounts.minted] at room
  refine ⟨⟨by omega, ?_, ?_⟩, minted⟩
  · rw [minted, amounts.minted, amount, Nat.add_mul]
  · rw [paid, amounts.raised, price, Nat.add_mul]

theorem Opens.price {sqrtPriceX96 : U160} {k : Nat} (opens : Opens d s sqrtPriceX96 t)
    (amounts : Sold s k) : sqrtPriceX96 = openingPrice := by
  have some : 0 < k := by
    refine Nat.pos_of_ne_zero fun zero => opens.some (BitVec.eq_of_toNat_eq ?_)
    rw [amounts.minted, zero]
    rfl
  have priced := sqrtPriceX96_opening some amounts.within amounts.raised amounts.minted
  exact Except.ok.inj (opens.priced.symm.trans priced)

theorem issued_incomplete (incomplete : complete s = false) :
    issued s = s.genesisMinted.toNat := by
  rw [issued, incomplete, if_neg Bool.false_ne_true, Nat.add_zero]

theorem issued_complete (done : complete s = true) :
    issued s = s.genesisMinted.toNat + (s.genesisMinted.toNat + miningSupply.toNat) := by
  rw [issued, if_pos done]

theorem Sells.issued {units value cost hashAmount : U256} {sold : State} {k : Nat}
    (sells : Sells s units value cost hashAmount sold) (amounts : Sold s k) :
    issued sold = issued s + hashAmount.toNat := by
  have total := (sells.sold amounts).2
  have incomplete : complete sold = false := by
    rw [sells.result]
    exact sells.incomplete
  rw [issued_incomplete incomplete, issued_incomplete sells.incomplete, total]

theorem owed_cons (p : Pending) (ps : List Pending) :
    ((p :: ps).map Pending.owed).sum = p.owed + (ps.map Pending.owed).sum := by
  rw [List.map_cons, List.sum_cons]

theorem owed_nothing {p : Pending} (nothing : p.owed = 0) :
    ((p :: ps).map Pending.owed).sum = (ps.map Pending.owed).sum := by
  rw [owed_cons, nothing, Nat.zero_add]

/-- A part of a call that neither sells nor opens. -/
theorem Supplied.issues {qs : List Pending} (holds : Supplied s ps) (guarded : Guarded t qs)
    (minted : t.genesisMinted = s.genesisMinted) (raised : t.genesisEthRaised = s.genesisEthRaised)
    (same : complete t = complete s) (opening : ∀ p ∈ qs, p.Opening s)
    (accounts : ∀ acc, Refines s.ledger acc → ∃ acc', Refines t.ledger acc' ∧
      acc'.supply + (qs.map Pending.owed).sum = acc.supply + (ps.map Pending.owed).sum) :
    Supplied t qs := by
  obtain ⟨_, ⟨units, amounts⟩, _, acc, refines, whole⟩ := holds
  obtain ⟨acc', refines', kept⟩ := accounts acc refines
  refine ⟨guarded, ⟨units, amounts.within, ?_, ?_⟩, ?_, acc', refines', ?_⟩
  · rw [minted, amounts.minted]
  · rw [raised, amounts.raised]
  · intro p member
    have opened := opening p member
    cases p <;> simp only [Pending.Opening, minted, raised] at opened ⊢ <;> exact opened
  · rw [kept, whole, issued, issued, minted, same]

/-- A part of a call that leaves the token alone. -/
theorem Supplied.rests {qs : List Pending} (holds : Supplied s ps) (guarded : Guarded t qs)
    (ledger : t.ledger = s.ledger) (minted : t.genesisMinted = s.genesisMinted)
    (raised : t.genesisEthRaised = s.genesisEthRaised) (same : complete t = complete s)
    (opening : ∀ p ∈ qs, p.Opening s)
    (owes : (qs.map Pending.owed).sum = (ps.map Pending.owed).sum) : Supplied t qs := by
  refine holds.issues guarded minted raised same opening fun acc refines => ⟨acc, ?_, ?_⟩
  · rw [ledger]
    exact refines
  · rw [owes]

theorem Supplied.moves (moves : Moves d b who s before t after)
    (holds : Supplied s (before ++ ps)) : Supplied t (after ++ ps) := by
  have guarded := holds.guarded.moves moves
  have opening := holds.opening
  cases moves with
  | receive s sender value => exact holds.rests guarded rfl rfl rfl rfl opening rfl
  | token s sender call ledger called =>
    refine holds.issues guarded rfl rfl rfl opening fun acc refines => ?_
    obtain ⟨acc', refines', supply⟩ := refines.call called
    exact ⟨acc', refines', congrArg (· + _) supply⟩
  | sells s sold sender units value cost hashAmount ledger sells _ minted =>
    have opening := holds.none_opening sells.incomplete
    obtain ⟨_, ⟨k, amounts⟩, _, acc, refines, whole⟩ := holds
    obtain ⟨amounts', _⟩ := sells.sold amounts
    have total := sells.issued amounts
    obtain rfl := sells.result
    refine ⟨guarded, ⟨_, amounts'.within, amounts'.minted, amounts'.raised⟩, opening _, _,
      refines.mint minted, Eq.trans ?_ total.symm⟩
    rw [← whole]
    exact Nat.add_right_comm ..
  | refunds s sold sender units value cost hashAmount sells =>
    have opening := holds.none_opening sells.incomplete
    obtain ⟨_, ⟨k, amounts⟩, _, acc, refines, whole⟩ := holds
    obtain ⟨amounts', _⟩ := sells.sold amounts
    have total := sells.issued amounts
    obtain rfl := sells.result
    refine ⟨guarded, ⟨_, amounts'.within, amounts'.minted, amounts'.raised⟩, ?_, acc, refines,
      Eq.trans ?_ total.symm⟩
    · exact List.forall_mem_cons.mpr ⟨trivial, opening _⟩
    · rw [List.cons_append, owed_cons, Pending.owed, Nat.add_left_comm, Nat.add_comm, ← whole]
  | refunded s buyer cost hashAmount ledger minted =>
    have opening := (List.forall_mem_cons.mp opening).2
    refine holds.issues guarded rfl rfl rfl opening fun acc refines => ⟨_, refines.mint minted, ?_⟩
    rw [List.cons_append, owed_cons, Pending.owed, ← Nat.add_assoc]
    rfl
  | opens s t sender call sqrtPriceX96 opens =>
    have opening := holds.none_opening opens.incomplete
    obtain ⟨_, ⟨k, amounts⟩, _, acc, refines, whole⟩ := holds
    have price := opens.price amounts
    obtain ⟨ledger, minted, rfl⟩ := opens.result
    refine ⟨guarded, ⟨k, amounts.within, amounts.minted, amounts.raised⟩, ?_, _,
      refines.mint minted, ?_⟩
    · exact List.forall_mem_cons.mpr ⟨⟨rfl, rfl, price, opens.some⟩, opening _⟩
    · have supply : (s.genesisMinted + miningSupply).toNat =
          s.genesisMinted.toNat + miningSupply.toNat := by
        rw [BitVec.toNat_add, Nat.mod_eq_of_lt opens.fits]
      rw [issued_incomplete opens.incomplete] at whole
      rw [issued_complete rfl, List.cons_append, owed_nothing rfl, Accounts.issue, supply,
        Nat.add_right_comm]
      exact congrArg (· + _) whole
  | initialized s eth hashLP sqrtPriceX96 liquidity ledger approved =>
    obtain ⟨⟨raised, minted, _⟩, opening⟩ := List.forall_mem_cons.mp opening
    refine holds.issues guarded rfl rfl rfl ?_ fun acc refines =>
      ⟨acc, refines.approved approved, rfl⟩
    exact List.forall_mem_cons.mpr ⟨⟨raised, minted⟩, opening⟩
  | approved s eth hashLP sqrtPriceX96 liquidity =>
    obtain ⟨opened, opening⟩ := List.forall_mem_cons.mp opening
    exact holds.rests guarded rfl rfl rfl rfl (List.forall_mem_cons.mpr ⟨opened, opening⟩)
      rfl
  | provides s eth hashLP sqrtPriceX96 liquidity =>
    have opening := (List.forall_mem_cons.mp opening).2
    exact holds.rests guarded rfl rfl rfl rfl (List.forall_mem_cons.mpr ⟨trivial, opening⟩)
      rfl
  | seeded s eth hashLP sqrtPriceX96 liquidity =>
    have opening := (List.forall_mem_cons.mp opening).2
    exact holds.rests guarded rfl rfl rfl rfl opening (owed_nothing rfl).symm
  | mine s sender nonce mining ledger events free mined =>
    obtain ⟨left, reward, mines⟩ := mine_ok mined
    have same := mine_genesis mined
    refine holds.issues guarded rfl rfl same opening fun acc refines => ?_
    obtain ⟨acc', moved, refines'⟩ := refines.transfer (mapError_returns.mp mines.transferred)
    exact ⟨acc', refines', congrArg (· + _) (Accounts.step_supply moved)⟩
  | claims s =>
    exact holds.rests guarded rfl rfl rfl rfl (List.forall_mem_cons.mpr ⟨trivial, opening⟩)
      (owed_nothing rfl)
  | claimed s amount =>
    have opening := (List.forall_mem_cons.mp opening).2
    exact holds.rests guarded rfl rfl rfl rfl opening (owed_nothing rfl).symm
  | rests s sender call => exact holds
  | takes s origin params fee =>
    exact holds.rests guarded rfl rfl rfl rfl (List.forall_mem_cons.mpr ⟨trivial, opening⟩)
      (owed_nothing rfl)
  | took s origin fee =>
    have opening := (List.forall_mem_cons.mp opening).2
    exact holds.rests guarded rfl rfl rfl rfl opening (owed_nothing rfl).symm
  | takesAfter s origin params delta fee =>
    exact holds.rests guarded rfl rfl rfl rfl (List.forall_mem_cons.mpr ⟨trivial, opening⟩)
      (owed_nothing rfl)
  | tookAfter s origin isBuy fee =>
    have opening := (List.forall_mem_cons.mp opening).2
    exact holds.rests guarded rfl rfl rfl rfl opening (owed_nothing rfl).symm

theorem keeps_supplied : (callee d).Keeps (fun _ => Supplied) (fun _ _ _ => True) :=
  keeps_of_moves (fun holds _ _ => holds) fun moves _ => Supplied.moves moves

theorem supplied_initial (balance : U256) : Supplied (State.initial balance) [] :=
  ⟨⟨rfl, rfl⟩, ⟨0, Nat.zero_le _, rfl, rfl⟩, fun _ none => absurd none List.not_mem_nil,
    Accounts.empty, ⟨fun _ => rfl, rfl, rfl⟩, rfl⟩

theorem reachable_supplied {balance : U256} {actions : List Action} {x : Execution}
    (reached : (machine d).run (deployed b balance) actions = some x) :
    Callee.Holds (fun _ => Supplied) x.env x.state x.frames :=
  keeps_supplied.run_all (x := deployed b balance) (supplied_initial balance) reached

/-- The supply is what has been sold, again as much for the pool once it opens, and what is
there to be mined. It is split into the balances, which the events replay. -/
theorem run_supply {balance : U256} {actions : List Action} {x : Execution}
    (reached : (machine d).run (deployed b balance) actions = some x) :
    ∃ units, Sold x.state units ∧ ∃ acc, Refines x.state.ledger acc ∧
      acc.supply + ((Callee.pendings x.frames).map Pending.owed).sum =
        units * 10 ^ 21 +
          (if complete x.state = true then units * 10 ^ 21 + 18900000 * 10 ^ 18 else 0) ∧
      x.state.ledger.totalSupply.toNat ≤ 21000000 * 10 ^ 18 := by
  obtain ⟨_, ⟨units, sold⟩, _, acc, refines, whole⟩ := (reachable_supplied reached).here
  have mining : miningSupply.toNat = 18900000 * 10 ^ 18 := by decide
  rw [issued, sold.minted, mining] at whole
  refine ⟨units, sold, acc, refines, whole, ?_⟩
  have within := sold.within
  rw [refines.supply]
  split at whole <;> omega

theorem run_supply_oneSale :
    ∃ x, (machine sample).run (deployed ⟨1, 1800⟩ 0) oneSale = some x ∧
      ∃ units, Sold x.state units := by
  refine ⟨_, rfl, ?_⟩
  obtain ⟨units, sold, _⟩ := @run_supply sample ⟨1, 1800⟩ 0 oneSale _ rfl
  exact ⟨units, sold⟩

/-! ## The opening of the pool -/

theorem Sold.some {units : Nat} (sold : Sold s units) (nonzero : s.genesisMinted ≠ 0) :
    0 < units := by
  refine Nat.pos_of_ne_zero fun zero => nonzero (BitVec.eq_of_toNat_eq ?_)
  rw [sold.minted, zero]
  rfl

theorem seedBody_ok (supplied : Supplied s ps) (incomplete : complete s = false)
    (nonzero : s.genesisMinted ≠ 0) : ∃ o, seedBody d { s with entered := true } = .ok o := by
  obtain ⟨_, ⟨units, sold⟩, _, acc, refines, whole⟩ := supplied
  have mining : miningSupply.toNat = 18900000 * 10 ^ 18 := by decide
  have within := sold.within
  have minted := sold.minted
  rw [issued_incomplete incomplete, ← refines.supply] at whole
  have fits : s.genesisMinted.toNat + miningSupply.toNat < 2 ^ 256 := by omega
  have added : addChecked Failure.overflow s.genesisMinted miningSupply =
      .ok (s.genesisMinted + miningSupply) := if_neg (Nat.not_le.mpr fits)
  have supply : (s.genesisMinted + miningSupply).toNat =
      s.genesisMinted.toNat + miningSupply.toNat := toNat_of_addChecked added
  have created : _mint s.ledger d.self (s.genesisMinted + miningSupply) = .ok _ :=
    _mint_ok.mpr ⟨d.self_ne, by omega, rfl⟩
  have priced := sqrtPriceX96_opening (sold.some nonzero) within sold.raised minted
  simp only [seedBody, added, ok_bind, created, Except.mapError, priced]
  exact ⟨_, rfl⟩

theorem Supplied.minted_le (supplied : Supplied s ps) :
    s.genesisMinted.toNat ≤ 1050 * 10 ^ 21 := by
  obtain ⟨units, sold⟩ := supplied.sold
  rw [sold.minted]
  exact Nat.mul_le_mul_right _ sold.within

theorem seedPool_iff (supplied : Supplied s ps) : (∃ o, seedPool d s = .ok o) ↔
    s.entered = false ∧ complete s = false ∧ s.genesisMinted.toNat = 1050 * 10 ^ 21 := by
  have cap : genesisCap.toNat = 1050 * 10 ^ 21 := by decide
  constructor
  · rintro ⟨o, started⟩
    obtain ⟨s₁, enters, started⟩ := bind_returns.mp started
    obtain ⟨free, rfl⟩ := enter_ok enters
    obtain ⟨_, incomplete, started⟩ := bind_returns.mp started
    obtain ⟨_, soldOut, _⟩ := bind_returns.mp started
    have enough : genesisCap.toNat ≤ s.genesisMinted.toNat := Nat.not_lt.mp (revertIf_ok.mp soldOut)
    rw [cap] at enough
    exact ⟨free, Bool.eq_false_of_not_eq_true (revertIf_ok.mp incomplete),
      Nat.le_antisymm supplied.minted_le enough⟩
  · rintro ⟨free, incomplete, soldOut⟩
    have nonzero : s.genesisMinted ≠ 0 := by
      intro zero
      rw [zero] at soldOut
      exact absurd soldOut (by decide)
    have enough : ¬ s.genesisMinted < genesisCap := by
      rw [BitVec.lt_def, cap]
      omega
    obtain ⟨o, seeded⟩ := seedBody_ok (d := d) supplied incomplete nonzero
    refine ⟨o, ?_⟩
    have opens : ¬ complete { s with entered := true } = true := ne_true_of_eq_false incomplete
    rw [seedPool, enter_of_free free, ok_bind, revertIf_of_not opens, ok_bind,
      revertIf_of_not enough, ok_bind, seeded]

theorem partialSeed_iff {sender : Address} (supplied : Supplied s ps) :
    (∃ o, partialSeed d b s sender = .ok o) ↔
      s.entered = false ∧ complete s = false ∧ sender = d.controller ∧
        d.deployedAt.toNat + 1800 ≤ b.timestamp.toNat ∧ s.genesisMinted ≠ 0 := by
  have delay : partialSeedDelay.toNat = 1800 := rfl
  constructor
  · rintro ⟨o, started⟩
    obtain ⟨s₁, enters, started⟩ := bind_returns.mp started
    obtain ⟨free, rfl⟩ := enter_ok enters
    obtain ⟨_, controls, started⟩ := bind_returns.mp started
    obtain ⟨_, incomplete, started⟩ := bind_returns.mp started
    obtain ⟨opens, added, started⟩ := bind_returns.mp started
    obtain ⟨_, waited, started⟩ := bind_returns.mp started
    obtain ⟨_, nonzero, _⟩ := bind_returns.mp started
    have late : opens.toNat ≤ b.timestamp.toNat := Nat.not_lt.mp (revertIf_ok.mp waited)
    rw [toNat_of_addChecked added, delay] at late
    exact ⟨free, Bool.eq_false_of_not_eq_true (revertIf_ok.mp incomplete),
      not_not.mp (revertIf_ok.mp controls), late, revertIf_ok.mp nonzero⟩
  · rintro ⟨free, incomplete, rfl, late, nonzero⟩
    have word := b.timestamp.isLt
    have fits : ¬ 2 ^ 256 ≤ d.deployedAt.toNat + partialSeedDelay.toNat := by
      rw [delay]
      omega
    have added : addChecked Failure.overflow d.deployedAt partialSeedDelay =
        .ok (d.deployedAt + partialSeedDelay) := if_neg fits
    have waited : ¬ b.timestamp < d.deployedAt + partialSeedDelay := by
      rw [BitVec.lt_def, toNat_of_addChecked added, delay]
      exact Nat.not_lt.mpr late
    have opens : ¬ complete { s with entered := true } = true := ne_true_of_eq_false incomplete
    obtain ⟨o, seeded⟩ := seedBody_ok (d := d) supplied incomplete nonzero
    refine ⟨o, ?_⟩
    rw [partialSeed, enter_of_free free, ok_bind, revertIf_of_not (not_not.mpr rfl), ok_bind,
      revertIf_of_not opens, ok_bind, added, ok_bind, revertIf_of_not waited, ok_bind,
      revertIf_of_not nonzero, ok_bind, seeded]

/-- What is pending while the pool is opened goes on, if what is to be paid is there. -/
theorem resume_seeding_iff {p : Pending} (supplied : Supplied s (p :: ps))
    (seeding : p.seeding = true) (early : b.timestamp.toNat < 2 ^ 64) :
    (∃ o, resume d b s p = .ok o) ↔
      ∀ eth hashLP sqrtPriceX96 liquidity,
        p = .approvePoolManager eth hashLP sqrtPriceX96 liquidity →
          eth.toNat ≤ s.balance.toNat := by
  obtain ⟨units, sold⟩ := supplied.sold
  have opened := (List.forall_mem_cons.mp supplied.opening).1
  cases p with
  | initializePool eth hashLP sqrtPriceX96 =>
    obtain ⟨rfl, rfl, rfl, nonzero⟩ := opened
    obtain ⟨liquidity, computed, positive⟩ := liquidity_opening (sold.some nonzero) sold.within
      sold.raised sold.minted
    have approves : ∃ ledger, _approve s.ledger d.self d.permit2 maxUint256 true = .ok ledger := by
      rw [_approve, revertIf_of_not d.self_ne, ok_bind, revertIf_of_not d.permit2_ne, ok_bind]
      exact ⟨_, rfl⟩
    obtain ⟨ledger, approves⟩ := approves
    refine iff_of_true ?_ fun _ _ _ _ same => by cases same
    rw [resume, initialized, getSqrtPriceAtTick_lower, ok_bind, getSqrtPriceAtTick_upper, ok_bind,
      computed, ok_bind, revertIf_of_not positive, ok_bind]
    simp only [approves, Except.mapError]
    exact ⟨_, rfl⟩
  | approvePositionManager eth hashLP sqrtPriceX96 liquidity =>
    exact iff_of_true ⟨_, rfl⟩ fun _ _ _ _ same => by cases same
  | approvePoolManager eth hashLP sqrtPriceX96 liquidity =>
    have short : (120 : U256).toNat = 120 := rfl
    have deadline : addChecked Failure.overflow b.timestamp 120 = .ok (b.timestamp + 120) :=
      if_neg (by rw [short]; omega)
    constructor
    · rintro ⟨o, resumed⟩ _ _ _ _ same
      cases same
      obtain ⟨_, _, resumed⟩ := bind_returns.mp resumed
      obtain ⟨s₁, sends, _⟩ := bind_returns.mp resumed
      exact (send_ok sends).1
    · intro funded
      have covered : subChecked Failure.callFailed s.balance eth = .ok _ :=
        subChecked_of_le (funded _ _ _ _ rfl)
      rw [resume, provides, deadline, ok_bind, send, covered]
      exact ⟨_, rfl⟩
  | modifyLiquidities eth hashLP sqrtPriceX96 liquidity =>
    exact iff_of_true ⟨_, rfl⟩ fun _ _ _ _ same => by cases same
  | refund buyer cost hashAmount => cases seeding
  | claim amount => cases seeding
  | takeBeforeSwap origin fee => cases seeding
  | takeAfterSwap origin isBuy fee => cases seeding

/-- The state and the time of a block. -/
def Timed (b : Block) (s : State) (ps : List Pending) : Prop :=
  Supplied s ps ∧ b.timestamp.toNat < 2 ^ 64

theorem keeps_timed : (callee d).Keeps Timed (fun _ _ _ => True) :=
  keeps_of_moves (fun holds _ short => ⟨holds.1, short⟩)
    fun moves _ holds => ⟨Supplied.moves moves holds.1, holds.2⟩

/-- When the opening of the pool starts, and when it goes on. -/
theorem run_opens {balance : U256} {actions : List Action} {x : Execution}
    (early : b.timestamp.toNat < 2 ^ 64)
    (reached : (machine d).run (deployed b balance) actions = some x) :
    (∀ sender, (∃ o, start d x.env x.state sender .seedPool = .ok o) ↔
      x.state.entered = false ∧ complete x.state = false ∧
        x.state.genesisMinted.toNat = 1050 * 10 ^ 21) ∧
    (∀ sender, (∃ o, start d x.env x.state sender .partialSeed = .ok o) ↔
      x.state.entered = false ∧ complete x.state = false ∧ sender = d.controller ∧
        d.deployedAt.toNat + 1800 ≤ x.env.timestamp.toNat ∧ x.state.genesisMinted ≠ 0) ∧
    ∀ saved p rest, x.frames = ⟨saved, some p⟩ :: rest → p.seeding = true →
      ((∃ o, resume d x.env x.state p = .ok o) ↔
        ∀ eth hashLP sqrtPriceX96 liquidity,
          p = .approvePoolManager eth hashLP sqrtPriceX96 liquidity →
            eth.toNat ≤ x.state.balance.toNat) := by
  have holds : Callee.Holds Timed x.env x.state x.frames :=
    keeps_timed.run_all (x := deployed b balance) ⟨supplied_initial balance, early⟩ reached
  obtain ⟨supplied, short⟩ := holds.here
  refine ⟨fun _ => seedPool_iff supplied, fun _ => partialSeed_iff supplied, ?_⟩
  intro saved p rest frames seeding
  rw [frames] at supplied
  exact resume_seeding_iff supplied seeding short

theorem run_opens_oneSale :
    ∃ x, (machine sample).run (deployed ⟨1, 1800⟩ 0) oneSale = some x ∧
      ∃ o, start sample x.env x.state (repeated 5) .partialSeed = .ok o := by
  refine ⟨_, rfl, ?_⟩
  have opens := (@run_opens sample ⟨1, 1800⟩ 0 oneSale _ (by decide) rfl).2.1 (repeated 5)
  exact opens.mpr ⟨rfl, rfl, rfl, by decide, by decide⟩

/-! ## What has been paid for the pool -/

/-- The currency for the pool has not been handed on yet. -/
def Pending.holdsEth : Pending → Bool
  | .initializePool _ _ _ => true
  | .approvePositionManager _ _ _ _ => true
  | .approvePoolManager _ _ _ _ => true
  | _ => false

theorem guarded_of_holdsEth {p : Pending} (holds : p.holdsEth = true) : p.guarded = true := by
  cases p <;> trivial

/-- The controller does not claim the currency that the pool still needs. -/
def Spares (d : Deployment) (_ : Block) (s : State) (c : Address × Call) : Prop :=
  c = (d.controller, .claimFees) → complete s = true

structure Funded (b : Block) (s : State) (ps : List Pending) : Prop where
  supplied : Supplied s ps
  early : b.timestamp.toNat < 2 ^ 64
  funded : complete s = false ∨ (∃ p ∈ ps, p.holdsEth = true) →
    s.genesisEthRaised.toNat ≤ s.balance.toNat

/-- A part of a call that leaves the currency alone. -/
theorem Funded.rests {qs : List Pending} (holds : Funded b s ps) (supplied : Supplied t qs)
    (raised : t.genesisEthRaised = s.genesisEthRaised)
    (least : s.balance.toNat ≤ t.balance.toNat) (same : complete t = false → complete s = false)
    (opening : ∀ p ∈ qs, p.holdsEth = true → complete s = false ∨ ∃ q ∈ ps, q.holdsEth = true) :
    Funded b t qs := by
  refine ⟨supplied, holds.early, ?_⟩
  rintro (incomplete | ⟨p, member, waits⟩)
  · rw [raised]
    exact Nat.le_trans (holds.funded (.inl (same incomplete))) least
  · rw [raised]
    exact Nat.le_trans (holds.funded (opening p member waits)) least

theorem none_holdsEth (none : ps.countP Pending.guarded = 0) {p : Pending} (member : p ∈ ps)
    (waits : p.holdsEth = true) : False :=
  List.countP_eq_zero.mp none p member (guarded_of_holdsEth waits)

/-- What is pending without needing the currency is passed over. -/
theorem mem_of_holdsEth {p q : Pending} (other : q.holdsEth = false) (member : p ∈ q :: ps)
    (waits : p.holdsEth = true) : p ∈ ps := by
  rcases List.mem_cons.mp member with rfl | member
  · cases other.symm.trans waits
  · exact member

/-- A sale leaves the contract with what it has been paid for. -/
theorem Sells.funded {units value cost hashAmount : U256} {sold : State}
    (sells : Sells s units value cost hashAmount sold)
    (least : s.genesisEthRaised.toNat ≤ s.balance.toNat) :
    sold.genesisEthRaised.toNat ≤ (sold.balance - (value - cost)).toNat := by
  have received := sells.received
  have raised := sells.raised
  have pays := sells.pays
  have excess : (value - cost).toNat = value.toNat - cost.toNat :=
    BitVec.toNat_sub_of_le (BitVec.le_def.mpr pays)
  have balance : (s.balance + value).toNat = s.balance.toNat + value.toNat := by
    rw [BitVec.toNat_add, Nat.mod_eq_of_lt received]
  have within : value - cost ≤ s.balance + value := by
    rw [BitVec.le_def, excess, balance]
    omega
  rw [sells.result, BitVec.toNat_add, Nat.mod_eq_of_lt raised, BitVec.toNat_sub_of_le within,
    excess, balance]
  omega

theorem Funded.moves (moves : Moves d b who s before t after)
    (spares : ∀ c ∈ who, c.1 ≠ d.self ∧ Spares d b s c) (holds : Funded b s (before ++ ps)) :
    Funded b t (after ++ ps) := by
  have supplied := holds.supplied.moves moves
  have guarded := holds.supplied.guarded
  have later : ∀ p ∈ ps, p.holdsEth = true →
      complete s = false ∨ ∃ q ∈ before ++ ps, q.holdsEth = true :=
    fun p member waits => .inr ⟨p, List.mem_append_right before member, waits⟩
  cases moves with
  | receive s sender value fits =>
    refine holds.rests supplied rfl ?_ id later
    rw [BitVec.toNat_add, Nat.mod_eq_of_lt fits]
    exact Nat.le_add_right ..
  | token s sender call ledger called => exact holds.rests supplied rfl (Nat.le_refl _) id later
  | sells s sold sender units value cost hashAmount ledger sells exactly minted =>
    have funded := sells.funded (holds.funded (.inl sells.incomplete))
    rw [exactly, BitVec.sub_self, BitVec.sub_zero] at funded
    exact ⟨supplied, holds.early, fun _ => funded⟩
  | refunds s sold sender units value cost hashAmount sells =>
    have funded := sells.funded (holds.funded (.inl sells.incomplete))
    exact ⟨supplied, holds.early, fun _ => funded⟩
  | refunded s buyer cost hashAmount ledger minted =>
    exact holds.rests supplied rfl (Nat.le_refl _) id later
  | opens s t sender call sqrtPriceX96 opens =>
    obtain ⟨ledger, minted, rfl⟩ := opens.result
    exact holds.rests supplied rfl (Nat.le_refl _) (fun _ => opens.incomplete)
      fun _ _ _ => .inl opens.incomplete
  | initialized s eth hashLP sqrtPriceX96 liquidity ledger approved =>
    exact holds.rests supplied rfl (Nat.le_refl _) id
      fun _ _ _ => .inr ⟨_, List.mem_cons_self, rfl⟩
  | approved s eth hashLP sqrtPriceX96 liquidity =>
    exact holds.rests supplied rfl (Nat.le_refl _) id
      fun _ _ _ => .inr ⟨_, List.mem_cons_self, rfl⟩
  | provides s eth hashLP sqrtPriceX96 liquidity covered =>
    obtain ⟨entered, none⟩ := guarded.held rfl
    refine ⟨supplied, holds.early, ?_⟩
    rintro (incomplete | ⟨p, member, waits⟩)
    · have once := guarded.once
      rw [show complete s = false from incomplete, List.cons_append,
        List.countP_cons_of_pos rfl] at once
      cases once
    · exact (none_holdsEth none (mem_of_holdsEth rfl member waits) waits).elim
  | seeded s eth hashLP sqrtPriceX96 liquidity =>
    exact holds.rests supplied rfl (Nat.le_refl _) id later
  | mine s sender nonce mining ledger events free mined =>
    refine holds.rests supplied rfl (Nat.le_refl _) ?_ later
    rw [complete, mine_genesis mined]
    exact id
  | claims s free funds =>
    have done : complete s = true := (spares _ rfl).2 rfl
    refine ⟨supplied, holds.early, ?_⟩
    rintro (incomplete | ⟨p, member, waits⟩)
    · cases done.symm.trans incomplete
    · exact (none_holdsEth (guarded.free free) (mem_of_holdsEth rfl member waits) waits).elim
  | claimed s amount => exact holds.rests supplied rfl (Nat.le_refl _) id later
  | rests s sender call => exact holds
  | takes s origin params fee =>
    exact holds.rests supplied rfl (Nat.le_refl _) id
      fun p member waits => later p (mem_of_holdsEth rfl member waits) waits
  | took s origin fee => exact holds.rests supplied rfl (Nat.le_refl _) id later
  | takesAfter s origin params delta fee =>
    exact holds.rests supplied rfl (Nat.le_refl _) id
      fun p member waits => later p (mem_of_holdsEth rfl member waits) waits
  | tookAfter s origin isBuy fee => exact holds.rests supplied rfl (Nat.le_refl _) id later

theorem keeps_funded : (callee d).Keeps Funded (Spares d) :=
  keeps_of_moves (fun holds _ short => ⟨holds.supplied, short, holds.funded⟩) Funded.moves

/-- Unless the controller claims fees before it, the opening of the pool never gets stuck. -/
theorem run_opens_funded {balance : U256} {actions : List Action} {x : Execution}
    (early : b.timestamp.toNat < 2 ^ 64)
    (spares : (machine d).Along (fun x a _ => Callee.Allows (Spares d) x a) (deployed b balance)
      actions)
    (reached : (machine d).run (deployed b balance) actions = some x)
    {saved : State} {p : Pending} {rest : List (Callee.Frame State Pending)}
    (frames : x.frames = ⟨saved, some p⟩ :: rest) (seeding : p.seeding = true) :
    ∃ o, resume d x.env x.state p = .ok o := by
  have start : Funded b (State.initial balance) [] :=
    ⟨supplied_initial balance, early, fun _ => Nat.zero_le _⟩
  have holds : Callee.Holds Funded x.env x.state x.frames :=
    keeps_funded.run (x := deployed b balance) start spares reached
  have here := holds.here
  rw [frames] at here
  refine (resume_seeding_iff here.supplied seeding here.early).mpr ?_
  rintro eth hashLP sqrtPriceX96 liquidity rfl
  obtain ⟨same, _⟩ := (List.forall_mem_cons.mp here.supplied.opening).1
  rw [same]
  exact here.funded (.inr ⟨_, List.mem_cons_self, rfl⟩)

/-- A stranger has tried to claim fees before. -/
theorem run_oneSaleOpened : ((machine sample).run (deployed ⟨1, 1800⟩ 0)
    (.call (repeated 7, .claimFees) :: oneSaleOpened)).map
      (fun x => x.frames.map fun f => f.pending.map Pending.seeding) = some [some true] := by
  decide +kernel

theorem run_opens_funded_oneSaleOpened :
    ∃ x p, (machine sample).run (deployed ⟨1, 1800⟩ 0)
        (.call (repeated 7, .claimFees) :: oneSaleOpened) = some x ∧
      ∃ o, resume sample x.env x.state p = .ok o := by
  obtain ⟨x, reached, frames⟩ := Option.map_eq_some_iff.mp run_oneSaleOpened
  obtain ⟨⟨saved, pending⟩, rest, shape, waits, _⟩ := List.map_eq_cons_iff.mp frames
  obtain ⟨p, rfl, seeding⟩ := Option.map_eq_some_iff.mp waits
  refine ⟨x, p, reached, run_opens_funded (by decide) ?_ reached shape seeding⟩
  refine Machine.along_of_forall (fun a member _ _ => ?_) _
  simp only [oneSaleOpened, oneSale, List.cons_append, List.nil_append, List.mem_cons,
    List.not_mem_nil, or_false] at member
  rcases member with rfl | rfl | rfl
  · intro same
    exact absurd (congrArg Prod.fst same) (by decide)
  · intro same
    cases congrArg Prod.snd same
  · intro same
    cases congrArg Prod.snd same

end HashMiner.Contract.Hash
