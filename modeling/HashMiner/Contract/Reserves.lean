import HashMiner.Contract.Genesis
import HashMiner.Contract.Replay

/-!
# The tokens to be mined

Nobody but `permit2` can move the tokens of the contract, so what is still to be mined stays
there, and a mint fails for a reason of the mining only.
-/

namespace HashMiner.Contract

open Foundation Erc20

namespace Erc20

/-- All that an account has given away. -/
def sentBy (a : Address) (l : Ledger) : Nat := (l.history.map (·.sent a)).sum

/-- All that an account has been given. -/
def receivedBy (a : Address) (l : Ledger) : Nat := (l.history.map (·.received a)).sum

variable {l l' : Ledger} {a : Address}

theorem Refines.balance_eq {acc : Accounts Address} (refines : Refines l acc) :
    (l.balances a).toNat + sentBy a l = receivedBy a l := by
  rw [refines.balances]
  exact (Accounts.run_balance refines.history a).trans (Nat.zero_add _)

theorem sentBy_of_history {m : Movement Address} (latest : l'.history = l.history ++ [m]) :
    sentBy a l' = sentBy a l + m.sent a := by
  rw [sentBy, latest, List.map_append, List.sum_append, List.map_singleton, List.sum_singleton]
  rfl

theorem receivedBy_of_history {m : Movement Address} (latest : l'.history = l.history ++ [m]) :
    receivedBy a l' = receivedBy a l + m.received a := by
  rw [receivedBy, latest, List.map_append, List.sum_append, List.map_singleton, List.sum_singleton]
  rfl

/-- No one but `manager` may move the tokens of `owner`. -/
def Closed (owner manager : Address) (l : Ledger) : Prop :=
  ∀ spender, spender ≠ manager → l.allowances owner spender = 0

variable {owner manager sender : Address} {c : Call}

/-- What a call does to the tokens of an account that does not make it. -/
structure Touches (owner manager sender : Address) (c : Call) (l l' : Ledger) : Prop where
  closed : Closed owner manager l'
  received : receivedBy owner l ≤ receivedBy owner l'
  sent : sentBy owner l' = sentBy owner l ∨ ∃ receiver value, sender = manager ∧
    c = .transferFrom owner receiver value ∧ sentBy owner l' = sentBy owner l + value.toNat

theorem touches_of_call (closed : Closed owner manager l) (foreign : sender ≠ owner)
    (called : call l sender c = .ok l') : Touches owner manager sender c l l' := by
  cases c with
  | transfer receiver value =>
    have transfers := _transfer_ok.mp called
    refine ⟨?_, ?_, .inl ?_⟩
    · intro spender other
      rw [transfers.allowances]
      exact closed spender other
    · rw [receivedBy_of_history transfers.history]
      exact Nat.le_add_right ..
    · rw [sentBy_of_history transfers.history, Movement.sent, if_neg foreign, Nat.add_zero]
  | approve spender value =>
    have same := _approve_history l called
    refine ⟨?_, ?_, .inl ?_⟩
    · intro spender' other
      rw [_approve_ok called, if_pos rfl]
      change (l.approved sender spender value).allowances owner spender' = 0
      rw [approved_allowances, if_neg fun both => foreign both.1]
      exact closed spender' other
    · rw [receivedBy, receivedBy, same]
    · rw [sentBy, sentBy, same]
  | transferFrom owner' receiver value =>
    obtain ⟨between, spent, moved⟩ := bind_returns.mp called
    have transfers := _transfer_ok.mp moved
    have same := _spendAllowance_history l spent
    have latest : l'.history = l.history ++ [.move owner' receiver value.toNat] := by
      rw [transfers.history, same]
    refine ⟨?_, ?_, ?_⟩
    · intro spender other
      rw [transfers.allowances]
      rcases _spendAllowance_ok spent with ⟨_, rfl⟩ | ⟨_, covered, rfl⟩
      · exact closed spender other
      · rw [approved_allowances]
        split
        · next both =>
          obtain ⟨rfl, rfl⟩ := both
          rw [closed sender other] at covered ⊢
          rw [BitVec.le_zero_iff.mp covered]
          rfl
        · exact closed spender other
    · rw [receivedBy_of_history latest]
      exact Nat.le_add_right ..
    · rw [sentBy_of_history latest, Movement.sent]
      split
      · next own =>
        subst own
        by_cases manages : sender = manager
        · exact .inr ⟨receiver, value, manages, rfl, rfl⟩
        · refine .inl ?_
          have none := closed sender manages
          rcases _spendAllowance_ok spent with ⟨infinite, _⟩ | ⟨_, covered, _⟩
          · cases none.symm.trans infinite
          · rw [none] at covered
            rw [BitVec.le_zero_iff.mp covered]
            rfl
      · exact .inl rfl

/-- What the creation of tokens does to the tokens of an account. -/
theorem Mints.touches {account : Address} {value : U256} (mints : Mints l account value l')
    (closed : Closed owner manager l) :
    Closed owner manager l' ∧ sentBy owner l' = sentBy owner l ∧
      receivedBy owner l' = receivedBy owner l + if account = owner then value.toNat else 0 := by
  refine ⟨fun spender other => ?_, ?_, ?_⟩
  · rw [mints.allowances]
    exact closed spender other
  · rw [sentBy_of_history mints.history]
    rfl
  · rw [receivedBy_of_history mints.history]
    rfl

end Erc20

namespace Hash

variable {d : Deployment} {b : Block} {who : Option (Address × Call)} {s t : State}
variable {before after ps : List Pending}

/-- What `permit2` moves of the tokens of the contract is what has been put aside for the
pool. -/
def PullsWithin (d : Deployment) (_ : Block) (s : State) (c : Address × Call) : Prop :=
  ∀ receiver value, c = (d.permit2, .token (.transferFrom d.self receiver value)) →
    sentBy d.self s.ledger + value.toNat ≤
      s.mining.totalMiningMinted.toNat + s.genesisMinted.toNat

structure Reserved (d : Deployment) (b : Block) (s : State) (ps : List Pending) : Prop where
  supplied : Supplied s ps
  replayed : Replayed b s ps
  closed : Closed d.self d.permit2 s.ledger
  sent : sentBy d.self s.ledger ≤ s.mining.totalMiningMinted.toNat + s.genesisMinted.toNat
  received : complete s = true →
    s.genesisMinted.toNat + miningSupply.toNat ≤ receivedBy d.self s.ledger

/-- A part of a call that does not touch the tokens. -/
theorem Reserved.rests {qs : List Pending} (holds : Reserved d b s ps) (supplied : Supplied t qs)
    (replayed : Replayed b t qs) (ledger : t.ledger = s.ledger) (mining : t.mining = s.mining)
    (minted : t.genesisMinted = s.genesisMinted) : Reserved d b t qs := by
  refine ⟨supplied, replayed, ?_, ?_, ?_⟩
  · rw [ledger]
    exact holds.closed
  · rw [ledger, mining, minted]
    exact holds.sent
  · rw [ledger, minted, complete, mining]
    exact holds.received

theorem Reserved.moves (moves : Moves d b who s before t after)
    (within : ∀ c ∈ who, c.1 ≠ d.self ∧ PullsWithin d b s c)
    (holds : Reserved d b s (before ++ ps)) : Reserved d b t (after ++ ps) := by
  have supplied := holds.supplied.moves moves
  have replayed := holds.replayed.moves moves
  have sent := holds.sent
  cases moves with
  | receive s sender value => exact holds.rests supplied replayed rfl rfl rfl
  | token s sender call ledger called =>
    obtain ⟨foreign, pulls⟩ := within _ rfl
    have touches := touches_of_call holds.closed foreign called
    refine ⟨supplied, replayed, touches.closed, ?_, ?_⟩
    · rcases touches.sent with same | ⟨receiver, value, rfl, rfl, more⟩
      · exact same ▸ sent
      · exact more ▸ pulls receiver value rfl
    · exact fun done => Nat.le_trans (holds.received done) touches.received
  | sells s sold sender units value cost hashAmount ledger sells _ minted =>
    obtain ⟨_, sold⟩ := holds.supplied.sold
    have total := (sells.sold sold).2
    obtain rfl := sells.result
    obtain ⟨closed, same, _⟩ := (_mint_ok.mp minted).touches holds.closed
    refine ⟨supplied, replayed, closed, ?_, ?_⟩
    · refine Nat.le_trans (Nat.le_of_eq same) (Nat.le_trans sent (Nat.add_le_add_left ?_ _))
      exact total.symm ▸ Nat.le_add_right ..
    · intro done
      cases (show complete s = true from done).symm.trans sells.incomplete
  | refunds s sold sender units value cost hashAmount sells =>
    obtain ⟨_, amounts⟩ := holds.supplied.sold
    have total := (sells.sold amounts).2
    obtain rfl := sells.result
    refine ⟨supplied, replayed, holds.closed, ?_, ?_⟩
    · refine Nat.le_trans sent (Nat.add_le_add_left ?_ _)
      exact total.symm ▸ Nat.le_add_right ..
    · intro done
      cases (show complete s = true from done).symm.trans sells.incomplete
  | refunded s buyer cost hashAmount ledger minted =>
    obtain ⟨closed, same, more⟩ := (_mint_ok.mp minted).touches holds.closed
    refine ⟨supplied, replayed, closed, same ▸ sent, fun done => ?_⟩
    exact more ▸ Nat.le_trans (holds.received done) (Nat.le_add_right ..)
  | opens s t sender call sqrtPriceX96 opens =>
    obtain ⟨ledger, minted, rfl⟩ := opens.result
    obtain ⟨closed, same, more⟩ := (_mint_ok.mp minted).touches holds.closed
    refine ⟨supplied, replayed, closed, same ▸ sent, fun _ => ?_⟩
    have supply : (s.genesisMinted + miningSupply).toNat =
        s.genesisMinted.toNat + miningSupply.toNat := by
      rw [BitVec.toNat_add, Nat.mod_eq_of_lt opens.fits]
    rw [if_pos rfl, supply] at more
    exact Nat.le_trans (Nat.le_add_left _ _) (Nat.le_of_eq more.symm)
  | initialized s eth hashLP sqrtPriceX96 liquidity ledger approved =>
    have history := _approve_history s.ledger approved
    refine ⟨supplied, replayed, ?_, ?_, fun done => ?_⟩
    · intro spender other
      rw [_approve_ok approved, if_pos rfl]
      change (s.ledger.approved d.self d.permit2 Erc20.maxUint256).allowances d.self spender = 0
      rw [approved_allowances, if_neg fun both => other both.2.symm]
      exact holds.closed spender other
    · rw [sentBy, history]
      exact sent
    · rw [receivedBy, history]
      exact holds.received done
  | approved s eth hashLP sqrtPriceX96 liquidity => exact holds.rests supplied replayed rfl rfl rfl
  | provides s eth hashLP sqrtPriceX96 liquidity => exact holds.rests supplied replayed rfl rfl rfl
  | seeded s eth hashLP sqrtPriceX96 liquidity => exact holds.rests supplied replayed rfl rfl rfl
  | mine s sender nonce mining ledger events free mined =>
    obtain ⟨left, reward, mines⟩ := mine_ok mined
    have transfers := _transfer_ok.mp (mapError_returns.mp mines.transferred)
    refine ⟨supplied, replayed, fun spender other => ?_, ?_, fun done => ?_⟩
    · rw [transfers.allowances]
      exact holds.closed spender other
    · rw [sentBy_of_history transfers.history, Movement.sent, if_pos rfl, mines.minted,
        Nat.add_right_comm]
      exact Nat.add_le_add_right sent _
    · rw [receivedBy_of_history transfers.history]
      rw [complete, mine_genesis mined] at done
      exact Nat.le_trans (holds.received done) (Nat.le_add_right ..)
  | claims s => exact holds.rests supplied replayed rfl rfl rfl
  | claimed s amount => exact holds.rests supplied replayed rfl rfl rfl
  | rests s sender call => exact holds
  | takes s origin params fee => exact holds.rests supplied replayed rfl rfl rfl
  | took s origin fee => exact holds.rests supplied replayed rfl rfl rfl
  | takesAfter s origin params delta fee => exact holds.rests supplied replayed rfl rfl rfl
  | tookAfter s origin isBuy fee => exact holds.rests supplied replayed rfl rfl rfl

theorem keeps_reserved : (callee d).Keeps (Reserved d) (PullsWithin d) :=
  keeps_of_moves (fun holds next _ => ⟨holds.supplied, holds.replayed.advance next, holds.closed,
    holds.sent, holds.received⟩) Reserved.moves

theorem reserved_initial (b : Block) (balance : U256) :
    Reserved d b (State.initial balance) [] where
  supplied := supplied_initial balance
  replayed := replayed_initial b balance
  closed := fun _ _ => rfl
  sent := Nat.zero_le _
  received := nofun

/-- What the contract has is enough for what is still to be mined. -/
theorem Reserved.enough (holds : Reserved d b s ps) (done : complete s = true) :
    miningSupply.toNat ≤ (s.ledger.balances d.self).toNat + s.mining.totalMiningMinted.toNat := by
  obtain ⟨acc, refines, _⟩ := holds.supplied.accounts
  have balance := refines.balance_eq (a := d.self)
  have received := holds.received done
  have sent := holds.sent
  omega

/-- What a call of `mine` reads of its transaction and of the block. -/
def miningEnv (d : Deployment) (b : Block) (sender : Address) : Env :=
  ⟨d.chainId, d.self, sender, b.number⟩

/-- What a mint needs where the tokens are there. -/
structure Minable (d : Deployment) (b : Block) (s : State) (sender : Address) (nonce : U256) :
    Prop where
  free : s.entered = false
  complete : complete s = true
  sender_ne : sender ≠ zeroAddress
  supply : s.mining.totalMints.toNat < lastMint
  room : (s.mining.mintsInBlock b.number).toNat < 10
  work : workOf (miningEnv d b sender) nonce < s.mining.currentDifficulty.toNat
  unused : s.mining.usedProofs (proofKey (miningEnv d b sender) nonce) = false
  adjusts : Due s.mining → ¬ Stuck (miningEnv d b sender) s.mining

theorem Reserved.accepts {sender : Address} {nonce : U256} (holds : Reserved d b s ps)
    (minable : Minable d b s sender nonce) :
    Accepts (miningEnv d b sender) s.mining Erc20.token s.ledger nonce := by
  obtain ⟨free, done, sender_ne, supply, room, work, unused, adjusts⟩ := minable
  refine ⟨done, supply, room, work, unused, adjusts, ?_⟩
  have enough := holds.enough done
  have next : emitted (s.mining.totalMints.toNat + 1) ≤ miningSupply.toNat := by
    rw [← emitted_lastMint]
    exact emitted_mono supply
  rw [emitted_succ, ← holds.replayed.counts.emission] at next
  have word : (BitVec.ofNat 256 (reward (s.mining.totalMints.toNat + 1))).toNat =
      reward (s.mining.totalMints.toNat + 1) := by
    rw [BitVec.toNat_ofNat]
    refine Nat.mod_eq_of_lt (Nat.lt_of_le_of_lt (Nat.le_trans (Nat.le_add_left _ _) next) ?_)
    exact miningSupply.isLt
  have covered : BitVec.ofNat 256 (reward (s.mining.totalMints.toNat + 1)) ≤
      s.ledger.balances d.self := by
    rw [BitVec.le_def, word]
    omega
  have moves := _transfer_ok.mpr ⟨d.self_ne, sender_ne, covered, rfl⟩
  exact ⟨_, mapError_returns.mpr moves⟩

theorem accepts_of_start {sender : Address} {nonce : U256} {o : Outcome State Pending Returned}
    (counts : Counts s.mining b.number) (started : start d b s sender (.mine nonce) = .ok o) :
    s.entered = false ∧
      Accepts (miningEnv d b sender) s.mining Erc20.token s.ledger nonce ∧
      ∃ events, Mined (miningEnv d b sender) s.mining Erc20.token s.ledger nonce
        o.state.mining o.state.ledger events := by
  obtain ⟨s₁, enters, started⟩ := bind_returns.mp started
  obtain ⟨free, rfl⟩ := enter_ok enters
  obtain ⟨⟨mining, ledger, events⟩, mined, done⟩ := bind_returns.mp started
  cases done
  have mined : Contract.mine (miningEnv d b sender) s.mining Erc20.token s.ledger nonce =
      .ok (mining, ledger, events) := mapError_returns.mp mined
  obtain ⟨accepts, effect⟩ := accepts_of_mine counts mined
  exact ⟨free, accepts, events, effect⟩

theorem Reserved.mine_iff {sender : Address} (holds : Reserved d b s ps) (nonce : U256) :
    (∃ o, start d b s sender (.mine nonce) = .ok o) ↔ Minable d b s sender nonce := by
  constructor
  · rintro ⟨o, started⟩
    obtain ⟨free, accepts, events, effect⟩ := accepts_of_start holds.replayed.counts started
    have transfers := _transfer_ok.mp (mapError_returns.mp effect.paid)
    exact ⟨free, accepts.genesis, transfers.receiver_ne, accepts.supply, accepts.room, accepts.work,
      accepts.unused, accepts.adjusts⟩
  · intro minable
    obtain ⟨mining, ledger, events, mined⟩ :=
      mine_of_accepts holds.replayed.counts (holds.accepts minable)
    have called := mapError_returns (f := Failure.mining).mpr mined
    rw [start, Hash.mine, enter_of_free minable.free, ok_bind]
    simp only [miningEnv] at called
    rw [called]
    exact ⟨_, rfl⟩

/-- When a mint succeeds, in every state that can be reached. -/
theorem run_mine_iff {balance : U256} {actions : List Action} {x : Execution}
    (within : (machine d).Along (fun x a _ => Callee.Allows (PullsWithin d) x a)
      (deployed b balance) actions)
    (reached : (machine d).run (deployed b balance) actions = some x)
    (sender : Address) (nonce : U256) :
    (∃ o, start d x.env x.state sender (.mine nonce) = .ok o) ↔
      Minable d x.env x.state sender nonce := by
  have holds : Callee.Holds (Reserved d) x.env x.state x.frames :=
    keeps_reserved.run (x := deployed b balance) (reserved_initial b balance) within reached
  exact holds.here.mine_iff nonce

theorem run_oneSaleProvided :
    ((machine live).run (deployed ⟨25070700, 1800⟩ 0) oneSaleProvided).map
      (fun x => decide (sentBy live.self x.state.ledger + 10 ^ 21 ≤
        x.state.mining.totalMiningMinted.toNat + x.state.genesisMinted.toNat)) = some true := by
  decide +kernel

theorem run_oneSalePulled :
    ((machine live).run (deployed ⟨25070700, 1800⟩ 0) oneSalePulled).map
      (fun x => (x.state.mining.totalMints, sentBy live.self x.state.ledger)) =
        some (0, 10 ^ 21) := by
  decide +kernel

theorem pullsWithin_oneSalePulled : (machine live).Along
    (fun x a _ => Callee.Allows (PullsWithin live) x a) (deployed ⟨25070700, 1800⟩ 0)
      oneSalePulled := by
  obtain ⟨x, reached, within⟩ := Option.map_eq_some_iff.mp run_oneSaleProvided
  refine Machine.Along.append (Machine.along_of_forall (fun a member _ _ => ?_) _) reached ?_
  · simp only [oneSaleProvided, oneSaleOpened, oneSale, List.cons_append, List.nil_append,
      List.mem_cons, List.not_mem_nil, or_false] at member
    rcases member with rfl | rfl | rfl | rfl | rfl
    · intro _ _ same
      cases congrArg Prod.snd same
    · intro _ _ same
      cases congrArg Prod.snd same
    all_goals trivial
  · intro y _
    refine ⟨?_, fun _ _ => ⟨trivial, trivial⟩⟩
    intro receiver value same
    cases same
    exact of_decide_eq_true within

/-- After a pull the first mint goes through. -/
theorem start_oneSalePulled :
    ∃ x, (machine live).run (deployed ⟨25070700, 1800⟩ 0) oneSalePulled = some x ∧
      x.state.mining.totalMints = 0 ∧ sentBy live.self x.state.ledger = 10 ^ 21 ∧
      ∃ o, start live x.env x.state Chain.layoutMiner (.mine openingNonce) = .ok o := by
  obtain ⟨x, reached, shape⟩ := Option.map_eq_some_iff.mp run_oneSalePulled
  obtain ⟨y, mined, shape'⟩ := Option.map_eq_some_iff.mp run_oneSaleMined
  obtain ⟨none, pulled⟩ := Prod.mk.injEq .. ▸ shape
  obtain ⟨_, one⟩ := Prod.mk.injEq .. ▸ shape'
  obtain ⟨x', reached', last⟩ := (Machine.run_append _).mp mined
  obtain rfl := Option.some.inj (reached.symm.trans reached')
  obtain ⟨z, taken, same⟩ := (Machine.run_cons _).mp last
  obtain rfl := Option.some.inj same
  refine ⟨x, reached, none, pulled, ?_⟩
  rcases start_of_step taken with rfl | started
  · cases none.symm.trans one
  · exact started

theorem run_mine_iff_oneSalePulled :
    ∃ x, (machine live).run (deployed ⟨25070700, 1800⟩ 0) oneSalePulled = some x ∧
      sentBy live.self x.state.ledger = 10 ^ 21 ∧
      Minable live x.env x.state Chain.layoutMiner openingNonce := by
  obtain ⟨x, reached, _, pulled, started⟩ := start_oneSalePulled
  exact ⟨x, reached, pulled, (run_mine_iff pullsWithin_oneSalePulled reached _ _).mp started⟩

end Hash

end HashMiner.Contract
