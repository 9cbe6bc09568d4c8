import HashMiner.Contract.Mining
import HashMiner.Foundation.Accounts
import Mathlib.Data.Fintype.Pi

/-!
# The token

The balances are words, and some of the arithmetic on them is unchecked. The accounts that
the token stands for are those of its `Transfer` events.
-/

namespace HashMiner.Contract.Erc20

open Foundation

def zeroAddress : Address := Vector.replicate 20 0

def maxUint256 : U256 := BitVec.allOnes 256

instance : Fintype Byte := Fintype.ofEquiv (Fin (2 ^ 8)) BitVec.equivFin.symm.toEquiv

instance : Fintype Address :=
  Fintype.ofEquiv (Fin 20 → Byte) {
    toFun := Vector.ofFn
    invFun := fun v i => v[i]
    left_inv := fun f => by
      funext i
      simp
    right_inv := fun v => by
      ext i
      simp }

inductive Error where
  | invalidSender (sender : Address)
  | invalidReceiver (receiver : Address)
  | insufficientBalance (sender : Address) (balance needed : U256)
  | insufficientAllowance (spender : Address) (allowance needed : U256)
  | invalidApprover (approver : Address)
  | invalidSpender (spender : Address)
  | panic
  deriving DecidableEq

/-- The name of an error, as it stands in the interface. -/
def Error.name : Error → String
  | .invalidSender _ => "ERC20InvalidSender"
  | .invalidReceiver _ => "ERC20InvalidReceiver"
  | .insufficientBalance _ _ _ => "ERC20InsufficientBalance"
  | .insufficientAllowance _ _ _ => "ERC20InsufficientAllowance"
  | .invalidApprover _ => "ERC20InvalidApprover"
  | .invalidSpender _ => "ERC20InvalidSpender"
  | .panic => "Panic"

inductive Event where
  | transfer (sender receiver : Address) (value : U256)
  | approval (owner spender : Address) (value : U256)

structure Ledger where
  balances : Address → U256
  allowances : Address → Address → U256
  totalSupply : U256
  log : List Event

def Ledger.empty : Ledger := ⟨fun _ => 0, fun _ _ => 0, 0, []⟩

variable (l : Ledger)

def Ledger.emit (e : Event) : Ledger := { l with log := l.log ++ [e] }

/-- The first half of `_update`. -/
def debit (sender : Address) (value : U256) : Except Error Ledger :=
  if sender = zeroAddress then do
    let totalSupply ← addChecked .panic l.totalSupply value
    return { l with totalSupply }
  else do
    let fromBalance := l.balances sender
    revertIf (fromBalance < value) (.insufficientBalance sender fromBalance value)
    return { l with balances := Function.update l.balances sender (fromBalance - value) }

/-- The second half, which is unchecked. -/
def credit (receiver : Address) (value : U256) : Ledger :=
  if receiver = zeroAddress then { l with totalSupply := l.totalSupply - value }
  else { l with
    balances := Function.update l.balances receiver (l.balances receiver + value) }

def _update (sender receiver : Address) (value : U256) : Except Error Ledger := do
  let l ← debit l sender value
  let l := credit l receiver value
  return l.emit (.transfer sender receiver value)

def _transfer (sender receiver : Address) (value : U256) : Except Error Ledger := do
  revertIf (sender = zeroAddress) (.invalidSender zeroAddress)
  revertIf (receiver = zeroAddress) (.invalidReceiver zeroAddress)
  _update l sender receiver value

def _mint (account : Address) (value : U256) : Except Error Ledger := do
  revertIf (account = zeroAddress) (.invalidReceiver zeroAddress)
  _update l zeroAddress account value

def _approve (owner spender : Address) (value : U256) (emitEvent : Bool) :
    Except Error Ledger := do
  revertIf (owner = zeroAddress) (.invalidApprover zeroAddress)
  revertIf (spender = zeroAddress) (.invalidSpender zeroAddress)
  let l := { l with
    allowances :=
      Function.update l.allowances owner (Function.update (l.allowances owner) spender value) }
  return if emitEvent then l.emit (.approval owner spender value) else l

def _spendAllowance (owner spender : Address) (value : U256) : Except Error Ledger := do
  let currentAllowance := l.allowances owner spender
  if currentAllowance < maxUint256 then
    revertIf (currentAllowance < value) (.insufficientAllowance spender currentAllowance value)
    _approve l owner spender (currentAllowance - value) false
  else
    return l

inductive Call where
  | transfer (receiver : Address) (value : U256)
  | approve (spender : Address) (value : U256)
  | transferFrom (owner receiver : Address) (value : U256)
  deriving DecidableEq

/-- The functions that an account `sender` can call. -/
def call (sender : Address) : Call → Except Error Ledger
  | .transfer receiver value => _transfer l sender receiver value
  | .approve spender value => _approve l sender spender value true
  | .transferFrom owner receiver value => do
    let l ← _spendAllowance l owner sender value
    _transfer l owner receiver value

/-- `_transfer`, as the mining uses it. -/
def token : Token Ledger where
  transfer sender receiver value l := (_transfer l sender receiver value).mapError Error.name

section Transfers

variable {l} {l' : Ledger} {sender receiver : Address} {value : U256}

/-- What a transfer that succeeds has done. -/
structure Transfers (l : Ledger) (sender receiver : Address) (value : U256) (l' : Ledger) :
    Prop where
  sender_ne : sender ≠ zeroAddress
  receiver_ne : receiver ≠ zeroAddress
  covered : value ≤ l.balances sender
  result : l' = (credit
    { l with balances := Function.update l.balances sender (l.balances sender - value) }
    receiver value).emit (.transfer sender receiver value)

theorem _transfer_ok : _transfer l sender receiver value = .ok l' ↔
    Transfers l sender receiver value l' := by
  constructor
  · intro moved
    simp only [_transfer, _update, debit] at moved
    obtain ⟨_, sends, moved⟩ := bind_returns.mp moved
    obtain ⟨_, receives, moved⟩ := bind_returns.mp moved
    rw [revertIf_ok] at sends receives
    rw [if_neg sends] at moved
    obtain ⟨debited, taken, moved⟩ := bind_returns.mp moved
    obtain ⟨_, covered, taken⟩ := bind_returns.mp taken
    cases taken
    cases moved
    exact ⟨sends, receives, BitVec.not_lt.mp (revertIf_ok.mp covered), rfl⟩
  · rintro ⟨sends, receives, covered, rfl⟩
    simp only [_transfer, _update, debit, revertIf, if_neg sends, if_neg receives,
      if_neg (BitVec.not_lt.mpr covered)]
    rfl

/-- What the creation of tokens has done. -/
structure Mints (l : Ledger) (account : Address) (value : U256) (l' : Ledger) : Prop where
  account_ne : account ≠ zeroAddress
  fits : l.totalSupply.toNat + value.toNat < 2 ^ 256
  result : l' = (credit { l with totalSupply := l.totalSupply + value } account value).emit
    (.transfer zeroAddress account value)

theorem _mint_ok : _mint l receiver value = .ok l' ↔ Mints l receiver value l' := by
  constructor
  · intro minted
    simp only [_mint, _update] at minted
    obtain ⟨_, receives, minted⟩ := bind_returns.mp minted
    rw [revertIf_ok] at receives
    obtain ⟨debited, taken, minted⟩ := bind_returns.mp minted
    rw [debit, if_pos rfl] at taken
    obtain ⟨total, added, taken⟩ := bind_returns.mp taken
    unfold addChecked at added
    split at added <;> cases added
    next fits =>
    cases taken
    cases minted
    exact ⟨receives, Nat.not_le.mp fits, rfl⟩
  · rintro ⟨receives, fits, rfl⟩
    rw [_mint, _update, debit, revertIf, if_neg receives, if_pos rfl, addChecked,
      if_neg (Nat.not_le.mpr fits)]
    rfl

def Ledger.approved (l : Ledger) (owner spender : Address) (value : U256) : Ledger :=
  { l with
    allowances :=
      Function.update l.allowances owner (Function.update (l.allowances owner) spender value) }

theorem _approve_ok {owner spender : Address} {emitEvent : Bool}
    (approved : _approve l owner spender value emitEvent = .ok l') :
    l' = if emitEvent then (l.approved owner spender value).emit (.approval owner spender value)
      else l.approved owner spender value := by
  simp only [_approve] at approved
  obtain ⟨_, _, approved⟩ := bind_returns.mp approved
  obtain ⟨_, _, approved⟩ := bind_returns.mp approved
  cases approved
  rfl

/-- An allowance that is not the greatest word is spent; that one is left as it is. -/
theorem _spendAllowance_ok {owner spender : Address}
    (spent : _spendAllowance l owner spender value = .ok l') :
    l.allowances owner spender = maxUint256 ∧ l' = l ∨
      l.allowances owner spender ≠ maxUint256 ∧ value ≤ l.allowances owner spender ∧
        l' = l.approved owner spender (l.allowances owner spender - value) := by
  simp only [_spendAllowance] at spent
  split at spent
  · next finite =>
    obtain ⟨_, covered, spent⟩ := bind_returns.mp spent
    refine .inr ⟨BitVec.ne_of_lt finite, BitVec.not_lt.mp (revertIf_ok.mp covered), ?_⟩
    exact _approve_ok spent
  · next infinite =>
    cases spent
    refine .inl ⟨BitVec.eq_of_toNat_eq ?_, rfl⟩
    have most : maxUint256.toNat ≤ (l.allowances owner spender).toNat := Nat.not_lt.mp infinite
    have word := (l.allowances owner spender).isLt
    have last : maxUint256.toNat = 2 ^ 256 - 1 := BitVec.toNat_allOnes
    omega

end Transfers

/-! ## The accounts that the token stands for -/

/-- A `Transfer` from the zero address creates what it brings. -/
def Event.movement? : Event → Option (Movement Address)
  | .transfer sender receiver value =>
    some (if sender = zeroAddress then .issue receiver value.toNat
      else .move sender receiver value.toNat)
  | .approval _ _ _ => none

def Ledger.history : List (Movement Address) := l.log.filterMap Event.movement?

/-- The words are the numbers that the events lead to. -/
structure Refines (l : Ledger) (acc : Accounts Address) : Prop where
  balances : ∀ a, (l.balances a).toNat = acc.balance a
  supply : l.totalSupply.toNat = acc.supply
  history : Accounts.machine.run Accounts.empty l.history = some acc

theorem toNat_update {f : Address → U256} {g : Address → Nat} (same : ∀ a, (f a).toNat = g a)
    (a : Address) {x : U256} {n : Nat} (value : x.toNat = n) (b : Address) :
    (Function.update f a x b).toNat = Function.update g a n b := by
  rcases eq_or_ne b a with rfl | other
  · rw [Function.update_self, Function.update_self, value]
  · rw [Function.update_of_ne other, Function.update_of_ne other, same]

theorem history_emit (e : Event) :
    (l.emit e).history = l.history ++ (e.movement?).toList := by
  rw [Ledger.history, Ledger.emit, List.filterMap_append, Ledger.history]
  cases h : e.movement? <;> simp [h]

theorem Transfers.history {l' : Ledger} {sender receiver : Address} {value : U256}
    (transfers : Transfers l sender receiver value l') :
    l'.history = l.history ++ [.move sender receiver value.toNat] := by
  rw [transfers.result, history_emit, Event.movement?, if_neg transfers.sender_ne, credit,
    if_neg transfers.receiver_ne]
  rfl

theorem Mints.history {l' : Ledger} {account : Address} {value : U256}
    (mints : Mints l account value l') :
    l'.history = l.history ++ [.issue account value.toNat] := by
  rw [mints.result, history_emit, Event.movement?, if_pos rfl, credit, if_neg mints.account_ne]
  rfl

/-- An approval is no movement. -/
theorem _approve_history {l' : Ledger} {owner spender : Address} {value : U256} {emitEvent : Bool}
    (approved : _approve l owner spender value emitEvent = .ok l') : l'.history = l.history := by
  rw [_approve_ok approved]
  split
  · rw [history_emit, Event.movement?, Option.toList_none, List.append_nil]
    rfl
  · rfl

theorem _spendAllowance_history {l' : Ledger} {owner spender : Address} {value : U256}
    (spent : _spendAllowance l owner spender value = .ok l') : l'.history = l.history := by
  rcases _spendAllowance_ok spent with ⟨_, rfl⟩ | ⟨_, _, rfl⟩ <;> rfl

theorem run_snoc {acc acc' : Accounts Address} {history : List (Movement Address)}
    {m : Movement Address} (reached : Accounts.machine.run Accounts.empty history = some acc)
    (moved : acc.step m = some acc') :
    Accounts.machine.run Accounts.empty (history ++ [m]) = some acc' :=
  Accounts.machine.run_append.mpr
    ⟨acc, reached, Accounts.machine.run_cons.mpr ⟨acc', moved, rfl⟩⟩

section Refinement

variable {l} {l' : Ledger} {acc : Accounts Address} {sender receiver : Address} {value : U256}

/-- A transfer moves the amount, and neither of its unchecked operations wraps. -/
theorem Refines.transfer (refines : Refines l acc)
    (moved : _transfer l sender receiver value = .ok l') :
    ∃ acc', acc.step (.move sender receiver value.toNat) = some acc' ∧ Refines l' acc' := by
  obtain ⟨sends, receives, covered, rfl⟩ := _transfer_ok.mp moved
  have enough : value.toNat ≤ acc.balance sender := by
    rw [← refines.balances]
    exact covered
  have steps : acc.step (.move sender receiver value.toNat) =
      some (acc.move sender receiver value.toNat enough) := dif_pos enough
  have taken := toNat_update refines.balances sender (x := l.balances sender - value)
    (n := acc.balance sender - value.toNat) (by
      rw [BitVec.toNat_sub_of_le covered, refines.balances])
  have fits := acc.taken_add_le sender receiver enough
  rw [← taken receiver, ← refines.supply] at fits
  refine ⟨_, steps, ?_, ?_, ?_⟩
  · simp only [credit, if_neg receives, Ledger.emit, Accounts.move]
    refine toNat_update taken receiver ?_
    rw [BitVec.toNat_add, Nat.mod_eq_of_lt (Nat.lt_of_le_of_lt fits l.totalSupply.isLt), taken]
  · simp only [credit, if_neg receives, Ledger.emit, Accounts.move]
    exact refines.supply
  · rw [(_transfer_ok.mp moved).history]
    exact run_snoc refines.history steps

theorem Refines.mint (refines : Refines l acc) (minted : _mint l receiver value = .ok l') :
    Refines l' (acc.issue receiver value.toNat) := by
  obtain ⟨receives, fits, rfl⟩ := _mint_ok.mp minted
  have within := acc.balance_le_supply receiver
  rw [← refines.balances, ← refines.supply] at within
  refine ⟨?_, ?_, ?_⟩
  · simp only [credit, if_neg receives, Ledger.emit, Accounts.issue]
    refine toNat_update refines.balances receiver ?_
    rw [BitVec.toNat_add, Nat.mod_eq_of_lt (by omega), refines.balances]
  · simp only [credit, if_neg receives, Ledger.emit, Accounts.issue]
    rw [BitVec.toNat_add, Nat.mod_eq_of_lt fits, refines.supply]
  · rw [(_mint_ok.mp minted).history]
    exact run_snoc refines.history rfl

/-- An approval changes nothing of this. -/
theorem Refines.approved {emitEvent : Bool} (refines : Refines l acc) {owner spender : Address}
    (approved : _approve l owner spender value emitEvent = .ok l') : Refines l' acc := by
  have history : Accounts.machine.run Accounts.empty l'.history = some acc := by
    rw [_approve_history l approved]
    exact refines.history
  have result := _approve_ok approved
  split at result <;> cases result <;> exact ⟨refines.balances, refines.supply, history⟩

theorem Refines.spent (refines : Refines l acc) {owner spender : Address}
    (spent : _spendAllowance l owner spender value = .ok l') : Refines l' acc := by
  rcases _spendAllowance_ok spent with ⟨_, rfl⟩ | ⟨_, _, rfl⟩
  · exact refines
  · exact ⟨refines.balances, refines.supply, refines.history⟩

/-- Every call of the token is a movement of the accounts that covers it, or none. -/
theorem Refines.call (refines : Refines l acc) {c : Call}
    (called : call l sender c = .ok l') : ∃ acc', Refines l' acc' ∧ acc'.supply = acc.supply := by
  cases c with
  | transfer receiver value =>
    obtain ⟨acc', steps, refines'⟩ := refines.transfer called
    exact ⟨acc', refines', Accounts.step_supply steps⟩
  | approve spender value => exact ⟨acc, refines.approved called, rfl⟩
  | transferFrom owner receiver value =>
    obtain ⟨spent, spends, moved⟩ := bind_returns.mp called
    obtain ⟨acc', steps, refines'⟩ := (refines.spent spends).transfer moved
    exact ⟨acc', refines', Accounts.step_supply steps⟩

end Refinement

/-! ## Allowances -/

/-- A call that reverts leaves everything as it was. -/
def machine : Machine Ledger (Address × Call) where
  step l e :=
    match call l e.1 e.2 with
    | .ok l' => some l'
    | .error _ => some l

/-- What happens to the allowance of an owner for a spender. -/
inductive Grant where
  | granted (value : U256)
  | spent (value : U256)

def Grant.grantedValue : Grant → Nat
  | .granted value => value.toNat
  | .spent _ => 0

def Grant.spentValue : Grant → Nat
  | .granted _ => 0
  | .spent value => value.toNat

/-- The calls that succeed, as they are seen from one allowance. -/
def grants (owner spender : Address) (l : Ledger) (e : Address × Call) : List Grant :=
  match call l e.1 e.2 with
  | .ok _ =>
    match e.2 with
    | .approve spender' value => if e.1 = owner ∧ spender' = spender then [.granted value] else []
    | .transferFrom owner' _ value =>
      if owner' = owner ∧ e.1 = spender then [.spent value] else []
    | .transfer _ _ => []
  | .error _ => []

theorem approved_allowances (owner owner' spender spender' : Address) (value : U256) :
    (l.approved owner' spender' value).allowances owner spender =
      if owner' = owner ∧ spender' = spender then value else l.allowances owner spender := by
  simp only [Ledger.approved]
  by_cases same : owner' = owner
  · subst same
    by_cases also : spender' = spender
    · subst also
      simp
    · simp [also, Function.update_of_ne (Ne.symm also)]
  · simp [same, Function.update_of_ne (Ne.symm same)]

section Allowances

variable {l} {l' : Ledger} {owner spender : Address}

theorem Transfers.allowances {sender receiver : Address} {value : U256}
    (transfers : Transfers l sender receiver value l') : l'.allowances = l.allowances := by
  rw [transfers.result, credit, if_neg transfers.receiver_ne]
  rfl

theorem Mints.allowances {account : Address} {value : U256} (mints : Mints l account value l') :
    l'.allowances = l.allowances := by
  rw [mints.result, credit, if_neg mints.account_ne]
  rfl

/-- What one call does to an allowance. -/
inductive Spends (l : Ledger) (owner spender : Address) (l' : Ledger) : List Grant → Prop
  | rests : l'.allowances owner spender = l.allowances owner spender → Spends l owner spender l' []
  | granted (value : U256) : l'.allowances owner spender = value →
      Spends l owner spender l' [.granted value]
  | spent (value : U256) : l.allowances owner spender ≠ maxUint256 →
      value ≤ l.allowances owner spender →
      l'.allowances owner spender = l.allowances owner spender - value →
      Spends l owner spender l' [.spent value]
  | infinite (value : U256) : l.allowances owner spender = maxUint256 →
      l'.allowances owner spender = maxUint256 → Spends l owner spender l' [.spent value]

theorem spends_of_step {e : Address × Call} (taken : machine.step l e = some l') :
    Spends l owner spender l' (grants owner spender l e) := by
  obtain ⟨sender, c⟩ := e
  simp only [machine, grants] at taken ⊢
  split at taken
  · next next called =>
    cases taken
    cases c with
    | transfer receiver value =>
      exact .rests (congrFun (congrFun (_transfer_ok.mp called).allowances owner) spender)
    | approve spender' value =>
      have result := congrArg (fun l => l.allowances owner spender) (_approve_ok called)
      have allowance := approved_allowances l owner sender spender spender' value
      simp only [if_true, Ledger.emit] at result
      rw [allowance] at result
      dsimp only
      split at result
      · next same =>
        rw [if_pos same]
        exact .granted value result
      · next other =>
        rw [if_neg other]
        exact .rests result
    | transferFrom owner' receiver value =>
      obtain ⟨between, spends, moved⟩ := bind_returns.mp called
      have kept := congrFun (congrFun (_transfer_ok.mp moved).allowances owner) spender
      dsimp only
      rcases _spendAllowance_ok spends with ⟨infinite, rfl⟩ | ⟨finite, covered, rfl⟩
      · split
        · next same =>
          obtain ⟨rfl, rfl⟩ := same
          exact .infinite value infinite (kept.trans infinite)
        · exact .rests kept
      · rw [approved_allowances] at kept
        split
        · next same =>
          rw [if_pos same] at kept
          obtain ⟨rfl, rfl⟩ := same
          exact .spent value finite covered kept
        · next other =>
          rw [if_neg other] at kept
          exact .rests kept
  · cases taken
    exact .rests rfl

/-- What is spent and what is left have been granted, as long as nothing infinite has been. -/
def Covered (initial : Nat) (owner spender : Address) (p : Ledger × List Grant) : Prop :=
  (∀ value, Grant.granted value ∈ p.2 → value ≠ maxUint256) →
    p.1.allowances owner spender ≠ maxUint256 ∧
      (p.2.map Grant.spentValue).sum + (p.1.allowances owner spender).toNat ≤
        initial + (p.2.map Grant.grantedValue).sum

theorem Covered.step {initial : Nat} {p q : Ledger × List Grant} {e : Address × Call}
    (covered : Covered initial owner spender p)
    (taken : (machine.logged (grants owner spender)).step p e = some q) :
    Covered initial owner spender q := by
  obtain ⟨called, extended⟩ := (Machine.logged_step _).mp taken
  intro finite
  rw [extended] at finite ⊢
  obtain ⟨before, least⟩ := covered fun value member => finite value (List.mem_append_left _ member)
  have latest := fun value member => finite value (List.mem_append_right p.2 member)
  have spends : Spends p.1 owner spender q.1 (grants owner spender p.1 e) := spends_of_step called
  generalize grants owner spender p.1 e = out at spends latest ⊢
  rw [List.map_append, List.sum_append, List.map_append, List.sum_append]
  cases spends with
  | rests same =>
    rw [same]
    exact ⟨before, by simpa using least⟩
  | granted value now =>
    rw [now]
    refine ⟨latest value List.mem_cons_self, ?_⟩
    simp only [List.map_cons, List.map_nil, List.sum_cons, List.sum_nil, Grant.spentValue,
      Grant.grantedValue]
    omega
  | spent value _ within now =>
    have less : (p.1.allowances owner spender - value).toNat =
        (p.1.allowances owner spender).toNat - value.toNat := BitVec.toNat_sub_of_le within
    have le : value.toNat ≤ (p.1.allowances owner spender).toNat := within
    have most : maxUint256.toNat = 2 ^ 256 - 1 := BitVec.toNat_allOnes
    have word := (p.1.allowances owner spender).isLt
    rw [now]
    refine ⟨fun infinite => ?_, ?_⟩
    · have same := congrArg BitVec.toNat infinite
      refine before (BitVec.eq_of_toNat_eq ?_)
      omega
    · simp only [List.map_cons, List.map_nil, List.sum_cons, List.sum_nil, Grant.spentValue,
        Grant.grantedValue]
      omega
  | infinite value was _ => exact absurd was before

/-- A spender moves no more than it was allowed to, whatever is approved when. -/
theorem run_spends {es : List (Address × Call)} {log : List Grant}
    (finite : l.allowances owner spender ≠ maxUint256)
    (granted : ∀ value, Grant.granted value ∈ log → value ≠ maxUint256)
    (reached : (machine.logged (grants owner spender)).run (l, []) es = some (l', log)) :
    (log.map Grant.spentValue).sum + (l'.allowances owner spender).toNat ≤
      (l.allowances owner spender).toNat + (log.map Grant.grantedValue).sum := by
  have start : Covered (l.allowances owner spender).toNat owner spender (l, []) :=
    fun _ => ⟨finite, by simp⟩
  have covered := Machine.invariant_run _ (fun _ _ _ inv taken => Covered.step inv taken) start
    reached
  exact (covered granted).2

/-- A ledger where one account has nine tokens. -/
def nineTokens (owner : Address) : Ledger :=
  { Ledger.empty with
    balances := Function.update (fun _ => 0) owner 9
    totalSupply := 9 }

/-- Four of nine tokens are allowed, and three of these are taken. -/
theorem run_spends_nineTokens :
    ∃ l' log, (machine.logged (grants (Vector.replicate 20 1) (Vector.replicate 20 2))).run
        (nineTokens (Vector.replicate 20 1), [])
        [(Vector.replicate 20 1, .approve (Vector.replicate 20 2) 4),
          (Vector.replicate 20 2,
            .transferFrom (Vector.replicate 20 1) (Vector.replicate 20 3) 3)] = some (l', log) ∧
      (log.map Grant.spentValue).sum = 3 ∧
      (l'.allowances (Vector.replicate 20 1) (Vector.replicate 20 2)).toNat ≤ 1 := by
  have reached : (machine.logged (grants (Vector.replicate 20 1) (Vector.replicate 20 2))).run
      (nineTokens (Vector.replicate 20 1), [])
      [(Vector.replicate 20 1, .approve (Vector.replicate 20 2) 4),
        (Vector.replicate 20 2,
          .transferFrom (Vector.replicate 20 1) (Vector.replicate 20 3) 3)] =
      some (_, [.granted 4, .spent 3]) := rfl
  have granted : ∀ value, Grant.granted value ∈ [Grant.granted 4, .spent 3] →
      value ≠ maxUint256 := by
    intro value member
    rcases List.mem_cons.mp member with same | member
    · cases same
      decide
    · cases List.mem_singleton.mp member
  refine ⟨_, _, reached, rfl, ?_⟩
  have least := run_spends (by decide) granted reached
  exact Nat.le_of_add_le_add_left least

end Allowances

end HashMiner.Contract.Erc20
