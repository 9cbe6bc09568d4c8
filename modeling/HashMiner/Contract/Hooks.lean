import HashMiner.Contract.Hash
import HashMiner.Chain.Contract
import Mathlib.Tactic.IntervalCases

/-!
# The hooks that an address has

The pool manager reads off the address of a contract which of its hooks are called and whether
they return amounts. The constructor checks that these are the hooks that the contract means
to have.
-/

namespace HashMiner.Contract.Hooks

open Foundation Hash Erc20

inductive Error where
  | require
  | hookAddressNotValid (hooks : Address)
  | hookCallFailed (reason : Failure)
  | hookDeltaExceedsSwapAmount
  | safeCastOverflow
  | overflow

/-! ## Permissions -/

/-- `1 << i` -/
def flag (i : Nat) : U160 := 1 <<< i

def beforeInitializeFlag : U160 := flag 13

def afterInitializeFlag : U160 := flag 12

def beforeAddLiquidityFlag : U160 := flag 11

def afterAddLiquidityFlag : U160 := flag 10

def beforeRemoveLiquidityFlag : U160 := flag 9

def afterRemoveLiquidityFlag : U160 := flag 8

def beforeSwapFlag : U160 := flag 7

def afterSwapFlag : U160 := flag 6

def beforeDonateFlag : U160 := flag 5

def afterDonateFlag : U160 := flag 4

def beforeSwapReturnsDeltaFlag : U160 := flag 3

def afterSwapReturnsDeltaFlag : U160 := flag 2

def afterAddLiquidityReturnsDeltaFlag : U160 := flag 1

def afterRemoveLiquidityReturnsDeltaFlag : U160 := flag 0

structure Permissions where
  beforeInitialize : Bool
  afterInitialize : Bool
  beforeAddLiquidity : Bool
  afterAddLiquidity : Bool
  beforeRemoveLiquidity : Bool
  afterRemoveLiquidity : Bool
  beforeSwap : Bool
  afterSwap : Bool
  beforeDonate : Bool
  afterDonate : Bool
  beforeSwapReturnDelta : Bool
  afterSwapReturnDelta : Bool
  afterAddLiquidityReturnDelta : Bool
  afterRemoveLiquidityReturnDelta : Bool

/-- `uint160(address(self))` -/
def word (self : Address) : U160 := BitVec.ofNat 160 (beNat self.toList)

def hasPermission (self : Address) (flag : U160) : Bool := word self &&& flag != 0

def validateHookPermissions (self : Address) (permissions : Permissions) : Except Error Unit :=
  revertIf
    (permissions.beforeInitialize != hasPermission self beforeInitializeFlag
      || permissions.afterInitialize != hasPermission self afterInitializeFlag
      || permissions.beforeAddLiquidity != hasPermission self beforeAddLiquidityFlag
      || permissions.afterAddLiquidity != hasPermission self afterAddLiquidityFlag
      || permissions.beforeRemoveLiquidity != hasPermission self beforeRemoveLiquidityFlag
      || permissions.afterRemoveLiquidity != hasPermission self afterRemoveLiquidityFlag
      || permissions.beforeSwap != hasPermission self beforeSwapFlag
      || permissions.afterSwap != hasPermission self afterSwapFlag
      || permissions.beforeDonate != hasPermission self beforeDonateFlag
      || permissions.afterDonate != hasPermission self afterDonateFlag
      || permissions.beforeSwapReturnDelta != hasPermission self beforeSwapReturnsDeltaFlag
      || permissions.afterSwapReturnDelta != hasPermission self afterSwapReturnsDeltaFlag
      || permissions.afterAddLiquidityReturnDelta !=
        hasPermission self afterAddLiquidityReturnsDeltaFlag
      || permissions.afterRemoveLiquidityReturnDelta !=
        hasPermission self afterRemoveLiquidityReturnsDeltaFlag)
    (.hookAddressNotValid self)

/-- `_permissions` of the contract. -/
def permissions : Permissions where
  beforeInitialize := true
  afterInitialize := false
  beforeAddLiquidity := false
  afterAddLiquidity := false
  beforeRemoveLiquidity := false
  afterRemoveLiquidity := false
  beforeSwap := true
  afterSwap := true
  beforeDonate := false
  afterDonate := false
  beforeSwapReturnDelta := true
  afterSwapReturnDelta := true
  afterAddLiquidityReturnDelta := false
  afterRemoveLiquidityReturnDelta := false

/-- What the address asks for, flag by flag. -/
def permissionsOf (self : Address) : Permissions where
  beforeInitialize := hasPermission self beforeInitializeFlag
  afterInitialize := hasPermission self afterInitializeFlag
  beforeAddLiquidity := hasPermission self beforeAddLiquidityFlag
  afterAddLiquidity := hasPermission self afterAddLiquidityFlag
  beforeRemoveLiquidity := hasPermission self beforeRemoveLiquidityFlag
  afterRemoveLiquidity := hasPermission self afterRemoveLiquidityFlag
  beforeSwap := hasPermission self beforeSwapFlag
  afterSwap := hasPermission self afterSwapFlag
  beforeDonate := hasPermission self beforeDonateFlag
  afterDonate := hasPermission self afterDonateFlag
  beforeSwapReturnDelta := hasPermission self beforeSwapReturnsDeltaFlag
  afterSwapReturnDelta := hasPermission self afterSwapReturnsDeltaFlag
  afterAddLiquidityReturnDelta := hasPermission self afterAddLiquidityReturnsDeltaFlag
  afterRemoveLiquidityReturnDelta := hasPermission self afterRemoveLiquidityReturnsDeltaFlag

theorem validateHookPermissions_ok (self : Address) (p : Permissions) :
    validateHookPermissions self p = .ok () ↔ p = permissionsOf self := by
  cases p
  rw [validateHookPermissions, revertIf_ok]
  simp only [permissionsOf, Permissions.mk.injEq, bne_iff_ne, Bool.or_eq_true, not_or, ne_eq,
    not_not, and_assoc]

theorem hasPermission_flag (self : Address) (i : Nat) (within : i < 160) :
    hasPermission self (flag i) = (word self).getLsbD i := by
  rw [hasPermission, show flag i = BitVec.twoPow 160 i from rfl, BitVec.and_twoPow]
  cases set : (word self).getLsbD i with
  | false => rfl
  | true =>
    rw [if_pos rfl, bne_iff_ne]
    intro zero
    have bit := congrArg (BitVec.getLsbD · i) zero
    simp [within] at bit

/-- The contract's permissions, bit by bit. -/
theorem low_bits_iff (w : U160) : w.setWidth 14 = 0x20cc ↔
    ∀ i < 14, w.getLsbD i = (0x20cc : BitVec 14).getLsbD i := by
  constructor
  · intro same i within
    rw [← same, BitVec.getLsbD_setWidth, decide_eq_true within, Bool.true_and]
  · intro bits
    apply BitVec.eq_of_getLsbD_eq
    intro i within
    rw [BitVec.getLsbD_setWidth, decide_eq_true within, Bool.true_and]
    exact bits i within

/-- The low bits of the address are `10000011001100`. -/
theorem permissions_iff (self : Address) :
    permissions = permissionsOf self ↔ (word self).setWidth 14 = 0x20cc := by
  rw [low_bits_iff]
  simp (disch := decide) only [permissions, permissionsOf, Permissions.mk.injEq,
    beforeInitializeFlag, afterInitializeFlag, beforeAddLiquidityFlag, afterAddLiquidityFlag,
    beforeRemoveLiquidityFlag, afterRemoveLiquidityFlag, beforeSwapFlag, afterSwapFlag,
    beforeDonateFlag, afterDonateFlag, beforeSwapReturnsDeltaFlag, afterSwapReturnsDeltaFlag,
    afterAddLiquidityReturnsDeltaFlag, afterRemoveLiquidityReturnsDeltaFlag, hasPermission_flag]
  constructor
  · rintro ⟨b13, b12, b11, b10, b9, b8, b7, b6, b5, b4, b3, b2, b1, b0⟩
    intro i within
    interval_cases i
    exacts [b0.symm, b1.symm, b2.symm, b3.symm, b4.symm, b5.symm, b6.symm, b7.symm, b8.symm,
      b9.symm, b10.symm, b11.symm, b12.symm, b13.symm]
  · intro bits
    have bit (i : Nat) (within : i < 14) := (bits i within).symm
    exact ⟨bit 13 (by decide), bit 12 (by decide), bit 11 (by decide), bit 10 (by decide),
      bit 9 (by decide), bit 8 (by decide), bit 7 (by decide), bit 6 (by decide),
      bit 5 (by decide), bit 4 (by decide), bit 3 (by decide), bit 2 (by decide),
      bit 1 (by decide), bit 0 (by decide)⟩

theorem validateHookPermissions_iff (self : Address) :
    validateHookPermissions self permissions = .ok () ↔ (word self).setWidth 14 = 0x20cc :=
  (validateHookPermissions_ok self permissions).trans (permissions_iff self)

theorem ne_zeroAddress {self : Address} (valid : (word self).setWidth 14 = 0x20cc) :
    self ≠ zeroAddress := by
  rintro rfl
  exact absurd valid (by decide)

/-! ## The constructor -/

/-- What the constructor is given and what it finds out. -/
structure Creation where
  chainId : U256
  self : Address
  poolManager : Address
  positionManager : Address
  permit2 : Address
  origin : Address
  timestamp : U256

def construct (c : Creation) : Except Error Deployment :=
  if poolManager_ne : c.poolManager ≠ zeroAddress then
    if positionManager_ne : c.positionManager ≠ zeroAddress then
      if permit2_ne : c.permit2 ≠ zeroAddress then
        match valid : validateHookPermissions c.self permissions with
        | .ok _ => .ok {
            chainId := c.chainId
            self := c.self
            poolManager := c.poolManager
            positionManager := c.positionManager
            permit2 := c.permit2
            controller := c.origin
            deployedAt := c.timestamp
            self_ne := ne_zeroAddress ((validateHookPermissions_iff _).mp valid)
            poolManager_ne, positionManager_ne, permit2_ne }
        | .error e => .error e
      else .error .require
    else .error .require
  else .error .require

theorem construct_ok {c : Creation} {d : Deployment} (built : construct c = .ok d) :
    c.poolManager ≠ zeroAddress ∧ c.positionManager ≠ zeroAddress ∧ c.permit2 ≠ zeroAddress ∧
      d.self = c.self ∧ (word c.self).setWidth 14 = 0x20cc := by
  unfold construct at built
  split at built
  · next poolManager =>
    split at built
    · next positionManager =>
      split at built
      · next permit2 =>
        split at built
        · next valid =>
          cases built
          exact ⟨poolManager, positionManager, permit2, rfl,
            (validateHookPermissions_iff _).mp valid⟩
        · cases built
      · cases built
    · cases built
  · cases built

/-- The contract can be created where the address has each of its permissions and no other
one, which is said by the low bits. -/
theorem construct_iff (c : Creation) :
    ((∃ d, construct c = .ok d) ↔
      c.poolManager ≠ zeroAddress ∧ c.positionManager ≠ zeroAddress ∧ c.permit2 ≠ zeroAddress ∧
        permissions = permissionsOf c.self) ∧
    (permissions = permissionsOf c.self ↔ (word c.self).setWidth 14 = 0x20cc) := by
  refine ⟨⟨?_, ?_⟩, permissions_iff c.self⟩
  · rintro ⟨d, built⟩
    obtain ⟨poolManager, positionManager, permit2, _, hooked⟩ := construct_ok built
    exact ⟨poolManager, positionManager, permit2, (permissions_iff c.self).mpr hooked⟩
  · rintro ⟨poolManager, positionManager, permit2, asked⟩
    have valid := (validateHookPermissions_ok c.self permissions).mpr asked
    unfold construct
    rw [dif_pos poolManager, dif_pos positionManager, dif_pos permit2]
    split
    · exact ⟨_, rfl⟩
    · next refused => cases refused.symm.trans valid

/-- The address on the chain is one. -/
theorem low_contract : (word Chain.contract).setWidth 14 = 0x20cc := by decide

end HashMiner.Contract.Hooks
