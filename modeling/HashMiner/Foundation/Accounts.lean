import HashMiner.Foundation.Machine
import Mathlib.Algebra.BigOperators.Group.Finset.Piecewise
import Mathlib.Algebra.Order.BigOperators.Group.Finset
import Mathlib.Algebra.Ring.Nat
import Mathlib.Data.Fintype.Basic

/-!
# Accounts

A supply and the balances it is split into. The sum of the balances is a field, so no
movement that can be written down makes or loses anything. A history of movements has at
most one outcome, which the movements of one account determine for that account.
-/

namespace HashMiner.Foundation

universe u

structure Accounts (A : Type u) [Fintype A] where
  balance : A → Nat
  supply : Nat
  conserved : ∑ a, balance a = supply

/-- A movement of an amount. -/
inductive Movement (A : Type u) where
  | issue (a : A) (n : Nat)
  | move (a b : A) (n : Nat)

namespace Accounts

variable {A : Type u} [Fintype A] [DecidableEq A]

theorem sum_update (f : A → Nat) (a : A) (n : Nat) :
    ∑ b, Function.update f a n b + f a = ∑ b, f b + n := by
  have changed := Finset.sum_update_of_mem (Finset.mem_univ a) f n
  have whole := Finset.add_sum_erase Finset.univ f (Finset.mem_univ a)
  rw [changed, ← whole, Finset.sdiff_singleton_eq_erase]
  omega

def empty : Accounts A where
  balance _ := 0
  supply := 0
  conserved := Finset.sum_const_zero

variable (acc : Accounts A)

omit [DecidableEq A] in
theorem balance_le_supply (a : A) : acc.balance a ≤ acc.supply := by
  rw [← acc.conserved]
  exact Finset.single_le_sum (fun _ _ => Nat.zero_le _) (Finset.mem_univ a)

def issue (a : A) (n : Nat) : Accounts A where
  balance := Function.update acc.balance a (acc.balance a + n)
  supply := acc.supply + n
  conserved := by
    have changed := sum_update acc.balance a (acc.balance a + n)
    rw [acc.conserved] at changed
    omega

/-- The amount is taken from `a` before it is given to `b`, which may be the same account. -/
def move (a b : A) (n : Nat) (covered : n ≤ acc.balance a) : Accounts A where
  balance :=
    let taken := Function.update acc.balance a (acc.balance a - n)
    Function.update taken b (taken b + n)
  supply := acc.supply
  conserved := by
    have taken := sum_update acc.balance a (acc.balance a - n)
    have given := sum_update (Function.update acc.balance a (acc.balance a - n)) b
      (Function.update acc.balance a (acc.balance a - n) b + n)
    rw [acc.conserved] at taken
    dsimp only
    omega

/-- While an amount is on its way, what it adds to still fits in the supply. -/
theorem taken_add_le (a b : A) {n : Nat} (covered : n ≤ acc.balance a) :
    Function.update acc.balance a (acc.balance a - n) b + n ≤ acc.supply := by
  have within := (acc.move a b n covered).balance_le_supply b
  simpa [move] using within

def step : Movement A → Option (Accounts A)
  | .issue a n => some (acc.issue a n)
  | .move a b n => if covered : n ≤ acc.balance a then some (acc.move a b n covered) else none

end Accounts

namespace Movement

variable {A : Type u} [DecidableEq A]

/-- What is issued to an account or moved to it. -/
def received (m : Movement A) (a : A) : Nat :=
  match m with
  | .issue b n => if b = a then n else 0
  | .move _ b n => if b = a then n else 0

def sent (m : Movement A) (a : A) : Nat :=
  match m with
  | .issue _ _ => 0
  | .move b _ n => if b = a then n else 0

def issued : Movement A → Nat
  | .issue _ n => n
  | .move _ _ _ => 0

end Movement

namespace Accounts

variable {A : Type u} [Fintype A] [DecidableEq A]

def machine : Machine (Accounts A) (Movement A) := ⟨step⟩

theorem step_balance {acc acc' : Accounts A} {m : Movement A} (moved : acc.step m = some acc')
    (a : A) : acc'.balance a + m.sent a = acc.balance a + m.received a := by
  cases m with
  | issue b n =>
    cases moved
    by_cases same : a = b
    · subst same
      simp [issue, Movement.sent, Movement.received]
    · simp [issue, Movement.sent, Movement.received, Function.update_of_ne same, Ne.symm same]
  | move b c n =>
    simp only [step] at moved
    split at moved <;> cases moved
    next covered =>
    by_cases giver : a = b
    · subst giver
      by_cases taker : a = c
      · subst taker
        simp [move, Movement.sent, Movement.received]
        omega
      · simp [move, Movement.sent, Movement.received, Function.update_of_ne taker, Ne.symm taker]
        omega
    · by_cases taker : a = c
      · subst taker
        simp [move, Movement.sent, Movement.received, Function.update_of_ne giver, Ne.symm giver]
      · simp [move, Movement.sent, Movement.received, Function.update_of_ne taker,
          Function.update_of_ne giver, Ne.symm giver, Ne.symm taker]

theorem step_supply {acc acc' : Accounts A} {m : Movement A} (moved : acc.step m = some acc') :
    acc'.supply = acc.supply + m.issued := by
  cases m with
  | issue b n =>
    cases moved
    rfl
  | move b c n =>
    simp only [step] at moved
    split at moved <;> cases moved
    rfl

/-- An account holds what the history has brought to it less what it has taken away. -/
theorem run_balance {acc acc' : Accounts A} {history : List (Movement A)}
    (moved : machine.run acc history = some acc') (a : A) :
    acc'.balance a + (history.map (·.sent a)).sum =
      acc.balance a + (history.map (·.received a)).sum := by
  induction history generalizing acc with
  | nil =>
    cases moved
    rfl
  | cons m history ih =>
    obtain ⟨next, first, rest⟩ := machine.run_cons.mp moved
    have here := step_balance first a
    have later := ih rest
    simp only [List.map_cons, List.sum_cons]
    omega

end Accounts

end HashMiner.Foundation
