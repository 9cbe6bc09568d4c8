import HashMiner.Tx.Submitter

/-!
# The submitter and its account

What the chain knows of the account: the transactions that were mined, and those
that a relay accepted and that may be mined later. Nobody else sends from it. The
chain mines an accepted transaction at any time, or never.
-/

namespace HashMiner.Tx

open Foundation Chain

structure Ledger where
  count : Nat
  pool : List TransactionRequest
  mined : List TransactionRequest

namespace Ledger

/-- A relay takes a transaction whose nonce is not used up. -/
def accept (l : Ledger) (req : TransactionRequest) : Ledger :=
  if l.count ≤ req.nonce.toNat ∧ req ∉ l.pool then { l with pool := req :: l.pool } else l

/-- Transactions are mined in the order of their nonces; the others with the same
nonce cannot be mined any more. -/
def mine (l : Ledger) (req : TransactionRequest) : Option Ledger :=
  if req ∈ l.pool ∧ req.nonce.toNat = l.count then
    some {
      count := l.count + 1
      pool := l.pool.filter fun other => other.nonce ≠ req.nonce
      mined := req :: l.mined }
  else none

/-- Pooled transactions can still be mined, and the mined ones have used up their nonce. -/
structure Ordered (l : Ledger) : Prop where
  pool : ∀ req ∈ l.pool, l.count ≤ req.nonce.toNat
  mined : ∀ req ∈ l.mined, req.nonce.toNat < l.count

theorem Ordered.accept {l : Ledger} (inv : Ordered l) (req : TransactionRequest) :
    Ordered (l.accept req) := by
  unfold Ledger.accept
  split
  · next added =>
    refine ⟨fun other member => ?_, inv.mined⟩
    rcases List.mem_cons.mp member with rfl | old
    · exact added.1
    · exact inv.pool other old
  · exact inv

theorem Ordered.mine {l l' : Ledger} {req : TransactionRequest} (inv : Ordered l)
    (mined : l.mine req = some l') : Ordered l' := by
  unfold Ledger.mine at mined
  split at mined <;> cases mined
  next first =>
  refine ⟨fun other member => ?_, fun other member => ?_⟩
  · obtain ⟨old, distinct⟩ := List.mem_filter.mp member
    have later := inv.pool other old
    have apart : other.nonce.toNat ≠ req.nonce.toNat := fun same =>
      of_decide_eq_true distinct (BitVec.eq_of_toNat_eq same)
    dsimp only
    omega
  · rcases List.mem_cons.mp member with rfl | old
    · exact Nat.lt_succ_of_le (Nat.le_of_eq first.2)
    · exact Nat.lt_succ_of_lt (inv.mined other old)

theorem pool_of_mine {l l' : Ledger} {req other : TransactionRequest}
    (mined : l.mine req = some l') (pooled : other ∈ l'.pool) : other ∈ l.pool := by
  unfold Ledger.mine at mined
  split at mined <;> cases mined
  exact (List.mem_filter.mp pooled).1

theorem mined_of_mine {l l' : Ledger} {req other : TransactionRequest}
    (mined : l.mine req = some l') (earlier : other ∈ l.mined) : other ∈ l'.mined := by
  unfold Ledger.mine at mined
  split at mined <;> cases mined
  exact List.mem_cons_of_mem req earlier

theorem pool_of_accept {l : Ledger} {req other : TransactionRequest}
    (pooled : other ∈ (l.accept req).pool) : other = req ∨ other ∈ l.pool := by
  unfold Ledger.accept at pooled
  split at pooled
  · exact List.mem_cons.mp pooled
  · exact .inr pooled

theorem mined_accept (l : Ledger) (req : TransactionRequest) : (l.accept req).mined = l.mined := by
  unfold Ledger.accept
  split <;> rfl

theorem Ordered.disjoint {l : Ledger} (inv : Ordered l) {req : TransactionRequest}
    (mined : req ∈ l.mined) : req ∉ l.pool := fun pooled =>
  Nat.not_lt.mpr (inv.pool req pooled) (inv.mined req mined)

end Ledger

structure Account where
  submitter : Submitter
  ledger : Ledger

inductive AccountEvent where
  | submit (view : ChainView) (e : SubmitEvent)
  | mine (req : TransactionRequest)

namespace Account

/-- A receipt exists for mined transactions only, and only they are counted. -/
def Honest (l : Ledger) : Option (Hit × Phase) → SubmitEvent → Prop
  | some (_, .receipt _ req _ _), .receipt (.ok (some _)) => req ∈ l.mined
  | _, .transactionCount (.ok n) => n.toNat ≤ l.count
  | _, _ => True

instance (l : Ledger) (holder : Option (Hit × Phase)) (e : SubmitEvent) :
    Decidable (Honest l holder e) := by
  unfold Honest
  split <;> infer_instance

/-- A relay that answers with a hash has taken the transaction. -/
def reach (l : Ledger) : Option (Hit × Phase) → SubmitEvent → Ledger
  | some (_, .send _ req _ _ _ _), .sendRaw (.ok _) => l.accept req
  | _, _ => l

theorem reach_call (l : Ledger) (holder : Option (Hit × Phase)) (hit : Hit) :
    reach l holder (.call hit) = l := by
  unfold reach
  split <;> trivial

variable (cfg : SubmitterCfg)

def step (a : Account) : AccountEvent → Option Account
  | .submit view e =>
    if Honest a.ledger a.submitter.holder e then
      (a.submitter.step cfg view e).map fun s => ⟨s, reach a.ledger a.submitter.holder e⟩
    else none
  | .mine req => (a.ledger.mine req).map fun l => { a with ledger := l }

def machine : Machine Account AccountEvent := ⟨step cfg⟩

/-- Before the first call, when `count` transactions have been mined. -/
def new (count : Nat) : Account := ⟨.new, ⟨count, [], []⟩⟩

/-- The transaction that a step starts to send. -/
def broadcast (a : Account) : AccountEvent → Option TransactionRequest
  | .submit _ e => (a.submitter.sends cfg e).map fun call => call.2.2
  | .mine _ => none

def layoutRun (es : List SubmitEvent) : List AccountEvent := es.map fun e => .submit layoutView e

variable {cfg} {a t : Account} {e : AccountEvent}

theorem holder_of_broadcast {req : TransactionRequest} (sent : broadcast cfg a e = some req) :
    ∃ hit st, a.submitter.holder = some (hit, .sign st req) := by
  cases e with
  | submit view d =>
    obtain ⟨⟨hit, st, req⟩, call, rfl⟩ := Option.map_eq_some_iff.mp sent
    exact ⟨hit, st, Submitter.holder_of_sends call⟩
  | mine => cases sent

/-- The steps by name. -/
inductive Moves (cfg : SubmitterCfg) (a : Account) : AccountEvent → Account → Prop
  | submit (view : ChainView) (e : SubmitEvent) (s : Submitter) :
      Honest a.ledger a.submitter.holder e → Submitter.Moves cfg view a.submitter e s →
      Moves cfg a (.submit view e) ⟨s, reach a.ledger a.submitter.holder e⟩
  | mine (req : TransactionRequest) (l : Ledger) : a.ledger.mine req = some l →
      Moves cfg a (.mine req) { a with ledger := l }

theorem step_cases (taken : step cfg a e = some t) : Moves cfg a e t := by
  cases e with
  | submit view e =>
    simp only [step] at taken
    split at taken
    · next honest =>
      obtain ⟨s, moved, rfl⟩ := Option.map_eq_some_iff.mp taken
      exact .submit view e s honest (Submitter.step_cases moved)
    · cases taken
  | mine req =>
    obtain ⟨l, mined, rfl⟩ := Option.map_eq_some_iff.mp taken
    exact .mine req l mined

end Account

end HashMiner.Tx
