import HashMiner.Tx.Account
import Mathlib.Data.List.Perm.Subperm

/-!
# Account nonces without gaps

A transaction can be mined once every nonce below its own is mined or pooled. The
counter of the gate may run ahead of that: a call that reserved a nonce and leaves
without a broadcast has to give it back, and not every exit does.
-/

namespace HashMiner.Tx

open Foundation Chain

namespace Ledger

variable {l l' : Ledger} {req : TransactionRequest} {limit : Nat}

/-- Every nonce below the limit is mined or pooled. -/
def Covers (l : Ledger) (limit : Nat) : Prop :=
  ∀ n, l.count ≤ n → n < limit → ∃ req ∈ l.pool, req.nonce.toNat = n

/-- The nonce of the transaction is mined or pooled. -/
def Spent (l : Ledger) (req : TransactionRequest) : Prop :=
  l.count ≤ req.nonce.toNat → ∃ other ∈ l.pool, other.nonce = req.nonce

theorem covers_of_le (mined : limit ≤ l.count) : l.Covers limit := by
  intro n low high
  exact absurd (Nat.lt_of_lt_of_le high mined) (Nat.not_lt.mpr low)

theorem Covers.mono (covers : l.Covers limit) {lower : Nat} (le : lower ≤ limit) :
    l.Covers lower := by
  intro n low high
  exact covers n low (Nat.lt_of_lt_of_le high le)

theorem Covers.of_spent (covers : l.Covers req.nonce.toNat) (spent : l.Spent req) :
    l.Covers (req.nonce.toNat + 1) := by
  intro n low high
  rcases Nat.lt_succ_iff_lt_or_eq.mp high with below | rfl
  · exact covers n low below
  · obtain ⟨other, pooled, same⟩ := spent low
    exact ⟨other, pooled, congrArg BitVec.toNat same⟩

theorem mem_accept {other : TransactionRequest} (pooled : other ∈ l.pool) :
    other ∈ (l.accept req).pool := by
  unfold accept
  split
  · exact List.mem_cons_of_mem req pooled
  · exact pooled

theorem count_accept : (l.accept req).count = l.count := by
  unfold accept
  split <;> rfl

theorem accept_spent : (l.accept req).Spent req := by
  intro low
  rw [count_accept] at low
  refine ⟨req, ?_, rfl⟩
  unfold accept
  split
  · exact List.mem_cons_self
  · next kept =>
    by_contra new
    exact kept ⟨low, new⟩

theorem Covers.accept (covers : l.Covers limit) : (l.accept req).Covers limit := by
  intro n low high
  rw [count_accept] at low
  obtain ⟨other, pooled, same⟩ := covers n low high
  exact ⟨other, mem_accept pooled, same⟩

theorem Covers.mine (covers : l.Covers limit) (mined : l.mine req = some l') :
    l'.Covers limit := by
  unfold Ledger.mine at mined
  split at mined <;> cases mined
  next first =>
  intro n low high
  obtain ⟨other, pooled, same⟩ := covers n (Nat.le_of_succ_le low) high
  refine ⟨other, List.mem_filter.mpr ⟨pooled, decide_eq_true fun equal => ?_⟩, same⟩
  rw [← same, equal, first.2] at low
  exact absurd low (Nat.not_succ_le_self _)

/-- There are as many pooled transactions as nonces that they cover. -/
theorem Covers.le (covers : l.Covers limit) : limit ≤ l.count + l.pool.length := by
  have distinct : (List.range' l.count (limit - l.count)).Nodup := List.nodup_range'
  have subset : List.range' l.count (limit - l.count) ⊆
      l.pool.map fun req => req.nonce.toNat := by
    intro n member
    obtain ⟨low, high⟩ := List.mem_range'_1.mp member
    obtain ⟨req, pooled, same⟩ := covers n low (by omega)
    exact List.mem_map.mpr ⟨req, pooled, same⟩
  have counted := (List.subperm_of_subset distinct subset).length_le
  rw [List.length_range', List.length_map] at counted
  omega

end Ledger

/-- The counter, or the nonce of the running call while no relay has accepted it. -/
def Phase.unused (next : Option U64) (phase : Phase) : Nat :=
  match phase.request?, phase.accepted? with
  | some req, none => req.nonce.toNat
  | _, _ => (next.getD 0).toNat

def Resumed.unused : Resumed → Nat
  | (next, .on phase) => phase.unused next
  | (next, .done _) => (next.getD 0).toNat

/-- The counter is not past the nonce after that of the running call. -/
def Phase.Counts (next : Option U64) (phase : Phase) : Prop :=
  ∀ req, phase.request? = some req → (next.getD 0).toNat ≤ req.nonce.toNat + 1

def Submitter.unused (s : Submitter) : Nat :=
  match s.holder with
  | some (_, phase) => phase.unused s.next
  | none => (s.next.getD 0).toNat

namespace Account

variable {cfg : SubmitterCfg} {a t : Account} {e : AccountEvent}

/-- The two exits that leave the nonce of an unsent transaction reserved are taken only
when this nonce is mined or pooled already. -/
def Recovers (l : Ledger) : Option (Hit × Phase) → SubmitEvent → Prop
  | some (_, .sign _ req), .signed (.error _) => l.Spent req
  | some (_, .resyncFailed req _), .transactionCount (.error _) => l.Spent req
  | _, _ => True

def GivesBack (a : Account) : AccountEvent → Prop
  | .submit _ e => Recovers a.ledger a.submitter.holder e
  | .mine _ => True

/-- A broadcast transaction is not past the pending ones; and when no call runs, every
nonce below the counter is mined or pooled. -/
structure Minable (cfg : SubmitterCfg) (a : Account) (e : AccountEvent) (t : Account) : Prop where
  broadcast : ∀ req, broadcast cfg a e = some req →
    req.nonce.toNat ≤ a.ledger.count + a.ledger.pool.length
  counter : ∀ n, t.submitter.holder = none → t.submitter.next = some n → t.ledger.Covers n.toNat

structure Gapless (a : Account) : Prop where
  covers : a.ledger.Covers a.submitter.unused
  counts : ∀ hit phase, a.submitter.holder = some (hit, phase) → phase.Counts a.submitter.next

theorem covers_reserved {l : Ledger} {next : Option U64} {n : U64}
    (below : l.Covers n.toNat) (kept : l.Covers (next.getD 0).toNat) (hit : Hit)
    (st : MiningState) (maxFee : U128) :
    l.Covers (reserved cfg next hit st maxFee n).unused := by
  rcases reserved_cases cfg next hit st maxFee n with panicked | ⟨after, _, signing⟩
  · rw [panicked]
    exact kept
  · rw [signing]
    exact below

theorem covers_resynced {l : Ledger} {next : Option U64} {reply : Except String U64}
    (counted : ∀ n, reply = .ok n → n.toNat ≤ l.count)
    (failed : ∀ e, reply = .error e → l.Covers (next.getD 0).toNat) :
    l.Covers ((resynced next reply).getD 0).toNat := by
  cases reply with
  | ok n => exact Ledger.covers_of_le (counted n rfl)
  | error e => exact failed e rfl

/-- What a running call does to the nonces that are mined or pooled. -/
theorem covers_resume {l : Ledger} {view : ChainView} {next : Option U64} {hit : Hit}
    {phase : Phase} {e : SubmitEvent} {r : Resumed} (covers : l.Covers (phase.unused next))
    (counts : phase.Counts next) (honest : Honest l (some (hit, phase)) e)
    (back : Recovers l (some (hit, phase)) e)
    (resumed : Resumes cfg view next hit phase e r) :
    (reach l (some (hit, phase)) e).Covers r.unused := by
  cases resumed with
  | noState | stale | fresh | noPrice | priceOverflow | priced | noMints | mintsOverflow | gated
  | unheld | uncounted | timedOut | noReceipt | unmined | mined | noHead | confirmed
  | unconfirmed => exact covers
  | held st maxFee head word profitable mints n _ _ same =>
    cases same
    exact covers_reserved covers covers hit st maxFee
  | counted st maxFee n =>
    exact covers_reserved (Ledger.covers_of_le honest) covers hit st maxFee
  | unsigned st req e => exact (covers.of_spent back).mono (counts req rfl)
  | signed st req raw =>
    simp only [Resumed.unused, Phase.unused, request?_sending, accepted?_sending, Option.map_none]
    exact covers
  | accepted st req relay rest winner errors tx =>
    have won : (winner.or (some (relay, tx))).map (fun _ => req) = some req := by
      cases winner <;> rfl
    simp only [Resumed.unused, Phase.unused, request?_sending, accepted?_sending, won]
    cases winner with
    | none => exact (covers.accept.of_spent Ledger.accept_spent).mono (counts req rfl)
    | some w => exact covers.accept
  | rejected st req relay rest winner errors e =>
    simp only [Resumed.unused, Phase.unused, request?_sending, accepted?_sending]
    cases winner <;> exact covers
  | gaveUp req errors reply =>
    refine covers_resynced (fun n same => ?_) (fun e same => ?_) <;> cases same
    · exact honest
    · exact (covers.of_spent back).mono (counts req rfl)
  | settled st req relay tx outcome reply =>
    refine covers_resynced (fun n same => ?_) (fun e same => ?_) <;> cases same
    · exact honest
    · exact covers

theorem counts_reserved {next : Option U64} {hit : Hit} {st : MiningState} {maxFee : U128}
    {n : U64} {phase : Phase} (on : (reserved cfg next hit st maxFee n).2 = .on phase) :
    phase.Counts (reserved cfg next hit st maxFee n).1 := by
  obtain ⟨after, le, signing, rfl⟩ := reserved_on on
  rw [signing]
  intro req same
  cases same
  exact le

theorem counts_resume {view : ChainView} {next : Option U64} {hit : Hit} {phase : Phase}
    {e : SubmitEvent} {r : Resumed} (counts : phase.Counts next)
    (resumed : Resumes cfg view next hit phase e r) :
    ∀ phase', r.2 = .on phase' → phase'.Counts r.1 := by
  intro phase' on
  cases resumed with
  | noState | stale | noPrice | priceOverflow | noMints | mintsOverflow | gated | uncounted
  | unsigned | gaveUp | noReceipt | noHead | settled => cases on
  | fresh | priced | unheld =>
    cases on
    intro req same
    cases same
  | timedOut | unmined | mined | confirmed | unconfirmed =>
    cases on
    exact counts
  | held | counted => exact counts_reserved on
  | signed | accepted | rejected =>
    cases on
    intro req same
    rw [request?_sending] at same
    exact counts req same

theorem Gapless.step (inv : Gapless a) (taken : Account.step cfg a e = some t)
    (back : GivesBack a e) : Gapless t := by
  cases step_cases taken with
  | mine req l mined => exact ⟨inv.covers.mine mined, inv.counts⟩
  | submit view e s honest moved =>
    cases moved with
    | call hit =>
      rw [reach_call]
      exact ⟨inv.covers, inv.counts⟩
    | acquire hit waiting free first =>
      have covers := inv.covers
      rw [Submitter.unused, free] at covers
      rw [free]
      refine ⟨covers, fun hit' phase same req running => ?_⟩
      cases same
      cases running
    | resume hit phase e r here resumed =>
      rw [GivesBack, here] at back
      rw [here] at honest ⊢
      have covers := inv.covers
      rw [Submitter.unused, here] at covers
      have counts := inv.counts hit phase here
      have covers' := covers_resume covers counts honest back resumed
      have counts' := counts_resume counts resumed
      obtain ⟨next, progress⟩ := r
      cases progress with
      | on phase' =>
        refine ⟨covers', fun hit' phase'' same => ?_⟩
        cases same
        exact counts' phase' rfl
      | done result => exact ⟨covers', fun _ _ same => nomatch same⟩

theorem Gapless.broadcast {req : TransactionRequest} (inv : Gapless a)
    (sent : broadcast cfg a e = some req) :
    req.nonce.toNat ≤ a.ledger.count + a.ledger.pool.length := by
  obtain ⟨hit, st, here⟩ := holder_of_broadcast sent
  have covers := inv.covers
  rw [Submitter.unused, here] at covers
  exact covers.le

theorem Gapless.counter (inv : Gapless t) (n : U64) (free : t.submitter.holder = none)
    (same : t.submitter.next = some n) : t.ledger.Covers n.toNat := by
  have covers := inv.covers
  rw [Submitter.unused, free, same] at covers
  exact covers

/-- In every run whose calls give back what they do not broadcast, the transactions can
be mined: their nonces leave no gap. -/
theorem along_minable_of_givesBack (cfg : SubmitterCfg) (count : Nat) (es : List AccountEvent)
    (back : (machine cfg).Along (fun a e _ => GivesBack a e) (new count) es) :
    (machine cfg).Along (Minable cfg) (new count) es := by
  have start : Gapless (new count) :=
    ⟨Ledger.covers_of_le (Nat.zero_le count), fun _ _ same => nomatch same⟩
  refine Machine.Along.of_invariant (fun a e t inv taken given => ?_) start back
  have next := inv.step taken given
  exact ⟨next, ⟨fun req sent => inv.broadcast sent, next.counter⟩⟩

/-- The relays refuse the first transaction, and the node answers with its count. -/
theorem along_minable_resynced :
    (machine layoutCfg).Along (Minable layoutCfg) (new 0)
      (layoutRun (layoutCall 0x4243 ++ [.transactionCount (.ok 0), .signed (.ok ()),
        .sendRaw (.error "timeout"), .sendRaw (.error "timeout"), .sendRaw (.error "timeout"),
        .transactionCount (.ok 0)] ++ layoutCall 0x4244 ++
        [.signed (.ok ())])) := by
  refine along_minable_of_givesBack layoutCfg 0 _ ?_
  iterate 17 refine (Machine.along_cons rfl).mpr ⟨trivial, ?_⟩
  trivial

/-- The node does not answer either: the second call broadcasts nonce 1 while nonce 0 has
never been sent. -/
theorem unsent_nonce_kept :
    ¬ (machine layoutCfg).Along (Minable layoutCfg) (new 0)
      (layoutRun (layoutCall 0x4243 ++ [.transactionCount (.ok 0), .signed (.ok ()),
        .sendRaw (.error "timeout"), .sendRaw (.error "timeout"), .sendRaw (.error "timeout"),
        .transactionCount (.error "timeout")] ++ layoutCall 0x4244) ++
        [.submit layoutView (.signed (.ok ()))]) := by
  intro along
  have bound := (along.at_step rfl rfl).broadcast _ rfl
  exact absurd bound (by decide)

end Account

end HashMiner.Tx
