import HashMiner.Tx.Account

/-!
# Transactions in flight

The gate is held until the transaction of the call is mined, or the wait for its
receipt ends. The chain may mine the transaction of a call that gave up much later.
-/

namespace HashMiner.Tx

open Foundation Chain

/-- The transaction of a call, once a receipt for it has been read. -/
def Phase.included? : Phase → Option TransactionRequest
  | .head _ req _ _ _ | .resync _ req _ _ (some _) => some req
  | _ => none

theorem included?_sending (st : MiningState) (req : TransactionRequest)
    (winner : Option (String × TxHash)) (errors : List (String × MinerError))
    (relays : List String) : (sending st req winner errors relays).included? = none := by
  cases relays <;> cases winner <;> rfl

/-- What the calls that had a transaction have returned. -/
abbrev History := List (TransactionRequest × Returned)

/-- The wait for the receipt has ended without one. -/
def GivenUp (history : History) (req : TransactionRequest) : Prop :=
  (req, .ok (.dropped .receiptTimeout)) ∈ history ∨ ∃ error, (req, .err (.rpc error)) ∈ history

theorem GivenUp.append {history : History} {req : TransactionRequest}
    (gone : GivenUp history req) (more : History) : GivenUp (history ++ more) req := by
  rcases gone with timeout | ⟨error, failed⟩
  · exact .inl (List.mem_append_left more timeout)
  · exact .inr ⟨error, List.mem_append_left more failed⟩

namespace Account

variable {cfg : SubmitterCfg} {l : Ledger} {view : ChainView} {next : Option U64} {hit : Hit}
  {phase phase' : Phase} {d : SubmitEvent} {r : Resumed} {req : TransactionRequest}

theorem accepted_resume (resumed : Resumes cfg view next hit phase d r)
    (accepted : phase.accepted? = some req) (on : r.2 = .on phase') :
    phase'.accepted? = some req := by
  cases resumed with
  | noState | stale | fresh | noPrice | priceOverflow | priced | noMints | mintsOverflow | gated
  | held | unheld | uncounted | counted | unsigned | signed | gaveUp => cases accepted
  | noReceipt | noHead | settled => cases on
  | timedOut | unmined | mined | confirmed | unconfirmed =>
    cases on
    exact accepted
  | accepted st req' relay rest winner errors tx =>
    cases on
    cases winner with
    | none => cases accepted
    | some w =>
      cases accepted
      exact accepted?_sending st req (some w) errors rest
  | rejected st req' relay rest winner errors e =>
    cases on
    cases winner with
    | none => cases accepted
    | some w =>
      cases accepted
      exact accepted?_sending st req (some w) _ rest

theorem included_resume (resumed : Resumes cfg view next hit phase d r)
    (honest : Honest l (some (hit, phase)) d)
    (included : ∀ req, phase.included? = some req → req ∈ l.mined)
    (on : r.2 = .on phase') : ∀ req, phase'.included? = some req → req ∈ l.mined := by
  intro req same
  cases resumed with
  | noState | stale | noPrice | priceOverflow | noMints | mintsOverflow | gated | uncounted
  | unsigned | gaveUp | noReceipt | noHead | settled => cases on
  | fresh | priced | unheld | timedOut | unmined | unconfirmed =>
    cases on
    cases same
  | held | counted =>
    obtain ⟨_, _, _, rfl⟩ := reserved_on on
    cases same
  | signed | accepted | rejected =>
    cases on
    rw [included?_sending] at same
    cases same
  | mined =>
    cases on
    cases same
    exact honest
  | confirmed =>
    cases on
    cases same
    exact included req rfl

theorem reach_cases (l : Ledger) (hit : Hit) (phase : Phase) (d : SubmitEvent) :
    reach l (some (hit, phase)) d = l ∨
      ∃ st req relay rest winner errors tx, phase = .send st req relay rest winner errors ∧
        d = .sendRaw (.ok tx) ∧ reach l (some (hit, phase)) d = l.accept req := by
  unfold reach
  split
  · next same =>
    cases same
    exact .inr ⟨_, _, _, _, _, _, _, rfl, rfl, rfl⟩
  · exact .inl rfl

/-- A call that leaves an accepted transaction without a receipt has given it up. -/
theorem done_resume {result : Returned} (resumed : Resumes cfg view next hit phase d r)
    (accepted : phase.accepted? = some req) (done : r.2 = .done result) :
    phase.included? = some req ∨ GivenUp [(req, result)] req := by
  cases resumed with
  | noState | stale | fresh | noPrice | priceOverflow | priced | noMints | mintsOverflow | gated
  | held | unheld | uncounted | counted | unsigned | signed | gaveUp => cases accepted
  | accepted | rejected | timedOut | unmined | mined | confirmed | unconfirmed => cases done
  | noReceipt st req' relay tx e =>
    cases done
    cases accepted
    exact .inr (.inr ⟨e, List.mem_singleton_self _⟩)
  | noHead =>
    cases accepted
    exact .inl rfl
  | settled st req' relay tx outcome reply =>
    cases done
    cases accepted
    cases outcome with
    | none => exact .inr (.inl (List.mem_singleton_self _))
    | some r => exact .inl rfl

variable {a t : Account} {e : AccountEvent} {history : History}

/-- What a step adds to the history. -/
def ended (cfg : SubmitterCfg) (a : Account) : AccountEvent → History
  | .submit view d =>
    match a.submitter.holder with
    | some (hit, phase) =>
      match phase.request?, resume cfg view a.submitter.next hit phase d with
      | some req, some (_, .done result) => [(req, result)]
      | _, _ => []
    | none => []
  | .mine _ => []

theorem request?_of_accepted (accepted : phase.accepted? = some req) :
    phase.request? = some req := by
  cases phase with
  | send st req' relay rest winner errors =>
    cases winner <;> cases accepted
    rfl
  | snapshot | gasPrice | evGate | reserve | sign | resyncFailed => cases accepted
  | receipt | head | resync => exact accepted

theorem ended_done {result : Returned} (here : a.submitter.holder = some (hit, phase))
    (accepted : phase.accepted? = some req)
    (resumed : Resumes cfg view a.submitter.next hit phase d (next, .done result)) :
    ended cfg a (.submit view d) = [(req, result)] := by
  simp only [ended, here, request?_of_accepted accepted, resumed.resumed]

/-- Each accepted transaction that is still pending is that of the running call, or its
call gave it up. -/
structure Sequential (a : Account) (history : History) : Prop where
  ordered : a.ledger.Ordered
  included : ∀ hit phase, a.submitter.holder = some (hit, phase) →
    ∀ req, phase.included? = some req → req ∈ a.ledger.mined
  pool : ∀ req ∈ a.ledger.pool,
    (∃ hit phase, a.submitter.holder = some (hit, phase) ∧ phase.accepted? = some req) ∨
      GivenUp history req

theorem ordered_reach (inv : l.Ordered) : (reach l (some (hit, phase)) d).Ordered := by
  rcases reach_cases l hit phase d with same | ⟨_, req, _, _, _, _, _, _, _, same⟩
  · rw [same]
    exact inv
  · rw [same]
    exact inv.accept req

theorem mined_reach : (reach l (some (hit, phase)) d).mined = l.mined := by
  rcases reach_cases l hit phase d with same | ⟨_, req, _, _, _, _, _, _, _, same⟩
  · rw [same]
  · rw [same, Ledger.mined_accept]

/-- A transaction enters the pool when a relay accepts it from the running call. -/
theorem pool_reach (resumed : Resumes cfg view next hit phase d r)
    (pooled : req ∈ (reach l (some (hit, phase)) d).pool) :
    req ∈ l.pool ∨ ∃ phase', r.2 = .on phase' ∧ phase'.accepted? = some req := by
  rcases reach_cases l hit phase d with
    same | ⟨st, sent, relay, rest, winner, errors, tx, rfl, rfl, same⟩
  · rw [same] at pooled
    exact .inl pooled
  · rw [same] at pooled
    rcases Ledger.pool_of_accept pooled with rfl | old
    · cases resumed
      refine .inr ⟨_, rfl, ?_⟩
      rw [accepted?_sending]
      cases winner <;> rfl
    · exact .inl old

theorem Sequential.resume (inv : Sequential a history)
    (here : a.submitter.holder = some (hit, phase))
    (honest : Honest a.ledger (some (hit, phase)) d)
    (resumed : Resumes cfg view a.submitter.next hit phase d r) :
    Sequential ⟨a.submitter.settle hit r, reach a.ledger (some (hit, phase)) d⟩
      (history ++ ended cfg a (.submit view d)) := by
  obtain ⟨next, progress⟩ := r
  refine ⟨ordered_reach inv.ordered, fun hit' phase' same req read => ?_, fun req pooled => ?_⟩
  · rw [mined_reach]
    cases progress <;> cases same
    exact included_resume resumed honest (inv.included hit phase here) rfl req read
  · rcases pool_reach resumed pooled with old | ⟨phase', on, accepted⟩
    · rcases inv.pool req old with ⟨hit', phase', same, accepted⟩ | gone
      · cases here.symm.trans same
        cases progress with
        | on phase' => exact .inl ⟨hit, phase', rfl, accepted_resume resumed accepted rfl⟩
        | done result =>
          rw [ended_done here accepted resumed]
          rcases done_resume resumed accepted rfl with read | gone
          · exact absurd old (inv.ordered.disjoint (inv.included hit phase here req read))
          · rcases gone with timeout | ⟨error, failed⟩
            · exact .inr (.inl (List.mem_append_right history timeout))
            · exact .inr (.inr ⟨error, List.mem_append_right history failed⟩)
      · exact .inr (gone.append _)
    · cases on
      exact .inl ⟨hit, phase', rfl, accepted⟩

theorem Sequential.step (inv : Sequential a history) (taken : Account.step cfg a e = some t) :
    Sequential t (history ++ ended cfg a e) := by
  cases step_cases taken with
  | mine req l mined =>
    refine ⟨inv.ordered.mine mined, fun hit phase here req read => ?_, fun req pooled => ?_⟩
    · exact Ledger.mined_of_mine mined (inv.included hit phase here req read)
    · rcases inv.pool req (Ledger.pool_of_mine mined pooled) with running | gone
      · exact .inl running
      · exact .inr (gone.append _)
  | submit view d s honest moved =>
    cases moved with
    | call hit =>
      rw [reach_call]
      refine ⟨inv.ordered, inv.included, fun req pooled => ?_⟩
      rcases inv.pool req pooled with running | gone
      · exact .inl running
      · exact .inr (gone.append _)
    | acquire hit waiting free first =>
      rw [free]
      refine ⟨inv.ordered, fun hit' phase same req read => ?_, fun req pooled => ?_⟩
      · cases same
        cases read
      · rcases inv.pool req pooled with ⟨hit', phase, same, _⟩ | gone
        · cases free.symm.trans same
        · exact .inr (gone.append _)
    | resume hit phase d r here resumed =>
      rw [here] at honest ⊢
      exact inv.resume here honest resumed

/-- No transaction that was accepted earlier is pending when another one is sent. -/
def Alone (cfg : SubmitterCfg) (a : Account) (e : AccountEvent) : Prop :=
  ∀ req, broadcast cfg a e = some req → a.ledger.pool = []

/-- Those that are pending when another one is sent, or when no call runs, were given up. -/
structure Settled (cfg : SubmitterCfg) (a : Account) (history : History) (e : AccountEvent)
    (t : Account) (history' : History) : Prop where
  broadcast : ∀ req, broadcast cfg a e = some req → ∀ other ∈ a.ledger.pool, GivenUp history other
  gate : t.submitter.holder = none → ∀ other ∈ t.ledger.pool, GivenUp history' other

theorem Sequential.broadcast (inv : Sequential a history) (sent : broadcast cfg a e = some req)
    {other : TransactionRequest} (pooled : other ∈ a.ledger.pool) : GivenUp history other := by
  obtain ⟨_, _, here⟩ := holder_of_broadcast sent
  rcases inv.pool other pooled with ⟨hit, phase, same, accepted⟩ | gone
  · cases here.symm.trans same
    cases accepted
  · exact gone

theorem Sequential.gate (inv : Sequential a history) (free : a.submitter.holder = none)
    {other : TransactionRequest} (pooled : other ∈ a.ledger.pool) : GivenUp history other := by
  rcases inv.pool other pooled with ⟨hit, phase, same, _⟩ | gone
  · cases free.symm.trans same
  · exact gone

/-- In every run, the gate is released once the transaction is mined or the wait for it
has ended. -/
theorem along_settled (cfg : SubmitterCfg) (count : Nat) (es : List AccountEvent) :
    ((machine cfg).logged (ended cfg)).Along
      (fun p e q => Settled cfg p.1 p.2 e q.1 q.2) (new count, []) es := by
  have start : Sequential (new count) [] :=
    ⟨⟨nofun, nofun⟩, fun _ _ same => (nomatch same), nofun⟩
  have kept : ∀ (p : Account × History) (e : AccountEvent) (q : Account × History),
      Sequential p.1 p.2 → ((machine cfg).logged (ended cfg)).step p e = some q →
      Sequential q.1 q.2 ∧ Settled cfg p.1 p.2 e q.1 q.2 := by
    intro p e q inv taken
    obtain ⟨moved, log⟩ := (machine cfg).logged_step.mp taken
    have next : Sequential q.1 q.2 := log ▸ inv.step moved
    exact ⟨next, ⟨fun req sent other pooled => inv.broadcast sent pooled,
      fun free other pooled => next.gate free pooled⟩⟩
  exact Machine.along_of_invariant kept start es

/-- The wait for the first transaction times out, and the second is sent while the first
can still be mined. -/
theorem pending_when_next_sent :
    ¬ (machine layoutCfg).Along (fun a e _ => Alone layoutCfg a e) (new 0)
      (layoutRun (layoutCall 0x4243 ++ [.transactionCount (.ok 0), .signed (.ok ()),
        .sendRaw (.ok B256.zero), .sendRaw (.ok B256.zero), .sendRaw (.ok B256.zero),
        .receipt (.ok none), .timeout, .transactionCount (.ok 0)] ++ layoutCall 0x4244) ++
        [.submit layoutView (.signed (.ok ()))]) := by
  intro along
  have alone := along.at_step rfl rfl _ rfl
  cases alone

end Account

end HashMiner.Tx
