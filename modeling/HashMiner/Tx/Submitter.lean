import HashMiner.Chain.Watcher

/-!
# The submitter

One call holds the gate from its first step until it returns; the others wait in
order. A call is modelled by the await it is at: an event carries the answer, and
`resume` is the code up to the next await. The local account nonce outlives calls.
-/

namespace HashMiner.Tx

open Foundation Chain

structure MineCall where
  nonce : U256
  deriving DecidableEq

structure TransactionRequest where
  sender : Address
  toAddress : Address
  nonce : U64
  chainId : U64
  input : MineCall
  gasLimit : U64
  maxFeePerGas : U128
  maxPriorityFeePerGas : U128
  deriving DecidableEq

structure TransactionReceipt where
  status : Bool
  blockNumber : Option U64

inductive DropReason where
  | staleEpoch (hit st : U64)
  | evGate
  | allRelaysFailed (errors : List (String × MinerError))
  | receiptTimeout
  deriving DecidableEq

inductive SubmitOutcome where
  | included (tx : TxHash) (block : U64) (rewardWei : U256) (relay : String)
  | reverted (tx : TxHash) (block : Option U64)
  | dropped (reason : DropReason)
  deriving DecidableEq

inductive Returned where
  | ok (outcome : SubmitOutcome)
  | err (error : MinerError)
  | panicked
  deriving DecidableEq

structure SubmitterCfg where
  overflowChecks : Bool
  maxMintsPerBlock : U64
  relays : List String
  confirmations : U64
  signer : Address

/-- What the chain source answers without waiting. -/
structure ChainView where
  head : U64
  miningState : Except MinerError MiningState

/-- The await that a call is at, with the variables that are live there. -/
inductive Phase where
  | snapshot
  | gasPrice (st : MiningState)
  | evGate (st : MiningState) (maxFee : U128) (head : U64)
  | reserve (st : MiningState) (maxFee : U128)
  | sign (st : MiningState) (req : TransactionRequest)
  | send (st : MiningState) (req : TransactionRequest) (relay : String) (rest : List String)
      (winner : Option (String × TxHash)) (errors : List (String × MinerError))
  | resyncFailed (req : TransactionRequest) (errors : List (String × MinerError))
  | receipt (st : MiningState) (req : TransactionRequest) (relay : String) (tx : TxHash)
  | head (st : MiningState) (req : TransactionRequest) (relay : String) (tx : TxHash)
      (r : TransactionReceipt)
  | resync (st : MiningState) (req : TransactionRequest) (relay : String) (tx : TxHash)
      (outcome : Option TransactionReceipt)

namespace Phase

/-- The snapshot of a call that has checked its epoch and sent nothing yet. -/
def checked? : Phase → Option MiningState
  | .gasPrice st | .evGate st _ _ | .reserve st _ | .sign st _ => some st
  | _ => none

/-- The transaction of a call that has reserved a nonce. -/
def request? : Phase → Option TransactionRequest
  | .snapshot | .gasPrice _ | .evGate _ _ _ | .reserve _ _ => none
  | .sign _ req | .send _ req _ _ _ _ | .resyncFailed req _ | .receipt _ req _ _
  | .head _ req _ _ _ | .resync _ req _ _ _ => some req

/-- The transaction of a call, once a relay has accepted it. -/
def accepted? : Phase → Option TransactionRequest
  | .send _ req _ _ (some _) _ | .receipt _ req _ _ | .head _ req _ _ _
  | .resync _ req _ _ _ => some req
  | _ => none

end Phase

inductive SubmitEvent where
  | call (hit : Hit)
  | acquire
  | snapshot
  | gasPrice (reply : Except String U128)
  | mintsInBlock (reply : Except String U256) (profitable : Bool)
  | transactionCount (reply : Except String U64)
  | signed (reply : Except String Unit)
  | sendRaw (reply : Except String TxHash)
  | timeout
  | receipt (reply : Except String (Option TransactionReceipt))
  | blockNumber (reply : Except String U64)

inductive Progress where
  | on (phase : Phase)
  | done (result : Returned)

/-- A call and the gate's `next`, when the call is about to wait or has returned. -/
abbrev Resumed := Option U64 × Progress

def gasLimit : U64 := 120000

def maxPriority : U128 := 3000000000

/-- The verdict of the reward against the cost is a comparison of floating-point numbers. -/
def EvGate.allow (maxMintsPerBlock mints : U64) (gasCost : U256) (profitable : Bool) : Bool :=
  if maxMintsPerBlock ≤ mints then false else if gasCost = 0 then true else profitable

def buildMineTx (signer : Address) (nonce : U64) (mineNonce : U256) (maxFee : U128) :
    TransactionRequest where
  sender := signer
  toAddress := contract
  nonce := nonce
  chainId := chainId
  input := ⟨mineNonce⟩
  gasLimit := gasLimit
  maxFeePerGas := maxFee
  maxPriorityFeePerGas := maxPriority

variable (cfg : SubmitterCfg)

/-- The end of `reserve`, and the transaction for the reserved nonce. -/
def reserved (next : Option U64) (hit : Hit) (st : MiningState) (maxFee : U128) (n : U64) :
    Resumed :=
  match addUnsigned cfg.overflowChecks n 1 with
  | none => (next, .done .panicked)
  | some after => (some after, .on (.sign st (buildMineTx cfg.signer n hit.nonce maxFee)))

theorem reserved_cases (next : Option U64) (hit : Hit) (st : MiningState) (maxFee : U128)
    (n : U64) :
    reserved cfg next hit st maxFee n = (next, .done .panicked) ∨
      ∃ after : U64, after.toNat ≤ n.toNat + 1 ∧ reserved cfg next hit st maxFee n =
        (some after, .on (.sign st (buildMineTx cfg.signer n hit.nonce maxFee))) := by
  unfold reserved
  split
  · exact .inl rfl
  · next after sum => exact .inr ⟨after, addUnsigned_le sum, rfl⟩

theorem reserved_on {cfg : SubmitterCfg} {next : Option U64} {hit : Hit} {st : MiningState}
    {maxFee : U128} {n : U64} {phase : Phase}
    (on : (reserved cfg next hit st maxFee n).2 = .on phase) :
    ∃ after : U64, after.toNat ≤ n.toNat + 1 ∧ reserved cfg next hit st maxFee n =
      (some after, .on phase) ∧ phase = .sign st (buildMineTx cfg.signer n hit.nonce maxFee) := by
  rcases reserved_cases cfg next hit st maxFee n with panicked | ⟨after, le, signing⟩
  · rw [panicked] at on
    cases on
  · rw [signing] at on
    cases on
    exact ⟨after, le, signing, rfl⟩

/-- The loop over the relays, which awaits them one after the other. -/
def sending (st : MiningState) (req : TransactionRequest) (winner : Option (String × TxHash))
    (errors : List (String × MinerError)) : List String → Phase
  | relay :: rest => .send st req relay rest winner errors
  | [] =>
    match winner with
    | some (relay, tx) => .receipt st req relay tx
    | none => .resyncFailed req errors

theorem checked?_sending (st : MiningState) (req : TransactionRequest)
    (winner : Option (String × TxHash)) (errors : List (String × MinerError))
    (relays : List String) : (sending st req winner errors relays).checked? = none := by
  cases relays <;> cases winner <;> rfl

@[simp] theorem request?_sending (st : MiningState) (req : TransactionRequest)
    (winner : Option (String × TxHash)) (errors : List (String × MinerError))
    (relays : List String) : (sending st req winner errors relays).request? = some req := by
  cases relays <;> cases winner <;> rfl

@[simp] theorem accepted?_sending (st : MiningState) (req : TransactionRequest)
    (winner : Option (String × TxHash)) (errors : List (String × MinerError))
    (relays : List String) :
    (sending st req winner errors relays).accepted? = winner.map fun _ => req := by
  cases relays <;> cases winner <;> rfl

/-- A failed `resync` is ignored. -/
def resynced (next : Option U64) : Except String U64 → Option U64
  | .ok n => some n
  | .error _ => next

def outcomeOf (st : MiningState) (relay : String) (tx : TxHash) :
    Option TransactionReceipt → SubmitOutcome
  | some r =>
    if r.status then .included tx (r.blockNumber.getD 0) st.rewardWei relay
    else .reverted tx r.blockNumber
  | none => .dropped .receiptTimeout

/-- `head.saturating_sub(included_at) >= confirmations` -/
def Confirmed (confirmations head : U64) (r : TransactionReceipt) : Prop :=
  confirmations.toNat ≤ head.toNat - (r.blockNumber.getD head).toNat

instance (confirmations head : U64) (r : TransactionReceipt) :
    Decidable (Confirmed confirmations head r) := inferInstanceAs (Decidable (_ ≤ _))

/-- `none` says that the call does not wait for this event. The clock is the event
`timeout`: it may end the wait for the receipt before any poll. -/
def resume (view : ChainView) (next : Option U64) (hit : Hit) : Phase → SubmitEvent → Option Resumed
  | .snapshot, .snapshot =>
    match view.miningState with
    | .error e => some (next, .done (.err e))
    | .ok st =>
      if hit.epochId ≠ st.epoch then
        some (next, .done (.ok (.dropped (.staleEpoch hit.epochId st.epoch))))
      else some (next, .on (.gasPrice st))
  | .gasPrice _, .gasPrice (.error e) => some (next, .done (.err (.rpc e)))
  | .gasPrice st, .gasPrice (.ok baseFee) =>
    match addUnsigned cfg.overflowChecks baseFee maxPriority with
    | none => some (next, .done .panicked)
    | some maxFee => some (next, .on (.evGate st maxFee view.head))
  | .evGate _ _ _, .mintsInBlock (.error e) _ => some (next, .done (.err (.contract e)))
  | .evGate st maxFee _, .mintsInBlock (.ok word) profitable =>
    match word.toU64? with
    | none => some (next, .done .panicked)
    | some mints =>
      let gasCost := maxFee.setWidth 256 * gasLimit.setWidth 256
      if EvGate.allow cfg.maxMintsPerBlock mints gasCost profitable then
        match next with
        | some n => some (reserved cfg next hit st maxFee n)
        | none => some (next, .on (.reserve st maxFee))
      else some (next, .done (.ok (.dropped .evGate)))
  | .reserve _ _, .transactionCount (.error e) => some (next, .done (.err (.rpc e)))
  | .reserve st maxFee, .transactionCount (.ok n) => some (reserved cfg next hit st maxFee n)
  | .sign _ _, .signed (.error e) => some (next, .done (.err (.tx e)))
  | .sign st req, .signed (.ok _) => some (next, .on (sending st req none [] cfg.relays))
  | .send st req relay rest winner errors, .sendRaw (.ok tx) =>
    some (next, .on (sending st req (winner.or (some (relay, tx))) errors rest))
  | .send st req relay rest winner errors, .sendRaw (.error e) =>
    some (next, .on (sending st req winner (errors ++ [(relay, .tx (relay ++ ": " ++ e))]) rest))
  | .resyncFailed _ errors, .transactionCount reply =>
    some (resynced next reply, .done (.ok (.dropped (.allRelaysFailed errors))))
  | .receipt st req relay tx, .timeout => some (next, .on (.resync st req relay tx none))
  | .receipt _ _ _ _, .receipt (.error e) => some (next, .done (.err (.rpc e)))
  | .receipt st req relay tx, .receipt (.ok none) => some (next, .on (.receipt st req relay tx))
  | .receipt st req relay tx, .receipt (.ok (some r)) => some (next, .on (.head st req relay tx r))
  | .head _ _ _ _ _, .blockNumber (.error e) => some (next, .done (.err (.rpc e)))
  | .head st req relay tx r, .blockNumber (.ok head) =>
    if Confirmed cfg.confirmations head r then some (next, .on (.resync st req relay tx (some r)))
    else some (next, .on (.receipt st req relay tx))
  | .resync st _ relay tx outcome, .transactionCount reply =>
    some (resynced next reply, .done (.ok (outcomeOf st relay tx outcome)))
  | _, _ => none

/-- The branches of `resume` by name. -/
inductive Resumes (view : ChainView) (next : Option U64) (hit : Hit) :
    Phase → SubmitEvent → Resumed → Prop
  | noState (e : MinerError) : view.miningState = .error e →
      Resumes view next hit .snapshot .snapshot (next, .done (.err e))
  | stale (st : MiningState) : view.miningState = .ok st → hit.epochId ≠ st.epoch →
      Resumes view next hit .snapshot .snapshot
        (next, .done (.ok (.dropped (.staleEpoch hit.epochId st.epoch))))
  | fresh (st : MiningState) : view.miningState = .ok st → hit.epochId = st.epoch →
      Resumes view next hit .snapshot .snapshot (next, .on (.gasPrice st))
  | noPrice (st : MiningState) (e : String) :
      Resumes view next hit (.gasPrice st) (.gasPrice (.error e)) (next, .done (.err (.rpc e)))
  | priceOverflow (st : MiningState) (baseFee : U128) :
      addUnsigned cfg.overflowChecks baseFee maxPriority = none →
      Resumes view next hit (.gasPrice st) (.gasPrice (.ok baseFee)) (next, .done .panicked)
  | priced (st : MiningState) (baseFee maxFee : U128) :
      addUnsigned cfg.overflowChecks baseFee maxPriority = some maxFee →
      Resumes view next hit (.gasPrice st) (.gasPrice (.ok baseFee))
        (next, .on (.evGate st maxFee view.head))
  | noMints (st : MiningState) (maxFee : U128) (head : U64) (e : String) (profitable : Bool) :
      Resumes view next hit (.evGate st maxFee head) (.mintsInBlock (.error e) profitable)
        (next, .done (.err (.contract e)))
  | mintsOverflow (st : MiningState) (maxFee : U128) (head : U64) (word : U256)
      (profitable : Bool) : word.toU64? = none →
      Resumes view next hit (.evGate st maxFee head) (.mintsInBlock (.ok word) profitable)
        (next, .done .panicked)
  | gated (st : MiningState) (maxFee : U128) (head : U64) (word : U256) (profitable : Bool)
      (mints : U64) : word.toU64? = some mints →
      EvGate.allow cfg.maxMintsPerBlock mints (maxFee.setWidth 256 * gasLimit.setWidth 256)
        profitable = false →
      Resumes view next hit (.evGate st maxFee head) (.mintsInBlock (.ok word) profitable)
        (next, .done (.ok (.dropped .evGate)))
  | held (st : MiningState) (maxFee : U128) (head : U64) (word : U256) (profitable : Bool)
      (mints n : U64) : word.toU64? = some mints →
      EvGate.allow cfg.maxMintsPerBlock mints (maxFee.setWidth 256 * gasLimit.setWidth 256)
        profitable = true → next = some n →
      Resumes view next hit (.evGate st maxFee head) (.mintsInBlock (.ok word) profitable)
        (reserved cfg next hit st maxFee n)
  | unheld (st : MiningState) (maxFee : U128) (head : U64) (word : U256) (profitable : Bool)
      (mints : U64) : word.toU64? = some mints →
      EvGate.allow cfg.maxMintsPerBlock mints (maxFee.setWidth 256 * gasLimit.setWidth 256)
        profitable = true → next = none →
      Resumes view next hit (.evGate st maxFee head) (.mintsInBlock (.ok word) profitable)
        (next, .on (.reserve st maxFee))
  | uncounted (st : MiningState) (maxFee : U128) (e : String) :
      Resumes view next hit (.reserve st maxFee) (.transactionCount (.error e))
        (next, .done (.err (.rpc e)))
  | counted (st : MiningState) (maxFee : U128) (n : U64) :
      Resumes view next hit (.reserve st maxFee) (.transactionCount (.ok n))
        (reserved cfg next hit st maxFee n)
  | unsigned (st : MiningState) (req : TransactionRequest) (e : String) :
      Resumes view next hit (.sign st req) (.signed (.error e)) (next, .done (.err (.tx e)))
  | signed (st : MiningState) (req : TransactionRequest) (raw : Unit) :
      Resumes view next hit (.sign st req) (.signed (.ok raw))
        (next, .on (sending st req none [] cfg.relays))
  | accepted (st : MiningState) (req : TransactionRequest) (relay : String) (rest : List String)
      (winner : Option (String × TxHash)) (errors : List (String × MinerError)) (tx : TxHash) :
      Resumes view next hit (.send st req relay rest winner errors) (.sendRaw (.ok tx))
        (next, .on (sending st req (winner.or (some (relay, tx))) errors rest))
  | rejected (st : MiningState) (req : TransactionRequest) (relay : String) (rest : List String)
      (winner : Option (String × TxHash)) (errors : List (String × MinerError)) (e : String) :
      Resumes view next hit (.send st req relay rest winner errors) (.sendRaw (.error e))
        (next, .on (sending st req winner (errors ++ [(relay, .tx (relay ++ ": " ++ e))]) rest))
  | gaveUp (req : TransactionRequest) (errors : List (String × MinerError))
      (reply : Except String U64) :
      Resumes view next hit (.resyncFailed req errors) (.transactionCount reply)
        (resynced next reply, .done (.ok (.dropped (.allRelaysFailed errors))))
  | timedOut (st : MiningState) (req : TransactionRequest) (relay : String) (tx : TxHash) :
      Resumes view next hit (.receipt st req relay tx) .timeout
        (next, .on (.resync st req relay tx none))
  | noReceipt (st : MiningState) (req : TransactionRequest) (relay : String) (tx : TxHash)
      (e : String) :
      Resumes view next hit (.receipt st req relay tx) (.receipt (.error e))
        (next, .done (.err (.rpc e)))
  | unmined (st : MiningState) (req : TransactionRequest) (relay : String) (tx : TxHash) :
      Resumes view next hit (.receipt st req relay tx) (.receipt (.ok none))
        (next, .on (.receipt st req relay tx))
  | mined (st : MiningState) (req : TransactionRequest) (relay : String) (tx : TxHash)
      (r : TransactionReceipt) :
      Resumes view next hit (.receipt st req relay tx) (.receipt (.ok (some r)))
        (next, .on (.head st req relay tx r))
  | noHead (st : MiningState) (req : TransactionRequest) (relay : String) (tx : TxHash)
      (r : TransactionReceipt) (e : String) :
      Resumes view next hit (.head st req relay tx r) (.blockNumber (.error e))
        (next, .done (.err (.rpc e)))
  | confirmed (st : MiningState) (req : TransactionRequest) (relay : String) (tx : TxHash)
      (r : TransactionReceipt) (head : U64) : Confirmed cfg.confirmations head r →
      Resumes view next hit (.head st req relay tx r) (.blockNumber (.ok head))
        (next, .on (.resync st req relay tx (some r)))
  | unconfirmed (st : MiningState) (req : TransactionRequest) (relay : String) (tx : TxHash)
      (r : TransactionReceipt) (head : U64) : ¬ Confirmed cfg.confirmations head r →
      Resumes view next hit (.head st req relay tx r) (.blockNumber (.ok head))
        (next, .on (.receipt st req relay tx))
  | settled (st : MiningState) (req : TransactionRequest) (relay : String) (tx : TxHash)
      (outcome : Option TransactionReceipt) (reply : Except String U64) :
      Resumes view next hit (.resync st req relay tx outcome) (.transactionCount reply)
        (resynced next reply, .done (.ok (outcomeOf st relay tx outcome)))

theorem resume_cases {cfg : SubmitterCfg} {view : ChainView} {next : Option U64} {hit : Hit}
    {phase : Phase} {e : SubmitEvent} {r : Resumed}
    (resumed : resume cfg view next hit phase e = some r) :
    Resumes cfg view next hit phase e r := by
  unfold resume at resumed
  split at resumed
  · split at resumed
    · next e failed =>
      cases resumed
      exact .noState e failed
    · next st read =>
      split at resumed <;> cases resumed
      · next stale => exact .stale st read stale
      · next fresh => exact .fresh st read (not_not.mp fresh)
  · cases resumed
    exact .noPrice _ _
  · split at resumed <;> cases resumed
    · next overflow => exact .priceOverflow _ _ overflow
    · next maxFee sum => exact .priced _ _ maxFee sum
  · cases resumed
    exact .noMints _ _ _ _ _
  · split at resumed
    · next overflow =>
      cases resumed
      exact .mintsOverflow _ _ _ _ _ overflow
    · next mints fits =>
      dsimp only at resumed
      split at resumed
      · next allowed =>
        split at resumed <;> cases resumed
        · next n => exact .held _ _ _ _ _ mints n fits allowed rfl
        · exact .unheld _ _ _ _ _ mints fits allowed rfl
      · next refused =>
        cases resumed
        exact .gated _ _ _ _ _ mints fits (Bool.not_eq_true _ ▸ refused)
  · cases resumed
    exact .uncounted _ _ _
  · cases resumed
    exact .counted _ _ _
  · cases resumed
    exact .unsigned _ _ _
  · cases resumed
    exact .signed _ _ _
  · cases resumed
    exact .accepted _ _ _ _ _ _ _
  · cases resumed
    exact .rejected _ _ _ _ _ _ _
  · cases resumed
    exact .gaveUp _ _ _
  · cases resumed
    exact .timedOut _ _ _ _
  · cases resumed
    exact .noReceipt _ _ _ _ _
  · cases resumed
    exact .unmined _ _ _ _
  · cases resumed
    exact .mined _ _ _ _ _
  · cases resumed
    exact .noHead _ _ _ _ _ _
  · split at resumed <;> cases resumed
    · next deep => exact .confirmed _ _ _ _ _ _ deep
    · next shallow => exact .unconfirmed _ _ _ _ _ _ shallow
  · cases resumed
    exact .settled _ _ _ _ _ _
  · cases resumed

theorem Resumes.resumed {cfg : SubmitterCfg} {view : ChainView} {next : Option U64} {hit : Hit}
    {phase : Phase} {e : SubmitEvent} {r : Resumed}
    (resumes : Resumes cfg view next hit phase e r) :
    resume cfg view next hit phase e = some r := by
  cases resumes <;> simp [resume, *]

/-- The snapshot of a call is the state that it read when it checked its epoch. -/
theorem Resumes.checked {cfg : SubmitterCfg} {view : ChainView} {next : Option U64} {hit : Hit}
    {phase phase' : Phase} {e : SubmitEvent} {r : Resumed} {st : MiningState}
    (resumes : Resumes cfg view next hit phase e r) (on : r.2 = .on phase')
    (checked : phase'.checked? = some st) :
    phase.checked? = some st ∨
      phase = .snapshot ∧ view.miningState = .ok st ∧ hit.epochId = st.epoch := by
  cases resumes with
  | fresh st read fresh =>
    cases on
    cases checked
    exact .inr ⟨rfl, read, fresh⟩
  | priced | unheld =>
    cases on
    exact .inl checked
  | held | counted =>
    obtain ⟨_, _, _, rfl⟩ := reserved_on on
    exact .inl checked
  | signed | accepted | rejected =>
    cases on
    rw [checked?_sending] at checked
    cases checked
  | noState | stale | noPrice | priceOverflow | noMints | mintsOverflow | gated | uncounted
  | unsigned | gaveUp | noReceipt | noHead | settled => cases on
  | timedOut | unmined | mined | confirmed | unconfirmed =>
    cases on
    cases checked

structure Submitter where
  next : Option U64
  holder : Option (Hit × Phase)
  waiting : List Hit

namespace Submitter

def new : Submitter := ⟨none, none, []⟩

/-- The gate is released when the call returns, in whatever way. -/
def settle (s : Submitter) (hit : Hit) : Resumed → Submitter
  | (next, .on phase) => { s with next, holder := some (hit, phase) }
  | (next, .done _) => { s with next, holder := none }

def step (view : ChainView) (s : Submitter) : SubmitEvent → Option Submitter
  | .call hit => some { s with waiting := s.waiting ++ [hit] }
  | .acquire =>
    match s.holder, s.waiting with
    | none, hit :: waiting => some { s with holder := some (hit, .snapshot), waiting }
    | _, _ => none
  | e =>
    match s.holder with
    | some (hit, phase) => (resume cfg view s.next hit phase e).map (s.settle hit)
    | none => none

/-- The call whose transaction a step starts to send. -/
def sends (s : Submitter) : SubmitEvent → Option (Hit × MiningState × TransactionRequest)
  | .signed (.ok _) =>
    match s.holder, cfg.relays with
    | some (hit, .sign st req), _ :: _ => some (hit, st, req)
    | _, _ => none
  | _ => none

/-- The steps by name. -/
inductive Moves (view : ChainView) (s : Submitter) : SubmitEvent → Submitter → Prop
  | call (hit : Hit) : Moves view s (.call hit) { s with waiting := s.waiting ++ [hit] }
  | acquire (hit : Hit) (waiting : List Hit) : s.holder = none → s.waiting = hit :: waiting →
      Moves view s .acquire { s with holder := some (hit, .snapshot), waiting }
  | resume (hit : Hit) (phase : Phase) (e : SubmitEvent) (r : Resumed) :
      s.holder = some (hit, phase) → Resumes cfg view s.next hit phase e r →
      Moves view s e (s.settle hit r)

theorem step_cases {cfg : SubmitterCfg} {view : ChainView} {s t : Submitter} {e : SubmitEvent}
    (taken : step cfg view s e = some t) : Moves cfg view s e t := by
  unfold step at taken
  split at taken
  · cases taken
    exact .call _
  · split at taken <;> cases taken
    next free first => exact .acquire _ _ free first
  · split at taken
    · next hit phase here =>
      obtain ⟨r, resumed, rfl⟩ := Option.map_eq_some_iff.mp taken
      exact .resume hit phase _ r here (resume_cases resumed)
    · cases taken

theorem holder_of_sends {cfg : SubmitterCfg} {s : Submitter} {e : SubmitEvent} {hit : Hit}
    {st : MiningState} {req : TransactionRequest} (sent : sends cfg s e = some (hit, st, req)) :
    s.holder = some (hit, .sign st req) := by
  unfold sends at sent
  split at sent
  · split at sent <;> cases sent
    assumption
  · cases sent

end Submitter

def defaultRelays : List String := ["mev-blocker", "flashbots", "public"]

/-- The submitter as `main` builds it. -/
def SubmitterCfg.deployed (overflowChecks : Bool) (confirmations : U64) (signer : Address) :
    SubmitterCfg where
  overflowChecks := overflowChecks
  maxMintsPerBlock := 10
  relays := defaultRelays
  confirmations := confirmations
  signer := signer

def layoutCfg : SubmitterCfg := .deployed false 2 layoutMiner

def layoutView : ChainView := ⟨150, .ok (Watcher.snapshot 1 1024)⟩

/-- The answers that bring a call of epoch 1 to its account nonce. -/
def layoutCall (nonce : U256) : List SubmitEvent :=
  [.call ⟨nonce, B256.zero, 1⟩, .acquire, .snapshot, .gasPrice (.ok 1),
    .mintsInBlock (.ok 0) true]

end HashMiner.Tx
