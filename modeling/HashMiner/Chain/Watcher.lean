import HashMiner.Chain.Contract
import HashMiner.Foundation.Machine
import HashMiner.Foundation.Watch

/-!
# The chain watcher

Every poll reads the block number and then the mining state. The snapshot is stored
at once; the challenge is published when the epoch is not the one that the loop
handled last. Other threads read the watcher between any two of its steps.
-/

namespace HashMiner.Chain

open Foundation

structure ChallengeUpdate where
  challenge : B256
  target : U256
  epoch : U64
  blockNumber : U64

structure MiningState where
  era : U64
  rewardWei : U256
  difficulty : U256
  mintedWei : U256
  remainingWei : U256
  epoch : U64
  epochBlocksLeft : U64
  deriving DecidableEq

/-- The words that `miningState()` returns. -/
structure MiningStateReturn where
  era : U256
  reward : U256
  difficulty : U256
  minted : U256
  remaining : U256
  epoch : U256
  epochBlocksLeft_ : U256

/-- A word that does not fit makes the caller panic. -/
def MiningState.decode? (st : MiningStateReturn) : Option MiningState := do
  let epoch ← st.epoch.toU64?
  let era ← st.era.toU64?
  let epochBlocksLeft ← st.epochBlocksLeft_.toU64?
  return {
    era, rewardWei := st.reward, difficulty := st.difficulty, mintedWei := st.minted,
    remainingWei := st.remaining, epoch, epochBlocksLeft }

inductive Poll where
  | tick
  | state (bn : U64)
  | publish (snap : MiningState) (bn : U64)
  | panicked

structure Watcher where
  head : U64
  lastState : Option MiningState
  updates : Watch ChallengeUpdate
  lastEpoch : Option U64
  poll : Poll

inductive WatcherEvent where
  | blockNumber (reply : Except String U64)
  | miningState (reply : Except String MiningStateReturn)
  | publish
  | subscribe
  | unsubscribe

namespace Watcher

variable (keccak : Digest) (miner : Address)

def update (st : MiningState) (bn : U64) : ChallengeUpdate where
  challenge := computeChallenge keccak chainId contract miner st.epoch
  target := st.difficulty
  epoch := st.epoch
  blockNumber := bn

/-- The receiver of the new channel is dropped. -/
def start (blockNumber : Except String U64) (state : Except String MiningStateReturn) :
    Option (Except MinerError Watcher) :=
  match blockNumber with
  | .error e => some (.error (.rpc e))
  | .ok bn =>
    match state with
    | .error e => some (.error (.contract e))
    | .ok st => (MiningState.decode? st).map fun initial =>
      .ok ⟨bn, some initial, (Watch.channel (update keccak miner initial bn)).drop, none, .tick⟩

/-- The reply to `miningState` in the iteration of the block `bn`. -/
def receive (w : Watcher) (bn : U64) : Except String MiningStateReturn → Watcher
  | .error _ => { w with poll := .tick }
  | .ok st =>
    match MiningState.decode? st with
    | none => { w with poll := .panicked }
    | some snap =>
      { w with
        lastState := some snap
        poll := if w.lastEpoch = some snap.epoch then .tick else .publish snap bn }

def publish (w : Watcher) (snap : MiningState) (bn : U64) : Watcher :=
  { w with
    updates := w.updates.send (update keccak miner snap bn)
    lastEpoch := some snap.epoch
    poll := .tick }

def step (w : Watcher) : WatcherEvent → Option Watcher
  | .blockNumber reply =>
    match w.poll with
    | .tick =>
      match reply with
      | .ok bn => some { w with head := bn, poll := .state bn }
      | .error _ => some w
    | _ => none
  | .miningState reply =>
    match w.poll with
    | .state bn => some (w.receive bn reply)
    | _ => none
  | .publish =>
    match w.poll with
    | .publish snap bn => some (w.publish keccak miner snap bn)
    | _ => none
  | .subscribe => some { w with updates := w.updates.subscribe }
  | .unsubscribe => some { w with updates := w.updates.drop }

def machine : Machine Watcher WatcherEvent := ⟨step keccak miner⟩

/-- `mining_state()` of other tasks. -/
def miningState (w : Watcher) : Except MinerError MiningState :=
  match w.lastState with
  | some st => .ok st
  | none => .error (.rpc "no miningState yet")

def challengeFor (w : Watcher) (miner : Address) : Except MinerError B256 :=
  .ok (computeChallenge keccak chainId contract miner (w.head / epochBlocks))

/-- An answer of the contract whose words fit, from before the first mint. -/
def answer (epoch difficulty : U256) : MiningStateReturn :=
  ⟨0, 100000000000000000000, difficulty, 0, 18900000000000000000000000, epoch, 50⟩

/-- What such an answer is read as. -/
def snapshot (epoch : U64) (difficulty : U256) : MiningState :=
  ⟨0, 100000000000000000000, difficulty, 0, 18900000000000000000000000, epoch, 50⟩

@[simp] theorem snapshot_epoch (epoch : U64) (difficulty : U256) :
    (snapshot epoch difficulty).epoch = epoch := rfl

variable {keccak miner} {w t : Watcher} {e : WatcherEvent}

theorem start_cases {blockNumber : Except String U64} {state : Except String MiningStateReturn}
    (started : start keccak miner blockNumber state = some (.ok w)) :
    ∃ bn st initial, blockNumber = .ok bn ∧ state = .ok st ∧
      MiningState.decode? st = some initial ∧
      w = ⟨bn, some initial, (Watch.channel (update keccak miner initial bn)).drop, none,
        .tick⟩ := by
  unfold start at started
  split at started
  · cases started
  · next bn =>
    split at started
    · cases started
    · next st =>
      obtain ⟨initial, decoded, opened⟩ := Option.map_eq_some_iff.mp started
      cases opened
      exact ⟨bn, st, initial, rfl, rfl, decoded, rfl⟩

/-- The steps by name. -/
inductive Moves (keccak : Digest) (miner : Address) (w : Watcher) : WatcherEvent → Watcher → Prop
  | block (bn : U64) : w.poll = .tick →
      Moves keccak miner w (.blockNumber (.ok bn)) { w with head := bn, poll := .state bn }
  | unread (error : String) : w.poll = .tick →
      Moves keccak miner w (.blockNumber (.error error)) w
  | failed (bn : U64) (error : String) : w.poll = .state bn →
      Moves keccak miner w (.miningState (.error error)) { w with poll := .tick }
  | panic (bn : U64) (st : MiningStateReturn) : w.poll = .state bn →
      MiningState.decode? st = none →
      Moves keccak miner w (.miningState (.ok st)) { w with poll := .panicked }
  | known (bn : U64) (st : MiningStateReturn) (snap : MiningState) : w.poll = .state bn →
      MiningState.decode? st = some snap → w.lastEpoch = some snap.epoch →
      Moves keccak miner w (.miningState (.ok st)) { w with lastState := some snap, poll := .tick }
  | new (bn : U64) (st : MiningStateReturn) (snap : MiningState) : w.poll = .state bn →
      MiningState.decode? st = some snap → w.lastEpoch ≠ some snap.epoch →
      Moves keccak miner w (.miningState (.ok st))
        { w with lastState := some snap, poll := .publish snap bn }
  | publish (snap : MiningState) (bn : U64) : w.poll = .publish snap bn →
      Moves keccak miner w .publish (w.publish keccak miner snap bn)
  | subscribe : Moves keccak miner w .subscribe { w with updates := w.updates.subscribe }
  | unsubscribe : Moves keccak miner w .unsubscribe { w with updates := w.updates.drop }

theorem step_cases (taken : step keccak miner w e = some t) : Moves keccak miner w e t := by
  cases e with
  | blockNumber reply =>
    simp only [step] at taken
    split at taken
    · next here =>
      split at taken <;> cases taken
      · exact .block _ here
      · exact .unread _ here
    · cases taken
  | miningState reply =>
    simp only [step] at taken
    split at taken <;> cases taken
    next bn here =>
    unfold receive
    split
    · exact .failed bn _ here
    · split
      · next undecoded => exact .panic bn _ here undecoded
      · next snap decoded =>
        split
        · next same => exact .known bn _ snap here decoded same
        · next fresh => exact .new bn _ snap here decoded fresh
  | publish =>
    simp only [step] at taken
    split at taken <;> cases taken
    next snap bn here => exact .publish snap bn here
  | subscribe =>
    cases taken
    exact .subscribe
  | unsubscribe =>
    cases taken
    exact .unsubscribe

end Watcher

end HashMiner.Chain
