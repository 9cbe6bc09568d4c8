import HashMiner.Gpu.Worker
import HashMiner.Tx.Submitter

/-!
# The miner

One task polls the chain, one carries its updates to the grinder, a thread runs the
launch loop, and one task submits the hits one after the other. A step of the miner is
a step of one of them; they meet in the watcher's channel and state, in the slot
`pending` and in the channel of the hits.
-/

namespace HashMiner

open Foundation Chain Gpu Tx

/-- The job that an update is to the grinder, when no target overrides it. -/
def Chain.ChallengeUpdate.job (u : ChallengeUpdate) : Job := ⟨u.challenge, u.target, u.epoch⟩

/-- The next thing that the task does which wires updates to the grinder. -/
inductive Wire where
  | subscribe
  | borrow
  | hotSwap (job : Job)
  | changed

structure Miner where
  watcher : Watcher
  wire : Wire
  seen : Nat
  worker : Worker
  submitter : Submitter

inductive MinerEvent where
  | watch (e : WatcherEvent)
  | subscribe
  | borrow
  | hotSwap
  | changed
  | gpu (e : WorkerEvent)
  | recv
  | submit (e : SubmitEvent)

/-- The loop does not take the part of its receivers. -/
def Chain.WatcherEvent.own : WatcherEvent → Bool
  | .subscribe | .unsubscribe => false
  | _ => true

def Tx.SubmitEvent.own : SubmitEvent → Bool
  | .call _ => false
  | _ => true

namespace Miner

variable (keccak : Digest) (gpu : GpuCfg) (cfg : SubmitterCfg)

/-- `main` has started the parts and not yet wired them. -/
def start (w : Watcher) (rt : GpuRuntime) (nonceStart : U64) : Miner :=
  ⟨w, .subscribe, 0, Worker.start rt nonceStart, .new⟩

def view (m : Miner) : ChainView := ⟨m.watcher.head, m.watcher.miningState⟩

def step (m : Miner) : MinerEvent → Option Miner
  | .watch e =>
    if e.own then
      (m.watcher.step keccak cfg.signer e).map fun watcher => { m with watcher }
    else none
  | .subscribe =>
    match m.wire with
    | .subscribe =>
      some { m with
        watcher := { m.watcher with updates := m.watcher.updates.subscribe }
        seen := m.watcher.updates.version
        wire := .borrow }
    | _ => none
  | .borrow =>
    match m.wire with
    | .borrow =>
      some { m with
        seen := m.watcher.updates.version
        wire := .hotSwap m.watcher.updates.value.job }
    | _ => none
  | .hotSwap =>
    match m.wire with
    | .hotSwap job =>
      (m.worker.step gpu (.hotSwap job)).map fun worker => { m with worker, wire := .changed }
    | _ => none
  | .changed =>
    match m.wire with
    | .changed =>
      if m.seen = m.watcher.updates.version then none
      else some { m with seen := m.watcher.updates.version, wire := .borrow }
    | _ => none
  | .gpu e =>
    if e.own then (m.worker.step gpu e).map fun worker => { m with worker }
    else none
  | .recv =>
    match m.submitter.holder, m.submitter.waiting, m.worker.hits with
    | none, [], hit :: hits =>
      some { m with
        worker := { m.worker with hits }
        submitter := { m.submitter with waiting := [hit] } }
    | _, _, _ => none
  | .submit e =>
    if e.own then
      (m.submitter.step cfg m.view e).map fun submitter => { m with submitter }
    else none

def machine : Machine Miner MinerEvent := ⟨step keccak gpu cfg⟩

/-- The call whose transaction a step starts to send. -/
def sends (m : Miner) : MinerEvent → Option (Hit × MiningState × TransactionRequest)
  | .submit e => m.submitter.sends cfg e
  | _ => none

variable {keccak gpu cfg} {m t : Miner} {e : MinerEvent}

/-- The steps by name. -/
inductive Moves (keccak : Digest) (gpu : GpuCfg) (cfg : SubmitterCfg) (m : Miner) :
    MinerEvent → Miner → Prop
  | watch (e : WatcherEvent) (watcher : Watcher) :
      m.watcher.step keccak cfg.signer e = some watcher →
      Moves keccak gpu cfg m (.watch e) { m with watcher }
  | subscribe : m.wire = .subscribe →
      Moves keccak gpu cfg m .subscribe
        { m with
          watcher := { m.watcher with updates := m.watcher.updates.subscribe }
          seen := m.watcher.updates.version
          wire := .borrow }
  | borrow : m.wire = .borrow →
      Moves keccak gpu cfg m .borrow
        { m with
          seen := m.watcher.updates.version
          wire := .hotSwap m.watcher.updates.value.job }
  | hotSwap (job : Job) (worker : Worker) : m.wire = .hotSwap job →
      m.worker.step gpu (.hotSwap job) = some worker →
      Moves keccak gpu cfg m .hotSwap { m with worker, wire := .changed }
  | changed : m.wire = .changed →
      Moves keccak gpu cfg m .changed
        { m with seen := m.watcher.updates.version, wire := .borrow }
  | gpu (e : WorkerEvent) (worker : Worker) : e.own = true →
      m.worker.step gpu e = some worker →
      Moves keccak gpu cfg m (.gpu e) { m with worker }
  | recv (hit : Hit) (hits : List Hit) : m.worker.hits = hit :: hits →
      Moves keccak gpu cfg m .recv
        { m with
          worker := { m.worker with hits }
          submitter := { m.submitter with waiting := [hit] } }
  | submit (e : SubmitEvent) (submitter : Submitter) : e.own = true →
      Submitter.Moves cfg m.view m.submitter e submitter →
      Moves keccak gpu cfg m (.submit e) { m with submitter }

theorem step_gpu {d : WorkerEvent} {worker : Worker} (own : d.own = true)
    (moved : (Worker.machine gpu).step m.worker d = some worker) :
    (machine keccak gpu cfg).step m (.gpu d) = some { m with worker } := by
  simp only [Worker.machine] at moved
  simp only [machine, step, own, if_true, moved, Option.map_some]

theorem step_cases (taken : step keccak gpu cfg m e = some t) : Moves keccak gpu cfg m e t := by
  cases e with
  | watch e =>
    simp only [step] at taken
    split at taken
    · obtain ⟨watcher, moved, rfl⟩ := Option.map_eq_some_iff.mp taken
      exact .watch e watcher moved
    · cases taken
  | subscribe =>
    simp only [step] at taken
    split at taken <;> cases taken
    next here => exact .subscribe here
  | borrow =>
    simp only [step] at taken
    split at taken <;> cases taken
    next here => exact .borrow here
  | hotSwap =>
    simp only [step] at taken
    split at taken
    · next job here =>
      obtain ⟨worker, moved, rfl⟩ := Option.map_eq_some_iff.mp taken
      exact .hotSwap job worker here moved
    · cases taken
  | changed =>
    simp only [step] at taken
    split at taken
    · next here =>
      split at taken <;> cases taken
      exact .changed here
    · cases taken
  | gpu e =>
    simp only [step] at taken
    split at taken
    · next own =>
      obtain ⟨worker, moved, rfl⟩ := Option.map_eq_some_iff.mp taken
      exact .gpu e worker own moved
    · cases taken
  | recv =>
    simp only [step] at taken
    split at taken <;> cases taken
    next hit hits _ _ queued => exact .recv hit hits queued
  | submit e =>
    simp only [step] at taken
    split at taken
    · next own =>
      obtain ⟨submitter, moved, rfl⟩ := Option.map_eq_some_iff.mp taken
      exact .submit e submitter own (Submitter.step_cases moved)
    · cases taken

end Miner

end HashMiner
