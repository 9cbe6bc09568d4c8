import HashMiner.Gpu.Runtime

/-!
# The launch loop

The loop owns the device. `hotSwap` leaves a job in the slot `pending`, which the
loop empties between two launches; hits leave through a bounded channel. Every
access to the shared state is a step of its own, so calls of other threads fall
between any two of them.
-/

namespace HashMiner.Gpu

open Foundation

structure GpuCfg where
  threadsPerBlock : U32
  batchSize : U64

/-- What `hotSwap` is given: `(challenge, target, epoch_id)`. -/
structure Job where
  challenge : B256
  target : U256
  epochId : U64
  deriving DecidableEq

structure WorkerState where
  challenge : B256
  epochId : U64
  pending : Option Job

/-- How `launchLoop` ended; a panic returns nothing. -/
inductive Exit where
  | returned (result : Except MinerError Unit)
  | panicked

/-- The next thing the loop does. -/
inductive Pc where
  | check
  | take
  | swap (job : Job)
  | apply (job : Job)
  | launch
  | send (hit : Hit)
  | exited (how : Exit)

structure Worker where
  rt : GpuRuntime
  state : WorkerState
  shutdown : Bool
  hits : List Hit
  rxOpen : Bool
  nonceStart : U64
  currentChallenge : B256
  currentEpoch : U64
  pc : Pc

inductive WorkerEvent where
  | hotSwap (job : Job)
  | shutdown
  | recv
  | closeRx
  | check
  | take
  | swap (calls : HotSwapCalls)
  | apply (region : U64)
  | launch (calls : LaunchCalls)
  | send

/-- Jobs and hits are handed over by others. -/
def WorkerEvent.own : WorkerEvent → Bool
  | .hotSwap _ | .recv | .closeRx => false
  | _ => true

namespace Worker

/-- `mpsc::channel::<Hit>(16)` -/
def hitCapacity : Nat := 16

/-- `gen_range(0..(1u64 << 62))` draws one of these. -/
def Region (nonce : U64) : Prop := nonce.toNat < 2 ^ 62

instance (nonce : U64) : Decidable (Region nonce) := inferInstanceAs (Decidable (_ < _))

def start (rt : GpuRuntime) (nonceStart : U64) : Worker :=
  ⟨rt, ⟨B256.zero, 0, none⟩, false, [], true, nonceStart, B256.zero, 0, .check⟩

def exit (w : Worker) (how : Exit) : Worker := { w with pc := .exited how }

/-- Launches are skipped until there is a challenge. -/
def proceed (w : Worker) : Worker :=
  { w with pc := if w.currentChallenge = B256.zero then .check else .launch }

def advance (cfg : GpuCfg) (w : Worker) : Worker :=
  { w with nonceStart := w.nonceStart + cfg.batchSize, pc := .check }

def take (w : Worker) : Worker :=
  let taken := { w with state := { w.state with pending := none } }
  match w.state.pending with
  | some job => { taken with pc := .swap job }
  | none => taken.proceed

def swap (w : Worker) (job : Job) (calls : HotSwapCalls) : Worker :=
  match w.rt.hotSwap job.challenge job.target (job.epochId.setWidth 32) calls with
  | (.error e, rt) => { w with rt }.exit (.returned (.error e))
  | (.ok _, rt) =>
    { w with rt, currentChallenge := job.challenge, currentEpoch := job.epochId, pc := .apply job }

def apply (w : Worker) (job : Job) (region : U64) : Worker :=
  { w with
    state := { w.state with challenge := job.challenge, epochId := job.epochId }
    nonceStart := region }.proceed

def launched (cfg : GpuCfg) (w : Worker) : Launched × GpuRuntime → Worker
  | (.panicked, rt) => { w with rt }.exit .panicked
  | (.err e, rt) => { w with rt }.exit (.returned (.error e))
  | (.ok none, rt) => { w with rt }.advance cfg
  | (.ok (some nonce), rt) =>
    { w with rt, pc := .send ⟨nonce.setWidth 256, B256.zero, w.currentEpoch⟩ }

/-- `blocking_send` waits for room, and fails once the receiver is gone. -/
def send (cfg : GpuCfg) (w : Worker) (hit : Hit) : Option Worker :=
  if w.rxOpen then
    if w.hits.length < hitCapacity then some ({ w with hits := w.hits ++ [hit] }.advance cfg)
    else none
  else some (w.exit (.returned (.ok ())))

def step (cfg : GpuCfg) (w : Worker) : WorkerEvent → Option Worker
  | .hotSwap job => some { w with state := { w.state with pending := some job } }
  | .shutdown => some { w with shutdown := true }
  | .recv => if w.hits = [] then none else some { w with hits := w.hits.tail }
  | .closeRx => some { w with rxOpen := false, hits := [] }
  | .check =>
    match w.pc with
    | .check =>
      some (if w.shutdown then w.exit (.returned (.ok ())) else { w with pc := .take })
    | _ => none
  | .take =>
    match w.pc with
    | .take => some w.take
    | _ => none
  | .swap calls =>
    match w.pc with
    | .swap job => some (w.swap job calls)
    | _ => none
  | .apply region =>
    match w.pc with
    | .apply job => if Region region then some (w.apply job region) else none
    | _ => none
  | .launch calls =>
    match w.pc with
    | .launch =>
      (w.rt.launchMine w.nonceStart cfg.batchSize cfg.threadsPerBlock calls).map (w.launched cfg)
    | _ => none
  | .send =>
    match w.pc with
    | .send hit => w.send cfg hit
    | _ => none

def machine (cfg : GpuCfg) : Machine Worker WorkerEvent := ⟨step cfg⟩

variable {cfg : GpuCfg} {w w' : Worker} {e : WorkerEvent}

theorem proceed_cases (w : Worker) :
    w.currentChallenge = B256.zero ∧ w.proceed = { w with pc := .check } ∨
      w.currentChallenge ≠ B256.zero ∧ w.proceed = { w with pc := .launch } := by
  unfold Worker.proceed
  split
  · next skip => exact .inl ⟨skip, rfl⟩
  · next ready => exact .inr ⟨ready, rfl⟩

theorem swap_cases (w : Worker) (job : Job) (calls : HotSwapCalls) :
    (∃ e rt, w.swap job calls = { w with rt }.exit (.returned (.error e))) ∨
      ∃ rt, w.rt.hotSwap job.challenge job.target (job.epochId.setWidth 32) calls = (.ok (), rt) ∧
        w.swap job calls = { w with
          rt, currentChallenge := job.challenge, currentEpoch := job.epochId
          pc := .apply job } := by
  unfold Worker.swap
  split
  · next e rt _ => exact .inl ⟨e, rt, rfl⟩
  · next rt loaded => exact .inr ⟨rt, loaded, rfl⟩

theorem swap_shares (w : Worker) (job : Job) (calls : HotSwapCalls) :
    (w.swap job calls).state = w.state ∧ (w.swap job calls).hits = w.hits := by
  rcases swap_cases w job calls with ⟨_, _, failed⟩ | ⟨_, _, swapped⟩
  · rw [failed]
    exact ⟨rfl, rfl⟩
  · rw [swapped]
    exact ⟨rfl, rfl⟩

theorem launched_shares (cfg : GpuCfg) (w : Worker) (answer : Launched × GpuRuntime) :
    (w.launched cfg answer).state = w.state ∧ (w.launched cfg answer).hits = w.hits := by
  obtain ⟨outcome, rt⟩ := answer
  cases outcome with
  | ok nonce => cases nonce <;> exact ⟨rfl, rfl⟩
  | err | panicked => exact ⟨rfl, rfl⟩

/-- The steps by name. -/
inductive Moves (cfg : GpuCfg) (w : Worker) : WorkerEvent → Worker → Prop
  | hotSwap (job : Job) :
      Moves cfg w (.hotSwap job) { w with state := { w.state with pending := some job } }
  | shutdown : Moves cfg w .shutdown { w with shutdown := true }
  | recv : Moves cfg w .recv { w with hits := w.hits.tail }
  | closeRx : Moves cfg w .closeRx { w with rxOpen := false, hits := [] }
  | stop : w.pc = .check → w.shutdown = true →
      Moves cfg w .check (w.exit (.returned (.ok ())))
  | enter : w.pc = .check → w.shutdown = false → Moves cfg w .check { w with pc := .take }
  | take (job : Job) : w.pc = .take → w.state.pending = some job →
      Moves cfg w .take { w with state := { w.state with pending := none }, pc := .swap job }
  | idle : w.pc = .take → w.state.pending = none → Moves cfg w .take w.proceed
  | swap (job : Job) (calls : HotSwapCalls) : w.pc = .swap job →
      Moves cfg w (.swap calls) (w.swap job calls)
  | apply (job : Job) (region : U64) : w.pc = .apply job → Region region →
      Moves cfg w (.apply region) (w.apply job region)
  | launch (calls : LaunchCalls) (answer : Launched × GpuRuntime) : w.pc = .launch →
      w.rt.launchMine w.nonceStart cfg.batchSize cfg.threadsPerBlock calls = some answer →
      Moves cfg w (.launch calls) (w.launched cfg answer)
  | send (hit : Hit) : w.pc = .send hit → w.rxOpen = true → w.hits.length < hitCapacity →
      Moves cfg w .send ({ w with hits := w.hits ++ [hit] }.advance cfg)
  | closed (hit : Hit) : w.pc = .send hit → w.rxOpen = false →
      Moves cfg w .send (w.exit (.returned (.ok ())))

theorem step_cases (taken : step cfg w e = some w') : Moves cfg w e w' := by
  cases e with
  | hotSwap job =>
    cases taken
    exact .hotSwap job
  | shutdown =>
    cases taken
    exact .shutdown
  | recv =>
    simp only [step] at taken
    split at taken <;> cases taken
    exact .recv
  | closeRx =>
    cases taken
    exact .closeRx
  | check =>
    simp only [step] at taken
    split at taken
    · next here =>
      split at taken <;> cases taken
      · next stopped => exact .stop here stopped
      · next running => exact .enter here (Bool.not_eq_true _ ▸ running)
    · cases taken
  | take =>
    simp only [step] at taken
    split at taken <;> cases taken
    next here =>
    unfold Worker.take
    split
    · next job pending => exact .take job here pending
    · next empty =>
      have same : ({ w with state := { w.state with pending := none } } : Worker) = w := by
        rw [← empty]
      rw [same]
      exact .idle here empty
  | swap calls =>
    simp only [step] at taken
    split at taken <;> cases taken
    next here => exact .swap _ calls here
  | apply region =>
    simp only [step] at taken
    split at taken
    · next here =>
      split at taken <;> cases taken
      next drawn => exact .apply _ region here drawn
    · cases taken
  | launch calls =>
    simp only [step] at taken
    split at taken
    · next here =>
      obtain ⟨answer, answered, rfl⟩ := Option.map_eq_some_iff.mp taken
      exact .launch calls answer here answered
    · cases taken
  | send =>
    simp only [step] at taken
    split at taken
    · next here =>
      unfold Worker.send at taken
      split at taken
      · next opened =>
        split at taken <;> cases taken
        next room => exact .send _ here opened room
      · next gone =>
        cases taken
        exact .closed _ here (Bool.not_eq_true _ ▸ gone)
    · cases taken

/-- A loop that has ended leaves all further steps to others. -/
theorem exited_cases {how : Exit} (ended : w.pc = .exited how) (taken : step cfg w e = some w') :
    w'.pc = .exited how ∧
      ((∃ job, e = .hotSwap job) ∨ e = .shutdown ∨ e = .recv ∨ e = .closeRx) := by
  cases step_cases taken with
  | hotSwap job => exact ⟨ended, .inl ⟨job, rfl⟩⟩
  | shutdown => exact ⟨ended, .inr (.inl rfl)⟩
  | recv => exact ⟨ended, .inr (.inr (.inl rfl))⟩
  | closeRx => exact ⟨ended, .inr (.inr (.inr rfl))⟩
  | stop here | enter here | take _ here | idle here | swap _ _ here | apply _ _ here
  | launch _ _ here | send _ here | closed _ here =>
    rw [ended] at here
    cases here

/-- The loop empties the slot and adds to the hits; the rest is up to others. -/
theorem shares_of_step (own : e.own = true) (taken : step cfg w e = some w') :
    (w'.state.pending = w.state.pending ∨ w'.state.pending = none) ∧
      (w'.hits = w.hits ∨ ∃ hit, w.pc = .send hit ∧ w'.hits = w.hits ++ [hit]) := by
  cases step_cases taken with
  | hotSwap | recv | closeRx => cases own
  | shutdown | enter | stop | closed | apply | idle => exact ⟨.inl rfl, .inl rfl⟩
  | take => exact ⟨.inr rfl, .inl rfl⟩
  | send hit here => exact ⟨.inl rfl, .inr ⟨hit, here, rfl⟩⟩
  | swap job calls =>
    obtain ⟨state, hits⟩ := swap_shares w job calls
    exact ⟨.inl (congrArg _ state), .inl hits⟩
  | launch calls answer =>
    obtain ⟨state, hits⟩ := launched_shares _ w answer
    exact ⟨.inl (congrArg _ state), .inl hits⟩

end Worker

end HashMiner.Gpu
