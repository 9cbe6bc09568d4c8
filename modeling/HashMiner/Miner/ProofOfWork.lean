import HashMiner.Chain.Freshness
import HashMiner.Gpu.Provenance
import HashMiner.Miner

/-!
# The proof of work of a submitted hit

A hit solves a challenge and a target that the watcher's channel has held. Nothing
compares it with the difficulty of the snapshot that the submitter reads, so it meets
that difficulty only when the channel has held no easier target for the epoch.
-/

namespace HashMiner

open Foundation Chain Gpu Tx

namespace Miner

/-- What the contract asks of a hit in the state `st`. -/
def Proven (keccak : Digest) (miner : Address) (st : MiningState) (hit : Hit) : Prop :=
  (computeInnerHash keccak (computeChallenge keccak chainId contract miner st.epoch)
    hit.nonce).value < st.difficulty.toNat

/-- A transaction is sent only with the proof that its snapshot asks for. -/
def SendsProven (keccak : Digest) (cfg : SubmitterCfg) (m : Miner) (e : MinerEvent) : Prop :=
  ∀ hit st req, sends cfg m e = some (hit, st, req) → Proven keccak cfg.signer st hit

/-- The history: what the channel holds after each step of the watcher. -/
def held (keccak : Digest) (cfg : SubmitterCfg) (m : Miner) : MinerEvent → List ChallengeUpdate
  | .watch e =>
    match m.watcher.step keccak cfg.signer e with
    | some watcher => [watcher.updates.value]
    | none => []
  | _ => []

/-- The job is an update that the channel has held. -/
def Issued (log : List ChallengeUpdate) (job : Job) : Prop := ∃ u ∈ log, u.job = job

/-- The hit solves such a job. -/
def Solves (keccak : Digest) (log : List ChallengeUpdate) (hit : Hit) : Prop :=
  ∃ job, Issued log job ∧ job.Solved keccak hit

/-- A call that passes the check of the epoch reads a difficulty that is not below a
target that the channel has held for this epoch. -/
def Covered (m : Miner) (log : List ChallengeUpdate) : MinerEvent → Prop
  | .submit .snapshot => ∀ hit phase st, m.submitter.holder = some (hit, phase) →
      m.watcher.miningState = .ok st → hit.epochId = st.epoch →
      ∀ u ∈ log, u.epoch = st.epoch → u.target.toNat ≤ st.difficulty.toNat
  | _ => True

variable {keccak : Digest} {gpu : GpuCfg} {cfg : SubmitterCfg} {m t : Miner} {e : MinerEvent}
  {log : List ChallengeUpdate}

/-- What each hit and job is worth on its way. -/
structure Sound (keccak : Digest) (cfg : SubmitterCfg) (m : Miner)
    (log : List ChallengeUpdate) : Prop where
  watcher : m.watcher.Sound keccak cfg.signer
  channel : m.watcher.updates.value ∈ log
  challenges : ∀ u ∈ log, u.challenge = computeChallenge keccak chainId contract cfg.signer u.epoch
  wire : ∀ job, m.wire = .hotSwap job → Issued log job
  pending : ∀ job, m.worker.state.pending = some job → Issued log job
  loop : m.worker.Coherent keccak (Issued log)
  hits : ∀ hit ∈ m.worker.hits, Solves keccak log hit
  waiting : ∀ hit ∈ m.submitter.waiting, Solves keccak log hit
  running : ∀ hit phase, m.submitter.holder = some (hit, phase) → Solves keccak log hit
  checked : ∀ hit phase st, m.submitter.holder = some (hit, phase) → phase.checked? = some st →
    Proven keccak cfg.signer st hit

theorem Issued.append {job : Job} (issued : Issued log job) (more : List ChallengeUpdate) :
    Issued (log ++ more) job := by
  obtain ⟨u, member, same⟩ := issued
  exact ⟨u, List.mem_append_left more member, same⟩

theorem Solves.append {hit : Hit} (solves : Solves keccak log hit) (more : List ChallengeUpdate) :
    Solves keccak (log ++ more) hit := by
  obtain ⟨job, issued, solved⟩ := solves
  exact ⟨job, issued.append more, solved⟩

/-- A step of the watcher adds to the history what the channel holds then. -/
theorem Sound.watch {d : WatcherEvent} {watcher : Watcher} (inv : Sound keccak cfg m log)
    (moved : m.watcher.step keccak cfg.signer d = some watcher) :
    Sound keccak cfg { m with watcher } (log ++ [watcher.updates.value]) := by
  have sound := inv.watcher.step moved
  exact {
    watcher := sound
    channel := List.mem_append_right log (List.mem_singleton_self _)
    challenges := by
      intro u member
      rcases List.mem_append.mp member with old | new
      · exact inv.challenges u old
      · rw [List.mem_singleton.mp new]
        exact sound.challenge
    wire := fun job here => (inv.wire job here).append _
    pending := fun job here => (inv.pending job here).append _
    loop := inv.loop.mono fun job issued => issued.append _
    hits := fun hit member => (inv.hits hit member).append _
    waiting := fun hit member => (inv.waiting hit member).append _
    running := fun hit phase here => (inv.running hit phase here).append _
    checked := inv.checked }

theorem Sound.work {d : WorkerEvent} {worker : Worker} (standard : StandardDigest keccak)
    (inv : Sound keccak cfg m log) (own : d.own = true)
    (moved : m.worker.step gpu d = some worker) : Sound keccak cfg { m with worker } log := by
  obtain ⟨slot, queue⟩ := Worker.shares_of_step own moved
  exact { inv with
    pending := by
      intro job full
      rcases slot with same | empty
      · exact inv.pending job (same ▸ full)
      · cases empty.symm.trans full
    loop := by
      refine inv.loop.step standard moved (fun _ _ issued => issued) fun job took => ?_
      exact inv.pending job (Worker.marks_of_took took).2
    hits := by
      intro hit member
      rcases queue with same | ⟨sent, here, same⟩
      · exact inv.hits hit (same ▸ member)
      · rw [show worker.hits = m.worker.hits ++ [sent] from same] at member
        rcases List.mem_append.mp member with old | new
        · exact inv.hits hit old
        · cases List.mem_singleton.mp new
          have loop := inv.loop
          rw [Worker.Coherent, here] at loop
          obtain ⟨job, issued, _, solved⟩ := loop
          exact ⟨job, issued, solved⟩ }

/-- The check of the epoch is enough where the difficulty covers the targets. -/
theorem Solves.proven {hit : Hit} {st : MiningState} (solves : Solves keccak log hit)
    (challenges : ∀ u ∈ log, u.challenge =
      computeChallenge keccak chainId contract cfg.signer u.epoch)
    (fresh : hit.epochId = st.epoch)
    (covered : ∀ u ∈ log, u.epoch = st.epoch → u.target.toNat ≤ st.difficulty.toNat) :
    Proven keccak cfg.signer st hit := by
  obtain ⟨_, ⟨u, member, rfl⟩, epoch, below⟩ := solves
  have current : u.epoch = st.epoch := epoch.symm.trans fresh
  have solved : (computeInnerHash keccak u.challenge hit.nonce).value < u.target.toNat := below
  rw [challenges u member, current] at solved
  exact Nat.lt_of_lt_of_le solved (covered u member current)

theorem Sound.submit {d : SubmitEvent} {submitter : Submitter} (inv : Sound keccak cfg m log)
    (own : d.own = true) (moved : Submitter.Moves cfg m.view m.submitter d submitter)
    (covered : Covered m log (.submit d)) : Sound keccak cfg { m with submitter } log := by
  cases moved with
  | call => cases own
  | acquire hit waiting free first =>
    exact { inv with
      waiting := fun other member => inv.waiting other (first ▸ List.mem_cons_of_mem hit member)
      running := by
        intro other phase here
        cases here
        exact inv.waiting hit (first ▸ List.mem_cons_self)
      checked := by
        intro other phase st here checked
        cases here
        cases checked }
  | resume hit phase d r running resumed =>
    obtain ⟨next, progress⟩ := r
    have solves := inv.running hit phase running
    exact { inv with
      waiting := by cases progress <;> exact inv.waiting
      running := by
        intro other phase' here
        cases progress <;> cases here
        exact solves
      checked := by
        intro other phase' st here checked
        cases progress <;> cases here
        rcases resumed.checked rfl checked with before | ⟨rfl, read, fresh⟩
        · exact inv.checked hit phase st running before
        · cases resumed
          exact solves.proven inv.challenges fresh (covered hit _ st running read fresh) }

theorem Sound.step (standard : StandardDigest keccak) (inv : Sound keccak cfg m log)
    (taken : Miner.step keccak gpu cfg m e = some t) (covered : Covered m log e) :
    Sound keccak cfg t (log ++ held keccak cfg m e) := by
  cases step_cases taken with
  | watch d watcher moved =>
    have last : held keccak cfg m (.watch d) = [watcher.updates.value] := by
      simp only [held, moved]
    rw [last]
    exact inv.watch moved
  | subscribe =>
    simp only [held, List.append_nil]
    exact { inv with
      watcher := inv.watcher.step (e := .subscribe) rfl
      wire := nofun }
  | borrow =>
    simp only [held, List.append_nil]
    refine { inv with wire := fun job same => ?_ }
    cases same
    exact ⟨m.watcher.updates.value, inv.channel, rfl⟩
  | hotSwap job worker here moved =>
    simp only [held, List.append_nil]
    cases moved
    refine { inv with wire := nofun, pending := fun job' full => ?_ }
    cases full
    exact inv.wire job here
  | changed =>
    simp only [held, List.append_nil]
    exact { inv with wire := nofun }
  | gpu d worker own moved =>
    simp only [held, List.append_nil]
    exact inv.work standard own moved
  | recv hit hits queued =>
    simp only [held, List.append_nil]
    have solve := inv.hits
    rw [queued] at solve
    refine { inv with
      hits := fun other member => solve other (List.mem_cons_of_mem hit member)
      waiting := fun other member => ?_ }
    rw [List.mem_singleton.mp member]
    exact solve hit List.mem_cons_self
  | submit d submitter own moved =>
    simp only [held, List.append_nil]
    exact inv.submit own moved covered

theorem Sound.sends {hit : Hit} {st : MiningState} {req : TransactionRequest}
    (inv : Sound keccak cfg m log) (sent : sends cfg m e = some (hit, st, req)) :
    Proven keccak cfg.signer st hit := by
  cases e with
  | submit d => exact inv.checked hit _ st (Submitter.holder_of_sends sent) rfl
  | watch | subscribe | borrow | hotSwap | changed | gpu | recv => cases sent

theorem start_sound {w : Watcher} {rt : GpuRuntime} {nonceStart : U64}
    {blockNumber : Except String U64} {state : Except String MiningStateReturn}
    (started : Watcher.start keccak cfg.signer blockNumber state = some (.ok w)) :
    Sound keccak cfg (start w rt nonceStart) [w.updates.value] where
  watcher := Watcher.start_sound started
  channel := List.mem_singleton_self _
  challenges := by
    intro u member
    rw [List.mem_singleton.mp member]
    exact (Watcher.start_sound started).challenge
  wire := nofun
  pending := nofun
  loop := Worker.start_coherent rt nonceStart
  hits := nofun
  waiting := nofun
  running := nofun
  checked := nofun

/-- In every run of the miner in which the difficulties that the calls read cover the
targets that were handed out, only hits that prove the work are sent. -/
theorem along_proven_of_covered (keccak : Digest) (standard : StandardDigest keccak) (gpu : GpuCfg)
    (cfg : SubmitterCfg) (blockNumber : Except String U64) (state : Except String MiningStateReturn)
    (w : Watcher) (started : Watcher.start keccak cfg.signer blockNumber state = some (.ok w))
    (rt : GpuRuntime) (nonceStart : U64) (es : List MinerEvent)
    (covered : ((machine keccak gpu cfg).logged (held keccak cfg)).Along
      (fun p e _ => Covered p.1 p.2 e) (start w rt nonceStart, [w.updates.value]) es) :
    (machine keccak gpu cfg).Along (fun m e _ => SendsProven keccak cfg m e)
      (start w rt nonceStart) es := by
  have kept : ∀ (p : Miner × List ChallengeUpdate) (e : MinerEvent)
      (q : Miner × List ChallengeUpdate), Sound keccak cfg p.1 p.2 →
      ((machine keccak gpu cfg).logged (held keccak cfg)).step p e = some q →
      Covered p.1 p.2 e → Sound keccak cfg q.1 q.2 ∧
        SendsProven keccak cfg p.1 e := by
    intro p e q inv taken met
    obtain ⟨moved, log⟩ := (Machine.logged_step _).mp taken
    exact ⟨log ▸ inv.step standard moved met, fun hit st req sent => inv.sends sent⟩
  have along := Machine.Along.of_invariant kept (start_sound started) covered
  exact (Machine.along_logged (P := fun m e _ => SendsProven keccak cfg m e)).mp along

/-- The miner of the layout test in epoch 250707, when its parts have started. -/
def layoutWatcher : Watcher :=
  ⟨25070750, some (Watcher.snapshot 250707 (BitVec.twoPow 256 253)),
    ⟨⟨layoutChallenge, BitVec.twoPow 256 253, 250707, 25070750⟩, 0, 0⟩, none, .tick⟩

theorem start_layoutWatcher :
    Watcher.start Keccak.keccak256 layoutMiner (.ok 25070750)
      (.ok (Watcher.answer 250707 (BitVec.twoPow 256 253))) = some (.ok layoutWatcher) := by
  have decoded : MiningState.decode? (Watcher.answer 250707 (BitVec.twoPow 256 253)) =
      some (Watcher.snapshot 250707 (BitVec.twoPow 256 253)) := rfl
  simp only [Watcher.start, decoded, Option.map_some, Watcher.update, Watcher.snapshot_epoch,
    computeChallenge_layoutMiner]
  rfl

/-- The wire hands the challenge to the loop, which finds the nonce. -/
def layoutSearch : List MinerEvent :=
  [.subscribe, .borrow, .hotSwap, .gpu .check, .gpu .take, .gpu (.swap ⟨.done, .done, none⟩),
    .gpu (.apply 0x4243)] ++ [.gpu (.launch Worker.layoutCalls)]

def layoutFound : Miner :=
  ⟨{ layoutWatcher with updates := layoutWatcher.updates.subscribe }, .changed, 0,
    Worker.layoutSending, .new⟩

theorem run_layoutSearch :
    ((machine Keccak.keccak256 ⟨1, 1⟩ layoutCfg).logged (held Keccak.keccak256 layoutCfg)).run
      (start layoutWatcher .init 0, [layoutWatcher.updates.value]) layoutSearch =
      some (layoutFound, [layoutWatcher.updates.value]) := by
  have loaded :
      ((machine Keccak.keccak256 ⟨1, 1⟩ layoutCfg).logged (held Keccak.keccak256 layoutCfg)).run
        (start layoutWatcher .init 0, [layoutWatcher.updates.value])
        [.subscribe, .borrow, .hotSwap, .gpu .check, .gpu .take, .gpu (.swap ⟨.done, .done, none⟩),
          .gpu (.apply 0x4243)] =
        some ({ layoutFound with worker := Worker.layoutLoaded },
          [layoutWatcher.updates.value]) := rfl
  have launch : (Worker.machine ⟨1, 1⟩).step Worker.layoutLoaded (.launch Worker.layoutCalls) =
      some Worker.layoutSending := Worker.launch_layoutJob rfl ⟨rfl, rfl, rfl, rfl⟩ rfl
  have found : (machine Keccak.keccak256 ⟨1, 1⟩ layoutCfg).step
      { layoutFound with worker := Worker.layoutLoaded } (.gpu (.launch Worker.layoutCalls)) =
      some layoutFound := step_gpu rfl launch
  exact (Machine.run_append _).mpr ⟨_, loaded, (Machine.run_cons _).mpr
    ⟨_, Machine.logged_of_step _ found [layoutWatcher.updates.value], rfl⟩⟩

/-- A poll answers with another difficulty, and the hit is submitted. -/
def layoutPoll (difficulty : U256) : List MinerEvent :=
  [.gpu .send, .watch (.blockNumber (.ok 25070751)),
    .watch (.miningState (.ok (Watcher.answer 250707 difficulty))), .recv, .submit .acquire]

def layoutSubmit : List MinerEvent :=
  [.submit .snapshot, .submit (.gasPrice (.ok 1)), .submit (.mintsInBlock (.ok 0) true),
    .submit (.transactionCount (.ok 0))]

/-- The poll answers with the difficulty of the update. -/
theorem along_proven_unchanged :
    (machine Keccak.keccak256 ⟨1, 1⟩ layoutCfg).Along
      (fun m e _ => SendsProven Keccak.keccak256 layoutCfg m e) (start layoutWatcher .init 0)
      ((layoutSearch ++ layoutPoll (BitVec.twoPow 256 253)) ++
        (layoutSubmit ++ [.submit (.signed (.ok ()))])) := by
  refine along_proven_of_covered Keccak.keccak256 (fun _ => rfl) ⟨1, 1⟩ layoutCfg _ _ _
    start_layoutWatcher .init 0 _ ?_
  have polled : ((machine Keccak.keccak256 ⟨1, 1⟩ layoutCfg).logged
      (held Keccak.keccak256 layoutCfg)).run (layoutFound, [layoutWatcher.updates.value])
      (layoutPoll (BitVec.twoPow 256 253)) =
        some (_, List.replicate 3 layoutWatcher.updates.value) := rfl
  have reached := (Machine.run_append _).mpr ⟨_, run_layoutSearch, polled⟩
  refine Machine.Along.append (Machine.along_of_forall ?_ _) reached ?_
  · simp [layoutSearch, layoutPoll, Covered]
  · refine (Machine.along_cons rfl).mpr ⟨?_, Machine.along_of_forall ?_ _⟩
    · intro hit phase st here read fresh u member same
      cases read
      rw [List.eq_of_mem_replicate member]
      exact le_refl _
    · simp [Covered]

/-- The difficulty falls within the epoch, and a hit that no longer meets it is sent. -/
theorem eased_hit_sent :
    Watcher.start Keccak.keccak256 layoutMiner (.ok 25070750)
        (.ok (Watcher.answer 250707 (BitVec.twoPow 256 253))) = some (.ok layoutWatcher) ∧
      ¬ (machine Keccak.keccak256 ⟨1, 1⟩ layoutCfg).Along
        (fun m e _ => SendsProven Keccak.keccak256 layoutCfg m e) (start layoutWatcher .init 0)
        ((layoutSearch ++ (layoutPoll (BitVec.twoPow 256 252) ++ layoutSubmit)) ++
          [.submit (.signed (.ok ()))]) := by
  refine ⟨start_layoutWatcher, fun along => ?_⟩
  have submitted : (machine Keccak.keccak256 ⟨1, 1⟩ layoutCfg).run layoutFound
      (layoutPoll (BitVec.twoPow 256 252) ++ layoutSubmit) = some _ := rfl
  have reached := (Machine.run_append _).mpr
    ⟨_, Machine.run_of_logged _ run_layoutSearch, submitted⟩
  have proven : Proven Keccak.keccak256 layoutMiner
      (Watcher.snapshot 250707 (BitVec.twoPow 256 252)) ⟨0x4243, B256.zero, 250707⟩ :=
    along.at_step reached rfl _ _ _ rfl
  have value := value_layoutChallenge
  rw [Proven, Watcher.snapshot_epoch, computeChallenge_layoutMiner] at proven
  change (computeInnerHash Keccak.keccak256 layoutChallenge 0x4243).value <
    (BitVec.twoPow 256 252).toNat at proven
  rw [BitVec.toNat_twoPow] at proven
  omega

end Miner

end HashMiner
