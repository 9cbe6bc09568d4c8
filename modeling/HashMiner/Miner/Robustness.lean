import HashMiner.Miner.ProofOfWork

/-!
# Answers out of range

The words of the node's answers are narrowed, and the fee and the account nonce are sums.
A word or a sum that does not fit ends the task at work, or wraps.
-/

namespace HashMiner

open Foundation Chain Gpu Tx

/-- The words that the watcher narrows. -/
def Chain.MiningStateReturn.Fits (st : MiningStateReturn) : Prop :=
  st.epoch.toNat < 2 ^ 64 ∧ st.era.toNat < 2 ^ 64 ∧ st.epochBlocksLeft_.toNat < 2 ^ 64

namespace Tx

/-- The answer fits, and so does what the call adds to it. -/
def InRange (cfg : SubmitterCfg) (next : Option U64) : Phase → SubmitEvent → Prop
  | .gasPrice _, .gasPrice (.ok baseFee) => baseFee.toNat + maxPriority.toNat < 2 ^ 128
  | .evGate _ maxFee _, .mintsInBlock (.ok word) profitable =>
    word.toNat < 2 ^ 64 ∧ ∀ n, next = some n →
      EvGate.allow cfg.maxMintsPerBlock (word.setWidth 64)
        (maxFee.setWidth 256 * gasLimit.setWidth 256) profitable = true → n.toNat + 1 < 2 ^ 64
  | .reserve _ _, .transactionCount (.ok n) => n.toNat + 1 < 2 ^ 64
  | _, _ => True

/-- The call does not panic, fails on an answer out of range, and computes the fee and the
next nonce exactly. -/
structure Handled (cfg : SubmitterCfg) (next : Option U64) (phase : Phase) (e : SubmitEvent)
    (r : Resumed) : Prop where
  total : r.2 ≠ .done .panicked
  error : ¬ InRange cfg next phase e → ∃ error, r.2 = .done (.err error)
  fee : ∀ baseFee st maxFee head, e = .gasPrice (.ok baseFee) →
    r.2 = .on (.evGate st maxFee head) → maxFee.toNat = baseFee.toNat + maxPriority.toNat
  nonce : ∀ st req, r.2 = .on (.sign st req) →
    ∃ after, r.1 = some after ∧ after.toNat = req.nonce.toNat + 1

end Tx

/-- The poll loop goes on whatever it is answered, and the calls handle their answers. -/
def Miner.Robust (cfg : SubmitterCfg) (m : Miner) (t : Miner) : MinerEvent → Prop
  | .watch d => (m.watcher.poll ≠ .panicked → t.watcher.poll ≠ .panicked) ∧
    ∀ st, d = .miningState (.ok st) → ¬ st.Fits → t.watcher = { m.watcher with poll := .tick }
  | .submit d => ∀ hit phase r, m.submitter.holder = some (hit, phase) →
    resume cfg m.view m.submitter.next hit phase d = some r →
    Handled cfg m.submitter.next phase d r
  | _ => True

/-- What the tasks are answered is in range. -/
def Miner.Answered (cfg : SubmitterCfg) (m : Miner) : MinerEvent → Prop
  | .watch (.miningState (.ok st)) => st.Fits
  | .submit d => ∀ hit phase, m.submitter.holder = some (hit, phase) →
    InRange cfg m.submitter.next phase d
  | _ => True

theorem toU64?_eq_none {x : U256} : x.toU64? = none ↔ ¬ x.toNat < 2 ^ 64 := by
  unfold U256.toU64?
  split
  · next small => exact iff_of_false nofun (not_not.mpr small)
  · next large => exact iff_of_true rfl large

theorem toU64?_of_lt {x : U256} (small : x.toNat < 2 ^ 64) : x.toU64? = some (x.setWidth 64) :=
  if_pos small

theorem eq_of_toU64? {x : U256} {n : U64} (fits : x.toU64? = some n) :
    x.toNat < 2 ^ 64 ∧ n = x.setWidth 64 := by
  unfold U256.toU64? at fits
  split at fits <;> cases fits
  next small => exact ⟨small, rfl⟩

theorem Chain.MiningStateReturn.fits_iff (st : MiningStateReturn) :
    st.Fits ↔ MiningState.decode? st ≠ none := by
  constructor
  · rintro ⟨epoch, era, blocksLeft⟩
    simp [MiningState.decode?, toU64?_of_lt epoch, toU64?_of_lt era, toU64?_of_lt blocksLeft]
  · intro decodes
    obtain ⟨snap, decoded⟩ := Option.ne_none_iff_exists'.mp decodes
    simp only [MiningState.decode?, Option.bind_eq_bind, Option.bind_eq_some_iff] at decoded
    obtain ⟨_, epoch, _, era, _, blocksLeft, _⟩ := decoded
    exact ⟨(eq_of_toU64? epoch).1, (eq_of_toU64? era).1, (eq_of_toU64? blocksLeft).1⟩

namespace Tx

variable {cfg : SubmitterCfg} {view : ChainView} {next : Option U64} {hit : Hit}
  {phase : Phase} {e : SubmitEvent} {r : Resumed}

/-- A step that is answered no number computes none. -/
theorem Handled.quiet (range : InRange cfg next phase e) (total : r.2 ≠ .done .panicked)
    (other : ∀ baseFee, e ≠ .gasPrice (.ok baseFee))
    (unsigned : ∀ st req, r.2 ≠ .on (.sign st req)) :
    Handled cfg next phase e r ↔ InRange cfg next phase e := by
  refine iff_of_true ⟨total, fun out => absurd range out, ?_, ?_⟩ range
  · intro baseFee _ _ _ priced
    exact absurd priced (other baseFee)
  · intro st req signing
    exact absurd signing (unsigned st req)

theorem sending_ne_sign (st : MiningState) (req : TransactionRequest)
    (winner : Option (String × TxHash)) (errors : List (String × MinerError))
    (relays : List String) (st' : MiningState) (req' : TransactionRequest) :
    Progress.on (sending st req winner errors relays) ≠ .on (.sign st' req') := by
  cases relays with
  | cons => simp [sending]
  | nil => cases winner <;> simp [sending]

theorem Handled.out (range : ¬ InRange cfg next phase e)
    (other : ∀ error, r.2 ≠ .done (.err error)) :
    Handled cfg next phase e r ↔ InRange cfg next phase e := by
  refine iff_of_false (fun handled => ?_) range
  obtain ⟨error, failed⟩ := handled.error range
  exact other error failed

theorem handled_reserved {n : U64} (st : MiningState) (maxFee : U128)
    (other : ∀ baseFee, e ≠ .gasPrice (.ok baseFee))
    (range : InRange cfg next phase e ↔ n.toNat + 1 < 2 ^ 64) :
    Handled cfg next phase e (reserved cfg next hit st maxFee n) ↔ InRange cfg next phase e := by
  by_cases fits : n.toNat + 1 < 2 ^ 64
  · have sum : addUnsigned cfg.overflowChecks n 1 = some (n + 1) := addUnsigned_of_lt _ fits
    have exact : (n + 1).toNat = n.toNat + 1 := toNat_of_addUnsigned sum fun _ => fits
    have met := range.mpr fits
    rw [reserved, sum]
    refine iff_of_true ⟨nofun, fun out => absurd met out, ?_, ?_⟩ met
    · intro baseFee _ _ _ priced
      exact absurd priced (other baseFee)
    · intro st' req signing
      cases signing
      exact ⟨_, rfl, exact⟩
  · apply Handled.out (fun met => fits (range.mp met))
    intro error failed
    rcases reserved_cases cfg next hit st maxFee n with panicked | ⟨after, _, signing⟩
    · rw [panicked] at failed
      cases failed
    · rw [signing] at failed
      cases failed

theorem handled_priced {st : MiningState} {baseFee maxFee : U128}
    (sum : addUnsigned cfg.overflowChecks baseFee maxPriority = some maxFee) :
    Handled cfg next (.gasPrice st) (.gasPrice (.ok baseFee))
        (next, .on (.evGate st maxFee view.head)) ↔
      InRange cfg next (.gasPrice st) (.gasPrice (.ok baseFee)) := by
  by_cases fits : baseFee.toNat + maxPriority.toNat < 2 ^ 128
  · refine iff_of_true ⟨nofun, fun out => absurd fits out, ?_, nofun⟩ fits
    intro baseFee' st' maxFee' head answer priced
    cases answer
    cases priced
    exact toNat_of_addUnsigned sum fun _ => fits
  · exact Handled.out fits nofun

theorem Resumes.handled_iff (resumes : Resumes cfg view next hit phase e r) :
    Handled cfg next phase e r ↔ InRange cfg next phase e := by
  cases resumes with
  | noState | stale | fresh | noPrice | noMints | uncounted | unsigned | gaveUp
  | timedOut | noReceipt | unmined | mined | noHead | confirmed | unconfirmed | settled =>
    exact Handled.quiet trivial nofun nofun nofun
  | signed | accepted | rejected =>
    exact Handled.quiet trivial nofun nofun (sending_ne_sign _ _ _ _ _)
  | priceOverflow st baseFee overflow =>
    have large := (addUnsigned_eq_none.mp overflow).2
    exact Handled.out (Nat.not_lt.mpr large) nofun
  | priced st baseFee maxFee sum => exact handled_priced sum
  | mintsOverflow _ _ _ _ _ overflow =>
    have large := toU64?_eq_none.mp overflow
    exact Handled.out (fun range => large range.1) nofun
  | gated _ _ _ _ _ mints fits refused =>
    obtain ⟨small, rfl⟩ := eq_of_toU64? fits
    refine Handled.quiet ⟨small, fun n _ allowed => ?_⟩ nofun nofun nofun
    rw [refused] at allowed
    cases allowed
  | held st maxFee head word profitable mints n fits allowed held =>
    obtain ⟨small, rfl⟩ := eq_of_toU64? fits
    refine handled_reserved st maxFee nofun ⟨fun range => range.2 n held allowed, fun sum => ?_⟩
    refine ⟨small, fun n' held' _ => ?_⟩
    cases held.symm.trans held'
    exact sum
  | unheld _ _ _ _ _ mints fits _ unheld =>
    have small := (eq_of_toU64? fits).1
    refine Handled.quiet ⟨small, fun n held => ?_⟩ nofun nofun nofun
    cases unheld.symm.trans held
  | counted st maxFee n => exact handled_reserved st maxFee nofun Iff.rfl

end Tx

namespace Miner

variable {keccak : Digest} {gpu : GpuCfg} {cfg : SubmitterCfg} {m t : Miner} {e : MinerEvent}

theorem robust_watch {d : WatcherEvent} {watcher : Watcher}
    (moved : m.watcher.step keccak cfg.signer d = some watcher) :
    Robust cfg m { m with watcher } (.watch d) ↔ Answered cfg m (.watch d) := by
  cases Watcher.step_cases moved with
  | block | failed | publish =>
    exact iff_of_true ⟨fun _ => nofun, nofun⟩ trivial
  | unread | subscribe | unsubscribe =>
    exact iff_of_true ⟨fun running => running, nofun⟩ trivial
  | panic bn st here undecoded =>
    refine iff_of_false (fun robust => ?_) fun fits => st.fits_iff.mp fits undecoded
    have running : m.watcher.poll ≠ .panicked := fun same => nomatch here.symm.trans same
    exact robust.1 running rfl
  | known bn st snap here decoded =>
    have fits : st.Fits := st.fits_iff.mpr fun undecoded => nomatch undecoded.symm.trans decoded
    refine iff_of_true ⟨fun _ => nofun, fun st' same out => ?_⟩ fits
    cases same
    exact absurd fits out
  | new bn st snap here decoded =>
    have fits : st.Fits := st.fits_iff.mpr fun undecoded => nomatch undecoded.symm.trans decoded
    refine iff_of_true ⟨fun _ => nofun, fun st' same out => ?_⟩ fits
    cases same
    exact absurd fits out

theorem robust_submit {d : SubmitEvent} {submitter : Submitter} (own : d.own = true)
    (moves : Submitter.Moves cfg m.view m.submitter d submitter) :
    Robust cfg m { m with submitter } (.submit d) ↔ Answered cfg m (.submit d) := by
  cases moves with
  | call => cases own
  | acquire hit waiting free =>
    refine iff_of_true (fun hit phase r here => ?_) fun hit phase here => ?_
    · cases free.symm.trans here
    · cases free.symm.trans here
  | resume hit phase e r here resumes =>
    constructor
    · intro robust hit' phase' here'
      cases here.symm.trans here'
      exact resumes.handled_iff.mp (robust hit phase r here resumes.resumed)
    · intro answered hit' phase' r' here' resumed
      cases here.symm.trans here'
      exact (resume_cases resumed).handled_iff.mpr (answered hit phase here)

/-- In every run the tasks go on without a panic and compute what they should exactly when
they are answered in range. -/
theorem along_robust_iff (keccak : Digest) (gpu : GpuCfg) (cfg : SubmitterCfg) (m : Miner)
    (es : List MinerEvent) :
    (machine keccak gpu cfg).Along (fun m e t => Robust cfg m t e) m es ↔
      (machine keccak gpu cfg).Along (fun m e _ => Answered cfg m e) m es := by
  refine Machine.along_congr_steps (fun m e t taken => ?_) m es
  cases step_cases taken with
  | watch d watcher moved => exact robust_watch moved
  | submit d submitter own moves => exact robust_submit own moves
  | subscribe | borrow | hotSwap | changed | gpu | recv => exact Iff.rfl

/-- An epoch that does not fit ends the poll loop for good, and the fee of the largest gas
price wraps in a build without overflow checks. -/
theorem wide_answers_end_polling :
    (∃ t, (machine Keccak.keccak256 ⟨1, 1⟩ layoutCfg).run (start layoutWatcher .init 0)
        ([.watch (.blockNumber (.ok 25070751))] ++
          [.watch (.miningState (.ok (Watcher.answer (BitVec.twoPow 256 64) 1024)))]) = some t ∧
      ∀ d, d.own = true → (machine Keccak.keccak256 ⟨1, 1⟩ layoutCfg).step t (.watch d) = none) ∧
    ¬ (machine Keccak.keccak256 ⟨1, 1⟩ layoutCfg).Along (fun m e t => Robust layoutCfg m t e)
      (start layoutWatcher .init 0) ([.watch (.blockNumber (.ok 25070751))] ++
        [.watch (.miningState (.ok (Watcher.answer (BitVec.twoPow 256 64) 1024)))]) ∧
    ¬ (machine Keccak.keccak256 ⟨1, 1⟩ layoutCfg).Along (fun m e t => Robust layoutCfg m t e)
      (start layoutWatcher .init 0)
      ((layoutSearch ++ (layoutPoll (BitVec.twoPow 256 253) ++ [.submit .snapshot])) ++
        [.submit (.gasPrice (.ok (BitVec.allOnes 128)))]) := by
  refine ⟨⟨_, rfl, fun d own => ?_⟩, fun along => ?_, fun along => ?_⟩
  · cases d with
    | subscribe | unsubscribe => cases own
    | blockNumber | miningState | publish => rfl
  · have robust : Robust layoutCfg _ _ _ := along.at_step rfl rfl
    exact robust.1 nofun rfl
  · have waits : (machine Keccak.keccak256 ⟨1, 1⟩ layoutCfg).run layoutFound
        (layoutPoll (BitVec.twoPow 256 253) ++ [.submit .snapshot]) = some _ := rfl
    have reached := (Machine.run_append _).mpr
      ⟨_, Machine.run_of_logged _ run_layoutSearch, waits⟩
    have robust : Robust layoutCfg _ _ _ := along.at_step reached rfl
    have handled := robust _ _ _ rfl rfl
    have exact := handled.fee _ _ _ _ rfl rfl
    exact absurd exact (by decide)

end Miner

end HashMiner
