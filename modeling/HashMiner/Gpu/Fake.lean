import HashMiner.Chain.Contract
import HashMiner.Foundation.Ascending
import HashMiner.Foundation.Clients
import HashMiner.Gpu.Worker

/-!
# The grinder of the tests

`driveOneHit` takes a snapshot in one critical section, searches on its own, waits for the
channel and then writes the counter in another section. Swaps and other calls fall in
between.
-/

namespace HashMiner.Gpu

open Foundation Chain

structure FakeGrinder where
  challenge : B256
  target : U256
  epochId : U64
  nextNonce : U64
  hits : List Hit
  rxOpen : Bool

/-- The hash of a nonce is below the target. -/
def Job.SolvedBy (keccak : Digest) (job : Job) (n : Nat) : Prop :=
  (computeInnerHash keccak job.challenge (BitVec.ofNat 256 n)).value < job.target.toNat

instance (keccak : Digest) (job : Job) : DecidablePred (job.SolvedBy keccak) :=
  fun _ => inferInstanceAs (Decidable (_ < _))

def Job.hit (keccak : Digest) (job : Job) (n : Nat) : Hit where
  nonce := BitVec.ofNat 256 n
  hash := computeInnerHash keccak job.challenge (BitVec.ofNat 256 n)
  epochId := job.epochId

namespace FakeGrinder

/-- A call of `driveOneHit`: the nonces from `start` on are tested for its snapshot. -/
inductive Drive where
  | idle
  | testing (job : Job) (start n : U64)
  | sending (job : Job) (start n : U64)
  | storing (n : U64)

inductive DriveEvent where
  | hotSwap (job : Job)
  | snapshot
  | test
  | send
  | store
  | recv
  | closeRx

variable (overflowChecks : Bool) (keccak : Digest)

def new : FakeGrinder := ⟨B256.zero, 0, 0, 0, [], true⟩

def job (s : FakeGrinder) : Job := ⟨s.challenge, s.target, s.epochId⟩

/-- `mpsc::channel(16)` -/
def hitCapacity : Nat := 16

/-- The range `start..` steps past a nonce before it yields it. A call that panics is over,
and a send to a receiver that is gone fails at once. -/
def act (s : FakeGrinder) : Drive → DriveEvent → Option (FakeGrinder × Drive)
  | .idle, .hotSwap job =>
    some ({ s with
      challenge := job.challenge, target := job.target, epochId := job.epochId
      nextNonce := 0 }, .idle)
  | .idle, .snapshot => some (s, .testing s.job s.nextNonce s.nextNonce)
  | .testing job start n, .test =>
    match addUnsigned overflowChecks n 1 with
    | none => some (s, .idle)
    | some after =>
      if job.SolvedBy keccak n.toNat then some (s, .sending job start n)
      else some (s, .testing job start after)
  | .sending job _ n, .send =>
    if s.rxOpen then
      if s.hits.length < hitCapacity then
        some ({ s with hits := s.hits ++ [job.hit keccak n.toNat] }, .storing n)
      else none
    else some (s, .storing n)
  | .storing n, .store =>
    match addUnsigned overflowChecks n 1 with
    | none => some (s, .idle)
    | some after => some ({ s with nextNonce := after }, .idle)
  | .idle, .recv => if s.hits = [] then none else some ({ s with hits := s.hits.tail }, .idle)
  | .idle, .closeRx => some ({ s with rxOpen := false, hits := [] }, .idle)
  | _, _ => none

abbrev Drives (Id : Type*) := Clients.State Id FakeGrinder Drive

def machine (Id : Type*) [DecidableEq Id] : Machine (Drives Id) (Id × DriveEvent) :=
  Clients.machine ⟨act overflowChecks keccak⟩

/-- What the history of a run tells. -/
inductive Mark (Id : Type*) where
  | swapped
  | started (id : Id)
  | emitted (id : Id) (hit : Hit)

variable {Id : Type*}

def marks (g : Drives Id) : Id × DriveEvent → List (Mark Id)
  | (_, .hotSwap _) => [.swapped]
  | (id, .snapshot) => [.started id]
  | (id, .send) =>
    match g.locals id with
    | .sending job _ n => if g.shared.rxOpen then [.emitted id (job.hit keccak n.toNat)] else []
    | _ => []
  | _ => []

/-- The calls that have started since the last swap, and their hits. -/
structure Period (Id : Type*) where
  started : List Id
  hits : List Hit

/-- The hits are the first nonces that solve the job, in ascending order. -/
def Exact (s : FakeGrinder) (hits : List Hit) : Prop :=
  ∃ b ≤ 2 ^ 64, hits = (Ascending.below (s.job.SolvedBy keccak) b).map (s.job.hit keccak)

/-- If the job can be solved, a nonce that solves it is left to the call. -/
def Left (g : Drives Id) : Id × DriveEvent → Prop
  | (_, .snapshot) => (∃ m < 2 ^ 64, g.shared.job.SolvedBy keccak m) →
    ∃ m, g.shared.nextNonce.toNat ≤ m ∧ m < 2 ^ 64 - 1 ∧ g.shared.job.SolvedBy keccak m
  | _ => True

/-- The counter that a call has read is the one after the last hit, or no nonce in between
solves the job. -/
def Fresh (hits : List Hit) (job : Job) (start : U64) : Prop :=
  Ascending.past (hits.map fun hit => hit.nonce.toNat) ≤ start.toNat ∧
    ∀ m, Ascending.past (hits.map fun hit => hit.nonce.toNat) ≤ m → m < start.toNat →
      ¬ job.SolvedBy keccak m

section History

variable [DecidableEq Id]

def Period.after : Period Id → Mark Id → Period Id
  | _, .swapped => ⟨[], []⟩
  | p, .started id => { p with started := id :: p.started }
  | p, .emitted id hit => if id ∈ p.started then { p with hits := p.hits ++ [hit] } else p

def period (log : List (Mark Id)) : Period Id := log.foldl Period.after ⟨[], []⟩

/-- A call that has started since the last swap emits from a fresh counter. -/
def EmitsFresh (p : Drives Id × List (Mark Id)) : Id × DriveEvent → Prop
  | (id, .send) => ∀ job start n, p.1.locals id = .sending job start n →
    id ∈ (period p.2).started → p.1.shared.rxOpen = true →
    Fresh keccak (period p.2).hits job start
  | _ => True

end History

/-- What a call that has started since the last swap knows. -/
def Searches (s : FakeGrinder) : Drive → Prop
  | .idle | .storing _ => True
  | .testing job start n => job = s.job ∧ ((∀ m < 2 ^ 64, ¬ job.SolvedBy keccak m) ∨
    start.toNat ≤ n.toNat ∧ (∀ m, start.toNat ≤ m → m < n.toNat → ¬ job.SolvedBy keccak m) ∧
      ∃ m, n.toNat ≤ m ∧ m < 2 ^ 64 - 1 ∧ job.SolvedBy keccak m)
  | .sending job start n => job = s.job ∧
    Ascending.First (job.SolvedBy keccak) start.toNat n.toNat

variable {overflowChecks keccak} {s s' : FakeGrinder} {g t : Drives Id} {id : Id}
  {e : DriveEvent} {log : List (Mark Id)} {hits : List Hit}

theorem toNat_hit (job : Job) {n : Nat} (small : n < 2 ^ 64) :
    (job.hit keccak n).nonce.toNat = n :=
  Nat.mod_eq_of_lt (Nat.lt_trans small (by decide))

theorem nonces_hit {job : Job} {b : Nat} (range : b ≤ 2 ^ 64) :
    ((Ascending.below (job.SolvedBy keccak) b).map (job.hit keccak)).map
      (fun hit => hit.nonce.toNat) = Ascending.below (job.SolvedBy keccak) b := by
  have same : ∀ m ∈ Ascending.below (job.SolvedBy keccak) b, (job.hit keccak m).nonce.toNat = m :=
    fun m listed => toNat_hit job (Nat.lt_of_lt_of_le (Ascending.mem_below.mp listed).1 range)
  rw [List.map_map]
  exact (List.map_congr_left same).trans (List.map_id _)

/-- A call that emits the first solution from `start` on goes on with the list exactly when
its counter is fresh. -/
theorem exact_emitted {start n : U64} (exact : Exact keccak s hits)
    (first : Ascending.First (s.job.SolvedBy keccak) start.toNat n.toNat) :
    Exact keccak s (hits ++ [s.job.hit keccak n.toNat]) ↔ Fresh keccak hits s.job start := by
  obtain ⟨b, range, rfl⟩ := exact
  rw [Fresh, nonces_hit range, ← first.continues_iff]
  constructor
  · rintro ⟨c, range', same⟩
    have nonces := congrArg (List.map fun hit : Hit => hit.nonce.toNat) same
    rw [List.map_append, nonces_hit range, nonces_hit range', List.map_singleton,
      toNat_hit _ n.isLt] at nonces
    exact .of_below nonces.symm
  · intro continues
    refine ⟨n.toNat + 1, n.isLt, ?_⟩
    rw [continues.below, List.map_append, List.map_singleton]

theorem Searches.of_job {drive : Drive} (searches : Searches keccak s drive)
    (same : s'.job = s.job) : Searches keccak s' drive := by
  cases drive with
  | idle | storing => trivial
  | testing | sending =>
    rw [Searches, same]
    exact searches

theorem Exact.of_job (exact : Exact keccak s hits) (same : s'.job = s.job) :
    Exact keccak s' hits := by
  rw [Exact, same]
  exact exact

/-- The steps by name. -/
inductive Moves (overflowChecks : Bool) (keccak : Digest) (s : FakeGrinder) :
    Drive → DriveEvent → FakeGrinder → Drive → Prop
  | hotSwap (job : Job) : Moves overflowChecks keccak s .idle (.hotSwap job)
      { s with
        challenge := job.challenge, target := job.target, epochId := job.epochId
        nextNonce := 0 } .idle
  | snapshot : Moves overflowChecks keccak s .idle .snapshot s
      (.testing s.job s.nextNonce s.nextNonce)
  | exhausted (job : Job) (start n : U64) : addUnsigned overflowChecks n 1 = none →
      Moves overflowChecks keccak s (.testing job start n) .test s .idle
  | solved (job : Job) (start n after : U64) : addUnsigned overflowChecks n 1 = some after →
      job.SolvedBy keccak n.toNat →
      Moves overflowChecks keccak s (.testing job start n) .test s (.sending job start n)
  | unsolved (job : Job) (start n after : U64) : addUnsigned overflowChecks n 1 = some after →
      ¬ job.SolvedBy keccak n.toNat →
      Moves overflowChecks keccak s (.testing job start n) .test s (.testing job start after)
  | send (job : Job) (start n : U64) : s.rxOpen = true → s.hits.length < hitCapacity →
      Moves overflowChecks keccak s (.sending job start n) .send
        { s with hits := s.hits ++ [job.hit keccak n.toNat] } (.storing n)
  | closed (job : Job) (start n : U64) : s.rxOpen = false →
      Moves overflowChecks keccak s (.sending job start n) .send s (.storing n)
  | overflow (n : U64) : addUnsigned overflowChecks n 1 = none →
      Moves overflowChecks keccak s (.storing n) .store s .idle
  | store (n after : U64) : addUnsigned overflowChecks n 1 = some after →
      Moves overflowChecks keccak s (.storing n) .store { s with nextNonce := after } .idle
  | recv : Moves overflowChecks keccak s .idle .recv { s with hits := s.hits.tail } .idle
  | closeRx : Moves overflowChecks keccak s .idle .closeRx { s with rxOpen := false, hits := [] }
      .idle

theorem act_cases {drive own : Drive}
    (acts : act overflowChecks keccak s drive e = some (s', own)) :
    Moves overflowChecks keccak s drive e s' own := by
  unfold act at acts
  split at acts
  · cases acts
    exact .hotSwap _
  · cases acts
    exact .snapshot
  · split at acts
    · next overflow =>
      cases acts
      exact .exhausted _ _ _ overflow
    · next after sum =>
      split at acts <;> cases acts
      · next solved => exact .solved _ _ _ after sum solved
      · next unsolved => exact .unsolved _ _ _ after sum unsolved
  · split at acts
    · next opened =>
      split at acts <;> cases acts
      next room => exact .send _ _ _ opened room
    · next gone =>
      cases acts
      exact .closed _ _ _ (Bool.not_eq_true _ ▸ gone)
  · split at acts <;> cases acts
    · next overflow => exact .overflow _ overflow
    · next after sum => exact .store _ after sum
  · split at acts <;> cases acts
    exact .recv
  · cases acts
    exact .closeRx
  · cases acts

/-- A test finds the first solution, as long as there is one ahead. -/
theorem Searches.solved {job : Job} {start n : U64}
    (searches : Searches keccak s (.testing job start n)) (solved : job.SolvedBy keccak n.toNat) :
    Searches keccak s (.sending job start n) := by
  obtain ⟨same, none | ⟨le, gap, _⟩⟩ := searches
  · exact absurd solved (none _ n.isLt)
  · exact ⟨same, solved, le, gap⟩

theorem Searches.unsolved {job : Job} {start n after : U64}
    (searches : Searches keccak s (.testing job start n))
    (sum : addUnsigned overflowChecks n 1 = some after)
    (unsolved : ¬ job.SolvedBy keccak n.toNat) :
    Searches keccak s (.testing job start after) := by
  obtain ⟨same, none | ⟨le, gap, m, ahead, small, solves⟩⟩ := searches
  · exact ⟨same, .inl none⟩
  · have other : n.toNat ≠ m := fun here => unsolved (here ▸ solves)
    have before : n.toNat < m := Nat.lt_of_le_of_ne ahead other
    have next : after.toNat = n.toNat + 1 := by
      refine toNat_of_addUnsigned sum fun _ => ?_
      change n.toNat + 1 < 2 ^ 64
      omega
    refine ⟨same, .inr ⟨?_, fun k low high => ?_, m, ?_, small, solves⟩⟩
    · rw [next]
      exact Nat.le_succ_of_le le
    · rw [next] at high
      rcases Nat.lt_succ_iff_lt_or_eq.mp high with less | rfl
      · exact gap k low less
      · exact unsolved
    · rw [next]
      exact before

structure Sound (keccak : Digest) (g : Drives Id) (p : Period Id) : Prop where
  exact : Exact keccak g.shared p.hits
  searches : ∀ id ∈ p.started, Searches keccak g.shared (g.locals id)

/-- No call has started since a swap that has just been made. -/
theorem sound_swapped (g : Drives Id) : Sound keccak g ⟨[], []⟩ where
  exact := ⟨0, Nat.zero_le _, rfl⟩
  searches := fun _ member => absurd member List.not_mem_nil

variable [DecidableEq Id] {p : Period Id}

theorem period_concat (log : List (Mark Id)) (mark : Mark Id) :
    period (log ++ [mark]) = (period log).after mark := by
  simp [period, List.foldl_append]

theorem Sound.update {own : Drive} (sound : Sound keccak g p) (same : s.job = g.shared.job)
    (mine : id ∈ p.started → Searches keccak s own) :
    Sound keccak ⟨s, Function.update g.locals id own⟩ p where
  exact := sound.exact.of_job same
  searches := by
    refine (Function.forall_update_iff g.locals
      fun other drive => other ∈ p.started → Searches keccak s drive).mpr ⟨mine, ?_⟩
    intro other _ member
    exact (sound.searches other member).of_job same

theorem Sound.snapshot (sound : Sound keccak g p) (left : Left keccak g (id, .snapshot)) :
    Sound keccak
      ⟨g.shared, Function.update g.locals id
        (.testing g.shared.job g.shared.nextNonce g.shared.nextNonce)⟩
      (p.after (.started id)) where
  exact := sound.exact
  searches := by
    refine (Function.forall_update_iff g.locals
      fun other drive => other ∈ id :: p.started → Searches keccak g.shared drive).mpr ⟨?_, ?_⟩
    · intro _
      by_cases solvable : ∃ m < 2 ^ 64, g.shared.job.SolvedBy keccak m
      · refine ⟨rfl, .inr ⟨Nat.le_refl _, fun m low high => ?_, left solvable⟩⟩
        exact absurd high (Nat.not_lt.mpr low)
      · exact ⟨rfl, .inl fun m small solved => solvable ⟨m, small, solved⟩⟩
    · intro other apart member
      exact sound.searches other (List.mem_of_ne_of_mem apart member)

/-- An emission keeps the hits exact when it is from a fresh counter, or by a call that has
started before the last swap. -/
theorem Sound.send {job : Job} {start n : U64} (sound : Sound keccak g p)
    (here : g.locals id = .sending job start n) (same : s.job = g.shared.job) :
    (Exact keccak s (p.after (.emitted id (job.hit keccak n.toNat))).hits ↔
        (id ∈ p.started → Fresh keccak p.hits job start)) ∧
      (Exact keccak s (p.after (.emitted id (job.hit keccak n.toNat))).hits →
        Sound keccak ⟨s, Function.update g.locals id (.storing n)⟩
          (p.after (.emitted id (job.hit keccak n.toNat)))) := by
  by_cases member : id ∈ p.started
  · have searches := sound.searches id member
    rw [here] at searches
    obtain ⟨rfl, first⟩ := searches
    have emits : p.after (.emitted id (g.shared.job.hit keccak n.toNat)) =
        { p with hits := p.hits ++ [g.shared.job.hit keccak n.toNat] } := if_pos member
    rw [emits, Exact, same, ← Exact, exact_emitted sound.exact first]
    refine ⟨⟨fun fresh _ => fresh, fun fresh => fresh member⟩, fun fresh => ?_⟩
    have extended : Sound keccak g { p with hits := p.hits ++ [g.shared.job.hit keccak n.toNat] } :=
      ⟨(exact_emitted sound.exact first).mpr fresh, sound.searches⟩
    exact extended.update same fun _ => trivial
  · have ignores : p.after (.emitted id (job.hit keccak n.toNat)) = p := if_neg member
    rw [ignores]
    have kept : Sound keccak ⟨s, Function.update g.locals id (.storing n)⟩ p :=
      sound.update same fun _ => trivial
    exact ⟨iff_of_true kept.exact fun also => absurd also member, fun _ => kept⟩

theorem Sound.step (sound : Sound keccak g (period log))
    (taken : (machine overflowChecks keccak Id).step g (id, e) = some t)
    (left : Left keccak g (id, e)) :
    (Exact keccak t.shared (period (log ++ marks keccak g (id, e))).hits ↔
        EmitsFresh keccak (g, log) (id, e)) ∧
      (Exact keccak t.shared (period (log ++ marks keccak g (id, e))).hits →
        Sound keccak t (period (log ++ marks keccak g (id, e)))) := by
  obtain ⟨s, own, acts, rfl⟩ := Clients.machine_step.mp taken
  generalize here : g.locals id = drive at acts
  have quiet {more : List (Mark Id)} (none : more = []) (same : s.job = g.shared.job)
      (mine : id ∈ (period log).started → Searches keccak s own) :
      Sound keccak ⟨s, Function.update g.locals id own⟩ (period (log ++ more)) := by
    rw [none, List.append_nil]
    exact sound.update same mine
  cases act_cases acts with
  | hotSwap job =>
    have swapped : period (log ++ [.swapped]) = (⟨[], []⟩ : Period Id) := period_concat log _
    change (Exact _ _ (period (log ++ [.swapped])).hits ↔ True) ∧
      (Exact _ _ (period (log ++ [.swapped])).hits → Sound _ _ (period (log ++ [.swapped])))
    rw [swapped]
    exact ⟨iff_of_true (sound_swapped _).exact trivial, fun _ => sound_swapped _⟩
  | snapshot =>
    change (Exact _ _ (period (log ++ [.started id])).hits ↔ True) ∧
      (Exact _ _ (period (log ++ [.started id])).hits → Sound _ _ (period (log ++ [.started id])))
    rw [period_concat]
    have kept := sound.snapshot left
    exact ⟨iff_of_true kept.exact trivial, fun _ => kept⟩
  | exhausted | overflow | store | recv | closeRx =>
    have kept := quiet rfl rfl fun _ => trivial
    exact ⟨iff_of_true kept.exact trivial, fun _ => kept⟩
  | solved job start n after _ solves =>
    have kept := quiet rfl rfl fun member => (here ▸ sound.searches id member).solved solves
    exact ⟨iff_of_true kept.exact trivial, fun _ => kept⟩
  | unsolved job start n after sum fails =>
    have kept := quiet rfl rfl fun member => (here ▸ sound.searches id member).unsolved sum fails
    exact ⟨iff_of_true kept.exact trivial, fun _ => kept⟩
  | send job start n opened =>
    have mark : marks keccak g (id, .send) = [.emitted id (job.hit keccak n.toNat)] := by
      simp only [marks, here, opened, if_true]
    rw [mark, period_concat]
    have fresh : EmitsFresh keccak (g, log) (id, .send) ↔
        (id ∈ (period log).started → Fresh keccak (period log).hits job start) := by
      constructor
      · intro emits member
        exact emits job start n here member opened
      · intro fresh job' start' n' here' member _
        cases here.symm.trans here'
        exact fresh member
    rw [fresh]
    exact sound.send here rfl
  | closed job start n gone =>
    have mark : marks keccak g (id, .send) = [] := by
      simp [marks, here, gone]
    have kept := quiet mark rfl fun _ => trivial
    refine ⟨iff_of_true kept.exact ?_, fun _ => kept⟩
    intro _ _ _ _ _ opened
    cases gone.symm.trans opened

def start : Drives Id := ⟨new, fun _ => .idle⟩

/-- In every run of swaps and calls side by side, each of which has a nonce left to find:
the hits since the last swap are the first solutions in order, once each, exactly when
every call that has started since then emits from a fresh counter. -/
theorem along_exact_iff (overflowChecks : Bool) (keccak : Digest) (Id : Type*) [DecidableEq Id]
    (es : List (Id × DriveEvent))
    (left : (machine overflowChecks keccak Id).Along (fun g e _ => Left keccak g e) start es) :
    ((machine overflowChecks keccak Id).logged (marks keccak)).Along
        (fun _ _ q => Exact keccak q.1.shared (period q.2).hits) (start, []) es ↔
      ((machine overflowChecks keccak Id).logged (marks keccak)).Along
        (fun p e _ => EmitsFresh keccak p e) (start, []) es := by
  let inv (p : Drives Id × List (Mark Id)) : Prop := Sound keccak p.1 (period p.2)
  have first : inv (start, []) := sound_swapped start
  have left' : ((machine overflowChecks keccak Id).logged (marks keccak)).Along
      (fun p e _ => Left keccak p.1 e) (start, []) es :=
    (Machine.along_logged (P := fun g e _ => Left keccak g e)).mpr left
  refine Machine.Along.iff ?_ first left'
  rintro ⟨g, log⟩ ⟨id, e⟩ ⟨t, log'⟩ inv taken left
  obtain ⟨moved, rfl⟩ := (Machine.logged_step _).mp taken
  exact inv.step moved left

theorem logged_solved {job : Job} {start n after : U64}
    (here : g.locals id = .testing job start n)
    (sum : addUnsigned overflowChecks n 1 = some after) (solved : job.SolvedBy keccak n.toNat)
    (log : List (Mark Id)) :
    ((machine overflowChecks keccak Id).logged (marks keccak)).step (g, log) (id, .test) =
      some (⟨g.shared, Function.update g.locals id (.sending job start n)⟩, log) := by
  have acts : act overflowChecks keccak g.shared (g.locals id) .test =
      some (g.shared, .sending job start n) := by
    simp only [act, here, sum, solved, if_true]
  refine (Machine.logged_step _).mpr ⟨Clients.machine_step.mpr ⟨_, _, acts, rfl⟩, ?_⟩
  exact (List.append_nil log).symm

/-- A job that nonce 0 solves. -/
def easyJob : Job := ⟨layoutChallenge, BitVec.allOnes 256, 250707⟩

theorem easyJob_solved : easyJob.SolvedBy Keccak.keccak256 (0 : U64).toNat := by
  decide +kernel

def easyGrinder : FakeGrinder := ⟨layoutChallenge, BitVec.allOnes 256, 250707, 0, [], true⟩

/-- The job is swapped in and the first call has begun. -/
def easySearch : Drives Nat :=
  ⟨easyGrinder, Function.update (Function.update (fun _ => .idle) 0 .idle) 0
    (.testing easyJob 0 0)⟩

theorem run_easySearch :
    ((machine false Keccak.keccak256 Nat).logged (marks Keccak.keccak256)).run (start, [])
      [(0, .hotSwap easyJob), (0, .snapshot)] = some (easySearch, [.swapped, .started 0]) := rfl

/-- One call finds the nonce. -/
theorem run_one_call :
    ∃ g, ((machine false Keccak.keccak256 Nat).logged (marks Keccak.keccak256)).run (start, [])
        ([(0, .hotSwap easyJob), (0, .snapshot)] ++ [(0, .test)]) =
          some (g, [.swapped, .started 0]) ∧ g.locals 0 = .sending easyJob 0 0 := by
  have here : easySearch.locals 0 = .testing easyJob 0 0 := rfl
  have tested : ((machine false Keccak.keccak256 Nat).logged (marks Keccak.keccak256)).step
      (easySearch, [.swapped, .started 0]) (0, .test) = some (_, [.swapped, .started 0]) :=
    logged_solved here rfl easyJob_solved _
  exact ⟨_, (Machine.run_append _).mpr
    ⟨_, run_easySearch, (Machine.run_cons _).mpr ⟨_, tested, rfl⟩⟩, rfl⟩

theorem along_exact_one_call :
    ((machine false Keccak.keccak256 Nat).logged (marks Keccak.keccak256)).Along
      (fun _ _ q => Exact Keccak.keccak256 q.1.shared (period q.2).hits) (start, [])
      ([(0, .hotSwap easyJob), (0, .snapshot)] ++ [(0, .test)] ++ [(0, .send)]) := by
  refine (along_exact_iff false Keccak.keccak256 Nat _ ?_).mpr ?_
  · refine (Machine.along_cons rfl).mpr ⟨trivial, ?_⟩
    refine (Machine.along_cons rfl).mpr ⟨fun _ => ⟨0, Nat.le_refl _, by decide, easyJob_solved⟩, ?_⟩
    exact Machine.along_of_forall (by simp [Left]) _
  · obtain ⟨g, reached, here⟩ := run_one_call
    refine Machine.Along.append (Machine.along_of_forall (by simp [EmitsFresh]) _) reached ?_
    refine fun q _ => ⟨?_, trivial⟩
    intro job start n sends member opened
    cases here.symm.trans sends
    exact ⟨Nat.le_refl _, fun m _ low => absurd low (Nat.not_lt_zero m)⟩

/-- Two calls take their snapshots before either of them has written the counter, and emit
the same nonce. -/
theorem overlapping_calls_emit_one_nonce :
    ¬ ((machine false Keccak.keccak256 Nat).logged (marks Keccak.keccak256)).Along
      (fun _ _ q => Exact Keccak.keccak256 q.1.shared (period q.2).hits) (start, [])
      ([(0, .hotSwap easyJob), (0, .snapshot)] ++
        [(1, .snapshot), (0, .test), (1, .test), (0, .send)] ++ [(1, .send)]) := by
  intro along
  let both : Drives Nat := ⟨easyGrinder, Function.update easySearch.locals 1 (.testing easyJob 0 0)⟩
  let found : Drives Nat := ⟨easyGrinder, Function.update both.locals 0 (.sending easyJob 0 0)⟩
  have searches : both.locals 0 = .testing easyJob 0 0 := rfl
  have searches' : found.locals 1 = .testing easyJob 0 0 := rfl
  have begins : ((machine false Keccak.keccak256 Nat).logged (marks Keccak.keccak256)).step
      (easySearch, [.swapped, .started 0]) (1, .snapshot) =
        some (both, [.swapped, .started 0, .started 1]) := rfl
  have tested : ((machine false Keccak.keccak256 Nat).logged (marks Keccak.keccak256)).step
      (both, [.swapped, .started 0, .started 1]) (0, .test) = some (found, _) :=
    logged_solved searches rfl easyJob_solved _
  have tested' : ((machine false Keccak.keccak256 Nat).logged (marks Keccak.keccak256)).step
      (found, [.swapped, .started 0, .started 1]) (1, .test) = some (_, _) :=
    logged_solved searches' rfl easyJob_solved _
  have sent : ((machine false Keccak.keccak256 Nat).logged (marks Keccak.keccak256)).run
      (⟨easyGrinder, Function.update found.locals 1 (.sending easyJob 0 0)⟩,
        [.swapped, .started 0, .started 1]) [(0, .send)] = some _ := rfl
  have reached := (Machine.run_append _).mpr ⟨_, run_easySearch,
    (Machine.run_cons _).mpr ⟨_, begins, (Machine.run_cons _).mpr ⟨_, tested,
      (Machine.run_cons _).mpr ⟨_, tested', sent⟩⟩⟩⟩
  have exact : Exact Keccak.keccak256 _ _ := along.at_step reached rfl
  obtain ⟨b, range, same⟩ := exact
  have nonces := congrArg (List.map fun hit : Hit => hit.nonce.toNat) same
  rw [nonces_hit range] at nonces
  have distinct : [0, 0].Nodup := nonces.symm.subst (motive := List.Nodup) Ascending.nodup_below
  exact absurd distinct (by decide)

end FakeGrinder

end HashMiner.Gpu
