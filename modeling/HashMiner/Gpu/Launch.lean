import HashMiner.Gpu.Acceptance

/-!
# One launch

`launchMine` resets both buffers before its threads run and reads them after all
have exited, so its answer depends on nothing that an earlier launch left.
-/

namespace HashMiner.Gpu

open Foundation Kernel Chain

/-- Thread `g` of the grid hashes the `g`-th nonce of the batch. -/
theorem gid_eq (blockDim : U32) (g : Nat) : gid blockDim g = BitVec.ofNat 64 g := by
  have width : blockDim.setWidth 64 = BitVec.ofNat 64 blockDim.toNat := by
    apply BitVec.eq_of_toNat_eq
    simp
  rw [gid, width, ← BitVec.ofNat_mul, ← BitVec.ofNat_add, Nat.div_add_mod']

variable {rt rt' : GpuRuntime} {nonceStart batchSize : U64} {blockSize : U32}
  {calls : LaunchCalls} {result : Option U64}

theorem launch_nonce (g : Nat) :
    (rt.launch nonceStart batchSize blockSize).nonce g = nonceStart + BitVec.ofNat 64 g := by
  rw [Launch.nonce, gid_eq, GpuRuntime.launch]

/-- A launch writes the buffers of its answer and no others. -/
theorem launchMine_frame {answer : Launched}
    (answered : rt.launchMine nonceStart batchSize blockSize calls = some (answer, rt')) :
    rt' = { rt with foundBuf := rt'.foundBuf, resultBuf := rt'.resultBuf } := by
  unfold GpuRuntime.launchMine at answered
  dsimp only at answered
  repeat' split at answered
  all_goals
    cases answered
    try rfl

theorem launchMine_keeps {answer : Launched}
    (answered : rt.launchMine nonceStart batchSize blockSize calls = some (answer, rt')) :
    rt'.challengeBuf = rt.challengeBuf ∧ rt'.targetBuf = rt.targetBuf := by
  rw [launchMine_frame answered]
  exact ⟨rfl, rfl⟩

/-- The driver takes a launch before it answers it. -/
theorem launchMine_taken
    (answered : rt.launchMine nonceStart batchSize blockSize calls = some (.ok result, rt')) :
    calls.resetFound = .done ∧ calls.resetResult = .done ∧ calls.launch = none := by
  unfold GpuRuntime.launchMine at answered
  dsimp only at answered
  repeat' split at answered
  all_goals
    cases answered
    try exact ⟨‹_›, ‹_›, ‹_›⟩

/-- Only an empty block makes the host panic. -/
theorem launchMine_panicked
    (answered : rt.launchMine nonceStart batchSize blockSize calls = some (.panicked, rt')) :
    blockSize = 0 := by
  unfold GpuRuntime.launchMine at answered
  dsimp only at answered
  repeat' split at answered
  all_goals
    cases answered
    try assumption

theorem launchMine_positive
    (answered : rt.launchMine nonceStart batchSize blockSize calls = some (.ok result, rt')) :
    blockSize ≠ 0 := by
  rintro rfl
  unfold GpuRuntime.launchMine at answered
  dsimp only at answered
  repeat' split at answered
  all_goals
    cases answered
    try contradiction

/-- A launch that answers has run all its threads from cleared buffers. -/
theorem launchMine_ok
    (answered : rt.launchMine nonceStart batchSize blockSize calls = some (.ok result, rt')) :
    ∃ grid, (Grid.machine (rt.launch nonceStart batchSize blockSize)).run (.start 0 0)
        calls.schedule = some grid ∧
      grid.Complete (rt.launch nonceStart batchSize blockSize) ∧
      rt' = { rt with foundBuf := grid.found, resultBuf := grid.result } ∧
      result = if grid.found ≠ 0 then some grid.result else none := by
  unfold GpuRuntime.launchMine at answered
  split at answered
  · cases answered
  split at answered
  · cases answered
  dsimp only at answered
  split at answered
  · cases answered
  split at answered
  · cases answered
  split at answered
  · cases answered
  next grid ran =>
    refine ⟨grid, ran, ?_⟩
    split at answered
    · cases answered
    split at answered
    · next complete =>
      refine ⟨complete, ?_⟩
      split at answered
      · cases answered
      split at answered
      · next set =>
        split at answered <;> cases answered
        exact ⟨rfl, (if_pos set).symm⟩
      · next clear =>
        cases answered
        exact ⟨rfl, (if_neg clear).symm⟩
    · cases answered

/-- A nonce that is answered is a nonce of this launch, and the kernel accepts it. -/
theorem launchMine_some {n : U64}
    (answered : rt.launchMine nonceStart batchSize blockSize calls = some (.ok (some n), rt')) :
    ∃ g < (gridCount batchSize blockSize).toNat * blockSize.toNat,
      n = nonceStart + BitVec.ofNat 64 g ∧ less rt.challengeBuf rt.targetBuf n = true := by
  obtain ⟨grid, ran, complete, rfl, found⟩ := launchMine_ok answered
  obtain ⟨log, logged⟩ := Machine.run_logged _ ran []
  have elects := Grid.run_elects logged
  split at found
  · next set =>
    obtain ⟨w, inside, accepted, _, result⟩ := elects.set_complete complete set
    cases found
    refine ⟨w, inside, result.trans (launch_nonce w), ?_⟩
    rw [result]
    exact accepted
  · cases found

theorem launchMine_none_iff
    (answered : rt.launchMine nonceStart batchSize blockSize calls = some (.ok result, rt')) :
    result = none ↔ ∀ g < (gridCount batchSize blockSize).toNat * blockSize.toNat,
      less rt.challengeBuf rt.targetBuf (nonceStart + BitVec.ofNat 64 g) = false := by
  obtain ⟨grid, ran, complete, rfl, rfl⟩ := launchMine_ok answered
  obtain ⟨log, logged⟩ := Machine.run_logged _ ran []
  have elects := Grid.run_elects logged
  by_cases set : grid.found = 0
  · simp only [set, ne_eq, not_true_eq_false, if_false, true_iff]
    intro g inside
    have rejected := elects.clear_complete complete set g inside
    rwa [Launch.accepts, launch_nonce] at rejected
  · obtain ⟨w, inside, accepted, _⟩ := elects.set_complete complete set
    simp only [set, ne_eq, not_false_eq_true, if_true, reduceCtorEq, false_iff]
    intro rejected
    rw [Launch.accepts, launch_nonce] at accepted
    exact absurd accepted (by rw [Bool.not_eq_true]; exact rejected w inside)

/-- A launch whose calls succeed answers what its threads leave. -/
theorem launchMine_of_run {schedule : List Nat} {grid : Grid} (positive : blockSize ≠ 0)
    (ran : (Grid.machine (rt.launch nonceStart batchSize blockSize)).run (.start 0 0) schedule =
      some grid)
    (complete : grid.Complete (rt.launch nonceStart batchSize blockSize)) :
    rt.launchMine nonceStart batchSize blockSize
        ⟨.done, .done, none, none, none, none, schedule⟩ =
      some (.ok (if grid.found ≠ 0 then some grid.result else none),
        { rt with foundBuf := grid.found, resultBuf := grid.result }) := by
  simp only [GpuRuntime.launch] at ran complete
  simp only [GpuRuntime.launchMine, GpuRuntime.launch, if_neg positive, ran, if_pos complete]
  split <;> rfl

/-- Nothing is below a target of zero. -/
theorem less_zero (challenge : Vector U64 4) (nonce : U64) :
    less challenge (targetLanes 0) nonce = false := by
  have words : ∀ i, (targetLanes 0).get i = 0#64 := by decide
  simp only [less, words]
  simp

theorem run_oneThread {l : Launch} {result : U64} (one : l.threads = 1)
    (accepted : l.accepts 0 = true) :
    ∃ grid, (Grid.machine l).run (.start 0 result) [0, 0, 0] = some grid ∧ grid.Complete l ∧
      grid.found = 1 ∧ grid.result = l.nonce 0 := by
  refine ⟨⟨1, l.nonce 0, Function.update (fun _ => .entry) 0 .exited⟩, ?_, ?_, rfl, rfl⟩
  · simp [Machine.run, Grid.machine, Grid.step, Grid.start, Grid.move, one, accepted]
  · intro g inside
    obtain rfl : g = 0 := by omega
    rfl

theorem launchMine_oneThread (rt : GpuRuntime) {n : U64}
    (accepted : less rt.challengeBuf rt.targetBuf n = true) :
    rt.launchMine n 1 1 ⟨.done, .done, none, none, none, none, [0, 0, 0]⟩ =
      some (.ok (some n), { rt with foundBuf := 1, resultBuf := n }) := by
  have one : (rt.launch n 1 1).threads = 1 := by
    simp [Launch.threads, GpuRuntime.launch, gridCount]
  have nonce : (rt.launch n 1 1).nonce 0 = n := (launch_nonce 0).trans (BitVec.add_zero n)
  obtain ⟨grid, ran, complete, found, result⟩ :=
    run_oneThread one (by rw [Launch.accepts, nonce]; exact accepted)
  rw [launchMine_of_run (by decide) ran complete, found, result, nonce]
  rfl

theorem less_layoutChallenge :
    less (challengeLanes layoutChallenge) (targetLanes (BitVec.twoPow 256 253)) 0x4243 = true :=
  (less_lanes_iff (fun _ => rfl) _ _ _).mpr layoutChallenge_lt

/-- For every schedule of the threads: an answered nonce belongs to the launch and
is accepted, no answer means that no nonce of the launch is accepted, and a set
flag means that exactly one thread stored. -/
theorem launchMine_elects (rt rt' : GpuRuntime) (nonceStart batchSize : U64) (blockSize : U32)
    (calls : LaunchCalls) (result : Option U64)
    (answered : rt.launchMine nonceStart batchSize blockSize calls = some (.ok result, rt')) :
    (∀ n, result = some n → ∃ g < (gridCount batchSize blockSize).toNat * blockSize.toNat,
      n = nonceStart + BitVec.ofNat 64 g ∧ less rt.challengeBuf rt.targetBuf n = true) ∧
    (result = none ↔ ∀ g < (gridCount batchSize blockSize).toNat * blockSize.toNat,
      less rt.challengeBuf rt.targetBuf (nonceStart + BitVec.ofNat 64 g) = false) ∧
    ∃ grid log,
      ((Grid.machine (rt.launch nonceStart batchSize blockSize)).logged Grid.stores).run
        (.start 0 0, []) calls.schedule = some (grid, log) ∧
      rt'.foundBuf = grid.found ∧ rt'.resultBuf = grid.result ∧
      (grid.found ≠ 0 → ∃ w < (gridCount batchSize blockSize).toNat * blockSize.toNat,
        log = [w] ∧ grid.result = nonceStart + BitVec.ofNat 64 w) ∧
      (grid.found = 0 → log = []) := by
  refine ⟨fun n some => launchMine_some (some ▸ answered), launchMine_none_iff answered, ?_⟩
  obtain ⟨grid, ran, complete, rfl, _⟩ := launchMine_ok answered
  obtain ⟨log, logged⟩ := Machine.run_logged _ ran []
  have elects := Grid.run_elects logged
  refine ⟨grid, log, logged, rfl, rfl, fun set => ?_, fun clear => (elects.clear clear).1⟩
  obtain ⟨w, inside, _, stored, result⟩ := elects.set_complete complete set
  exact ⟨w, inside, stored, result.trans (launch_nonce w)⟩

/-- Two threads find the flag clear, and the second one claims it first. -/
theorem run_twoThreads {l : Launch} {result : U64} (two : l.threads = 2)
    (first : l.accepts 0 = true) (second : l.accepts 1 = true) :
    ∃ grid, (Grid.machine l).run (.start 0 result) [0, 1, 1, 0, 1] = some grid ∧
      grid.Complete l ∧ grid.found = 1 ∧ grid.result = l.nonce 1 := by
  refine ⟨⟨1, l.nonce 1,
    Function.update (Function.update (fun _ => .entry) 0 .exited) 1 .exited⟩, ?_, ?_, rfl, rfl⟩
  · simp [Machine.run, Grid.machine, Grid.step, Grid.start, Grid.move, two, first, second,
      Function.update_comm]
  · intro g inside
    obtain rfl | rfl : g = 0 ∨ g = 1 := by omega
    · rfl
    · rfl

/-- Every hash but the greatest is below the greatest target. -/
theorem less_layoutChallenge_allOnes {nonce : U64} (either : nonce = 0x4242 ∨ nonce = 0x4243) :
    less (challengeLanes layoutChallenge) (targetLanes (BitVec.allOnes 256)) nonce = true := by
  rw [less_lanes_iff (fun _ => rfl), BitVec.toNat_allOnes]
  rcases either with rfl | rfl
  · have value := value_layoutChallenge_before
    change (computeInnerHash Keccak.keccak256 layoutChallenge 0x4242).value < _
    omega
  · have value := value_layoutChallenge
    change (computeInnerHash Keccak.keccak256 layoutChallenge 0x4243).value < _
    omega

/-- The buffers of an earlier launch do not show, and the thread that loses does not store. -/
theorem launchMine_elects_twoThreads :
    ∃ rt', GpuRuntime.launchMine
        ⟨challengeLanes layoutChallenge, targetLanes (BitVec.allOnes 256), 9, 1, 0⟩ 0x4242 2 2
        ⟨.done, .done, none, none, none, none, [0, 1, 1, 0, 1]⟩ = some (.ok (some 0x4243), rt') ∧
      ∃ grid log, ((Grid.machine (GpuRuntime.launch
            ⟨challengeLanes layoutChallenge, targetLanes (BitVec.allOnes 256), 9, 1, 0⟩
            0x4242 2 2)).logged Grid.stores).run (.start 0 0, []) [0, 1, 1, 0, 1] =
          some (grid, log) ∧
        log = [1] := by
  let rt : GpuRuntime :=
    ⟨challengeLanes layoutChallenge, targetLanes (BitVec.allOnes 256), 9, 1, 0⟩
  have two : (rt.launch 0x4242 2 2).threads = 2 := by
    simp [Launch.threads, GpuRuntime.launch, gridCount]
  have first : (rt.launch 0x4242 2 2).nonce 0 = 0x4242 := by
    rw [launch_nonce]
    rfl
  have second : (rt.launch 0x4242 2 2).nonce 1 = 0x4243 := by
    rw [launch_nonce]
    rfl
  obtain ⟨grid, ran, complete, found, result⟩ := run_twoThreads two
    (less_layoutChallenge_allOnes (.inl first)) (less_layoutChallenge_allOnes (.inr second))
  have answered := launchMine_of_run (by decide) ran complete
  rw [found, result, second] at answered
  obtain ⟨_, _, grid', log, logged, same, wrote, stores, _⟩ :=
    launchMine_elects rt _ 0x4242 2 2 _ _ answered
  have set : grid'.found ≠ 0 := by
    rw [← same]
    decide
  obtain ⟨w, inside, rfl, stored⟩ := stores set
  refine ⟨_, answered, grid', [w], logged, ?_⟩
  have threads : w < 2 := two ▸ inside
  obtain rfl | rfl : w = 0 ∨ w = 1 := by omega
  · cases wrote.trans stored
  · rfl

end HashMiner.Gpu
