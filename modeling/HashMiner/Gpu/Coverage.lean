import HashMiner.Gpu.Launch
import HashMiner.Gpu.Worker

/-!
# The nonces that the loop covers

A launch covers the nonces of its grid, the loop moves on by the batch size. The
grid is an integer division and a cast away from the batch; where neither loses
anything, successive launches cover consecutive nonces.
-/

namespace HashMiner.Gpu

open Foundation Kernel Chain

def defaultBatchSize : U64 := 268435456

/-- The two keys of `[gpu]` that reach the loop, as TOML gives them: integers of 64
bits with a sign. Neither is compared with the other. -/
def GpuCfg.load (threadsPerBlock : Int) (batchSize : Option Int) : Option GpuCfg :=
  if 0 ≤ threadsPerBlock ∧ threadsPerBlock < 2 ^ 32 then
    match batchSize with
    | none => some ⟨BitVec.ofInt 32 threadsPerBlock, defaultBatchSize⟩
    | some batch =>
      if 0 ≤ batch ∧ batch < 2 ^ 63 then
        some ⟨BitVec.ofInt 32 threadsPerBlock, BitVec.ofInt 64 batch⟩
      else none
  else none

/-- What the comments ask of a configuration. -/
structure GpuCfg.Regular (cfg : GpuCfg) : Prop where
  positive : cfg.threadsPerBlock ≠ 0
  divides : cfg.threadsPerBlock.toNat ∣ cfg.batchSize.toNat
  fits : cfg.batchSize.toNat / cfg.threadsPerBlock.toNat < 2 ^ 32

def window (start : U64) (count : Nat) : List U64 :=
  (List.range count).map fun i => start + BitVec.ofNat 64 i

theorem mem_window {start nonce : U64} {count : Nat} :
    nonce ∈ window start count ↔ ∃ i < count, start + BitVec.ofNat 64 i = nonce := by
  simp [window]

theorem window_subset (start : U64) {m n : Nat} (le : m ≤ n) :
    window start m ⊆ window start n := by
  intro nonce member
  obtain ⟨i, inside, same⟩ := mem_window.mp member
  exact mem_window.mpr ⟨i, Nat.lt_of_lt_of_le inside le, same⟩

theorem window_add (start : U64) (m n : Nat) :
    window start (m + n) = window start m ++ window (start + BitVec.ofNat 64 m) n := by
  simp only [window, List.range_add, List.map_append, List.map_map, List.append_cancel_left_eq]
  apply List.map_congr_left
  intro i _
  rw [Function.comp_apply, BitVec.ofNat_add, BitVec.add_assoc]

theorem nodup_window (start : U64) {count : Nat} (bound : count ≤ 2 ^ 64) :
    (window start count).Nodup := by
  refine List.Nodup.map_on ?_ List.nodup_range
  intro i hi j hj same
  rw [List.mem_range] at hi hj
  have equal := congrArg BitVec.toNat ((BitVec.add_right_inj start).mp same)
  rw [BitVec.toNat_ofNat, BitVec.toNat_ofNat, Nat.mod_eq_of_lt (by omega),
    Nat.mod_eq_of_lt (by omega)] at equal
  exact equal

/-- The grid is the batch. -/
theorem GpuCfg.Regular.grid {cfg : GpuCfg} (regular : cfg.Regular) :
    (gridCount cfg.batchSize cfg.threadsPerBlock).toNat =
        cfg.batchSize.toNat / cfg.threadsPerBlock.toNat ∧
      (gridCount cfg.batchSize cfg.threadsPerBlock).toNat * cfg.threadsPerBlock.toNat =
        cfg.batchSize.toNat := by
  have width : (cfg.threadsPerBlock.setWidth 64).toNat = cfg.threadsPerBlock.toNat := by
    rw [BitVec.toNat_setWidth]
    exact Nat.mod_eq_of_lt (by omega)
  have count : (gridCount cfg.batchSize cfg.threadsPerBlock).toNat =
      cfg.batchSize.toNat / cfg.threadsPerBlock.toNat := by
    rw [gridCount, BitVec.toNat_setWidth, BitVec.toNat_udiv, width]
    exact Nat.mod_eq_of_lt regular.fits
  exact ⟨count, count ▸ Nat.div_mul_cancel regular.divides⟩

/-- The nonces that a launch gives to its threads, once the driver has taken it. -/
def GpuRuntime.assigned (rt : GpuRuntime) (nonceStart batchSize : U64) (blockSize : U32) :
    LaunchCalls → List (List U64)
  | { resetFound := .done, resetResult := .done, launch := none, .. } =>
    let l := rt.launch nonceStart batchSize blockSize
    if blockSize = 0 then [] else [(List.range l.threads).map l.nonce]
  | _ => []

namespace Worker

variable {cfg : GpuCfg} {w w' : Worker} {e : WorkerEvent}

/-- One entry a launch. -/
def assigned (cfg : GpuCfg) (w : Worker) : WorkerEvent → List (List U64)
  | .launch calls => w.rt.assigned w.nonceStart cfg.batchSize cfg.threadsPerBlock calls
  | _ => []

/-- The loop goes on at `due`. While a hit waits to be sent it has yet to move on. -/
def Due (cfg : GpuCfg) (due : U64) (w : Worker) : Prop :=
  match w.pc with
  | .exited how => how ≠ .panicked
  | .send _ => w.nonceStart + cfg.batchSize = due
  | _ => w.nonceStart = due

structure Covers (cfg : GpuCfg) (start : U64) (w : Worker) (log : List (List U64)) : Prop where
  covered : log.flatten = window start (log.length * cfg.batchSize.toNat)
  due : Due cfg (start + BitVec.ofNat 64 (log.length * cfg.batchSize.toNat)) w

/-- The grid holds no more threads than the batch has nonces. -/
theorem threads_le (cfg : GpuCfg) :
    (gridCount cfg.batchSize cfg.threadsPerBlock).toNat * cfg.threadsPerBlock.toNat ≤
      cfg.batchSize.toNat := by
  have count : (gridCount cfg.batchSize cfg.threadsPerBlock).toNat ≤
      cfg.batchSize.toNat / cfg.threadsPerBlock.toNat := by
    rw [gridCount, BitVec.toNat_setWidth, BitVec.toNat_udiv, BitVec.toNat_setWidth,
      Nat.mod_eq_of_lt (by omega : cfg.threadsPerBlock.toNat < 2 ^ 64)]
    exact Nat.mod_le _ _
  exact (Nat.mul_le_mul_right _ count).trans (Nat.div_mul_le_self _ _)

/-- The nonces of a launch are those of its grid. -/
theorem assigned_cases (calls : LaunchCalls) :
    assigned cfg w (.launch calls) = [] ∨
      assigned cfg w (.launch calls) = [window w.nonceStart
        ((gridCount cfg.batchSize cfg.threadsPerBlock).toNat * cfg.threadsPerBlock.toNat)] := by
  simp only [assigned]
  unfold GpuRuntime.assigned
  split
  · by_cases empty : cfg.threadsPerBlock = 0
    · left
      rw [if_pos empty]
    · right
      rw [if_neg empty, window]
      congr 1
      apply List.map_congr_left
      intro g _
      exact launch_nonce g
  · exact .inl rfl

/-- A launch that answers has been taken. -/
theorem assigned_answered {calls : LaunchCalls} {nonce : Option U64} {rt : GpuRuntime}
    (answered : w.rt.launchMine w.nonceStart cfg.batchSize cfg.threadsPerBlock calls =
      some (.ok nonce, rt)) :
    assigned cfg w (.launch calls) = [window w.nonceStart
      ((gridCount cfg.batchSize cfg.threadsPerBlock).toNat * cfg.threadsPerBlock.toNat)] := by
  obtain ⟨found, result, launch⟩ := launchMine_taken answered
  refine (assigned_cases calls).resolve_left fun none => ?_
  obtain ⟨_, _, _, _, _, _, _⟩ := calls
  cases found
  cases result
  cases launch
  simp only [assigned, GpuRuntime.assigned, if_neg (launchMine_positive answered)] at none
  cases none

theorem assigned_launch (regular : cfg.Regular) (calls : LaunchCalls) :
    assigned cfg w (.launch calls) = [] ∨
      assigned cfg w (.launch calls) = [window w.nonceStart cfg.batchSize.toNat] := by
  rw [← regular.grid.2]
  exact assigned_cases calls

/-- Between two hot swaps the loop moves on by the batch at every launch. -/
theorem Due.step {ahead : U64} (due : Due cfg ahead w) (taken : step cfg w e = some w')
    (unswapped : ∀ region, e ≠ .apply region) :
    w'.pc = .exited .panicked ∧ cfg.threadsPerBlock = 0 ∨
      Due cfg (ahead + BitVec.ofNat 64 ((assigned cfg w e).length * cfg.batchSize.toNat)) w' := by
  have stay {v : Worker} (due : Due cfg ahead v) :
      Due cfg (ahead + BitVec.ofNat 64 (([] : List (List U64)).length * cfg.batchSize.toNat))
        v := by
    simpa using due
  cases step_cases taken with
  | hotSwap | shutdown | recv | closeRx => exact .inr (stay due)
  | stop | closed => exact .inr (nofun : Exit.returned _ ≠ .panicked)
  | enter here | take _ here =>
    rw [Due, here] at due
    exact .inr (stay due)
  | idle here empty =>
    rw [Due, here] at due
    rcases proceed_cases w with ⟨_, back⟩ | ⟨_, on⟩
    · rw [back]
      exact .inr (stay due)
    · rw [on]
      exact .inr (stay due)
  | swap job calls here =>
    rw [Due, here] at due
    rcases swap_cases w job calls with ⟨e, rt, failed⟩ | ⟨rt, _, swapped⟩
    · rw [failed]
      exact .inr (nofun : Exit.returned _ ≠ .panicked)
    · rw [swapped]
      exact .inr (stay due)
  | apply job region => exact absurd rfl (unswapped region)
  | launch calls answer here answered =>
    rw [Due, here] at due
    obtain ⟨outcome, rt⟩ := answer
    cases outcome with
    | panicked => exact .inl ⟨rfl, launchMine_panicked answered⟩
    | err error => exact .inr (nofun : Exit.returned _ ≠ .panicked)
    | ok nonce =>
      have next : w.nonceStart + cfg.batchSize =
          ahead + BitVec.ofNat 64 ((assigned cfg w (.launch calls)).length *
            cfg.batchSize.toNat) := by
        rw [assigned_answered answered, List.length_singleton, Nat.one_mul, BitVec.ofNat_toNat,
          BitVec.setWidth_eq, due]
      cases nonce with
      | none => exact .inr next
      | some n => exact .inr next
  | send hit here opened room =>
    rw [Due, here] at due
    exact .inr (stay due)

variable {start : U64} {log : List (List U64)}

theorem Covers.extend (regular : cfg.Regular) (inv : Covers cfg start w log)
    (here : w.pc = .launch) (calls : LaunchCalls) :
    (log ++ assigned cfg w (.launch calls)).flatten =
      window start ((log ++ assigned cfg w (.launch calls)).length * cfg.batchSize.toNat) := by
  have due := inv.due
  rw [Due, here] at due
  rcases assigned_launch regular calls with none | some
  · rw [none, List.append_nil]
    exact inv.covered
  · rw [some, List.flatten_append, inv.covered, List.length_append, List.length_singleton,
      Nat.add_mul, Nat.one_mul, window_add, due]
    simp

/-- Between two hot swaps. -/
theorem Covers.step (regular : cfg.Regular) (inv : Covers cfg start w log)
    (taken : step cfg w e = some w') (unswapped : ∀ region, e ≠ .apply region) :
    Covers cfg start w' (log ++ assigned cfg w e) where
  covered := by
    cases step_cases taken with
    | launch calls answer here => exact inv.extend regular here calls
    | hotSwap | shutdown | recv | closeRx | stop | enter | take | idle | swap | apply | send
    | closed =>
      simp only [assigned, List.append_nil]
      exact inv.covered
  due := by
    rcases inv.due.step taken unswapped with ⟨_, empty⟩ | due
    · exact absurd empty regular.positive
    · rw [List.length_append, Nat.add_mul, BitVec.ofNat_add, ← BitVec.add_assoc]
      exact due

theorem start_due (rt : GpuRuntime) (nonceStart : U64) :
    Due cfg nonceStart (Worker.start rt nonceStart) := rfl

theorem apply_due (w : Worker) (job : Job) (region : U64) :
    Due cfg region (w.apply job region) := by
  unfold Worker.apply
  rcases proceed_cases { w with
    state := { w.state with challenge := job.challenge, epochId := job.epochId }
    nonceStart := region } with ⟨_, back⟩ | ⟨_, on⟩
  · rw [back]
    rfl
  · rw [on]
    rfl

/-- The entries of the log are the launches since the loop started, or since it applied
a hot swap: together they cover consecutive nonces once each, the grid loses nothing
of the batch, and the host does not panic. -/
theorem run_covers_window (cfg : GpuCfg) (regular : cfg.Regular) (nonceStart : U64)
    (w w' : Worker) (es : List WorkerEvent) (log : List (List U64))
    (begun : (∃ rt, w = Worker.start rt nonceStart) ∨
      ∃ v, (machine cfg).step v (.apply nonceStart) = some w)
    (unswapped : ∀ region, .apply region ∉ es)
    (ran : ((machine cfg).logged (assigned cfg)).run (w, []) es = some (w', log)) :
    log.flatten = window nonceStart (log.length * cfg.batchSize.toNat) ∧
    (log.length * cfg.batchSize.toNat ≤ 2 ^ 64 → log.flatten.Nodup) ∧
    (gridCount cfg.batchSize cfg.threadsPerBlock).toNat =
      cfg.batchSize.toNat / cfg.threadsPerBlock.toNat ∧
    (gridCount cfg.batchSize cfg.threadsPerBlock).toNat * cfg.threadsPerBlock.toNat =
      cfg.batchSize.toNat ∧
    w'.pc ≠ .exited .panicked := by
  have due : Due cfg nonceStart w := by
    rcases begun with ⟨rt, rfl⟩ | ⟨v, applied⟩
    · exact start_due rt nonceStart
    · have moves : Moves cfg v (.apply nonceStart) w := step_cases applied
      cases moves with
      | apply job => exact apply_due v job nonceStart
  have kept : ∀ p, ∀ e ∈ es, ∀ q, Covers cfg nonceStart p.1 p.2 →
      ((machine cfg).logged (assigned cfg)).step p e = some q → Covers cfg nonceStart q.1 q.2 := by
    rintro ⟨w, log⟩ e member ⟨w', _⟩ inv taken
    obtain ⟨stepped, rfl⟩ := (Machine.logged_step _).mp taken
    exact inv.step regular stepped fun region same => unswapped region (same ▸ member)
  have initial : Covers cfg nonceStart w [] := ⟨by simp [window], by simpa using due⟩
  have inv := Machine.invariant_run_of _ kept initial ran
  refine ⟨inv.covered, fun bound => ?_, regular.grid.1, regular.grid.2, fun panicked => ?_⟩
  · rw [inv.covered]
    exact nodup_window nonceStart bound
  · have ended := inv.due
    rw [Due, panicked] at ended
    exact ended rfl

theorem run_twoThreads {l : Launch} (two : l.threads = 2) (rejected : ∀ g, l.accepts g = false) :
    ∃ grid, (Grid.machine l).run (.start 0 0) [0, 0, 1, 1] = some grid ∧ grid.Complete l ∧
      grid.found = 0 ∧ grid.result = 0 := by
  refine ⟨⟨0, 0, Function.update (Function.update (fun _ => .entry) 0 .exited) 1 .exited⟩,
    ?_, ?_, rfl, rfl⟩
  · simp [Machine.run, Grid.machine, Grid.step, Grid.start, Grid.move, two, rejected]
  · intro g inside
    rcases (by omega : g = 0 ∨ g = 1) with rfl | rfl <;> rfl

/-- The calls of a launch of two threads, neither of which has an accepted nonce. -/
def twoThreads : LaunchCalls := ⟨.done, .done, none, none, none, none, [0, 0, 1, 1]⟩

theorem logged_twoThreads {batchSize : U64} {log : List (List U64)} (ready : w.pc = .launch)
    (one : gridCount batchSize 2 = 1) (zero : w.rt.targetBuf = targetLanes 0) :
    ((machine ⟨2, batchSize⟩).logged (assigned ⟨2, batchSize⟩)).step (w, log)
        (.launch twoThreads) =
      some ({ w with
        rt := { w.rt with foundBuf := 0, resultBuf := 0 }
        nonceStart := w.nonceStart + batchSize
        pc := .check }, log ++ [[w.nonceStart, w.nonceStart + 1]]) := by
  have two : (w.rt.launch w.nonceStart batchSize 2).threads = 2 := by
    rw [Launch.threads, GpuRuntime.launch, one]
    rfl
  have rejected : ∀ g, (w.rt.launch w.nonceStart batchSize 2).accepts g = false := by
    intro g
    simp only [Launch.accepts, GpuRuntime.launch, zero]
    exact less_zero _ _
  obtain ⟨grid, ran, complete, found, result⟩ := run_twoThreads two rejected
  have answered := launchMine_of_run (by decide) ran complete
  rw [found, result] at answered
  have launched : (machine ⟨2, batchSize⟩).step w (.launch twoThreads) = some { w with
        rt := { w.rt with foundBuf := 0, resultBuf := 0 }
        nonceStart := w.nonceStart + batchSize
        pc := .check } := by
    simp only [machine, step, ready, twoThreads, answered, Option.map_some]
    rfl
  have nonces : assigned ⟨2, batchSize⟩ w (.launch twoThreads) =
      [[w.nonceStart, w.nonceStart + 1]] := by
    simp only [assigned, twoThreads, GpuRuntime.assigned, two]
    rw [if_neg (by decide)]
    simp [List.range_succ, launch_nonce]
  rw [← nonces]
  exact Machine.logged_of_step _ launched log

/-- A job that no nonce solves. -/
def idleJob : Job := ⟨layoutChallenge, 0, 250707⟩

/-- The loop before and after it applies the job with the region `0`. -/
def idleSwapped : Worker :=
  { Worker.start .init 0 with
    rt := ⟨challengeLanes layoutChallenge, targetLanes 0, 0, 0, 250707⟩
    currentChallenge := layoutChallenge
    currentEpoch := 250707
    pc := .apply idleJob }

def idleLoaded : Worker :=
  { idleSwapped with state := ⟨layoutChallenge, 250707, none⟩, pc := .launch }

theorem run_idle_twice {batchSize : U64} (one : gridCount batchSize 2 = 1) :
    ∃ w, ((machine ⟨2, batchSize⟩).logged (assigned ⟨2, batchSize⟩)).run (idleLoaded, [])
      ([.launch twoThreads] ++ ([.check, .take] ++ [.launch twoThreads])) =
      some (w, [[0, 1], [0 + batchSize, 0 + batchSize + 1]]) := by
  let between : Worker := { idleLoaded with
    rt := { idleLoaded.rt with foundBuf := 0, resultBuf := 0 }
    nonceStart := 0 + batchSize
    pc := .check }
  have first : ((machine ⟨2, batchSize⟩).logged (assigned ⟨2, batchSize⟩)).step (idleLoaded, [])
      (.launch twoThreads) = some (between, [[0, 1]]) := logged_twoThreads rfl one rfl
  have back : ((machine ⟨2, batchSize⟩).logged (assigned ⟨2, batchSize⟩)).run
      (between, [[0, 1]]) [.check, .take] = some ({ between with pc := .launch }, [[0, 1]]) := rfl
  have second : ((machine ⟨2, batchSize⟩).logged (assigned ⟨2, batchSize⟩)).step
      ({ between with pc := .launch }, [[0, 1]]) (.launch twoThreads) = some (_, _) :=
    logged_twoThreads rfl one rfl
  have rest := (Machine.run_append _).mpr ⟨_, back,
    (Machine.run_cons _).mpr ⟨_, second, Machine.run_nil _ _⟩⟩
  exact ⟨_, (Machine.run_cons _).mpr ⟨_, first, rest⟩⟩

theorem run_covers_window_idle :
    [[(0 : U64), 1], [0 + 2, 0 + 2 + 1]].flatten = window 0 (2 * (2 : U64).toNat) := by
  obtain ⟨w, ran⟩ := run_idle_twice (by decide : gridCount 2 2 = 1)
  have regular : GpuCfg.Regular ⟨2, 2⟩ := ⟨by decide, by decide, by decide⟩
  exact (run_covers_window _ regular 0 _ _ _ _ (.inr ⟨idleSwapped, rfl⟩) (by simp) ran).1

/-- Blocks of two threads do not make a batch of three: after two launches the nonce
`2` between them has not been tried. -/
theorem load_accepts_uneven_batch :
    ∃ cfg, GpuCfg.load 2 (some 3) = some cfg ∧ ∃ v w w' es log,
      (machine cfg).run (Worker.start .init 0)
        [.hotSwap idleJob, .check, .take, .swap ⟨.done, .done, none⟩] = some v ∧
      (machine cfg).step v (.apply 0) = some w ∧ (∀ region, .apply region ∉ es) ∧
      ((machine cfg).logged (assigned cfg)).run (w, []) es = some (w', log) ∧ log.length = 2 ∧
      log.flatten ≠ window 0 (log.length * cfg.batchSize.toNat) := by
  obtain ⟨w, ran⟩ := run_idle_twice (by decide : gridCount 3 2 = 1)
  exact ⟨⟨2, 3⟩, rfl, idleSwapped, idleLoaded, w, _, _, rfl, rfl, by simp, ran, rfl, by decide⟩

end Worker

end HashMiner.Gpu
