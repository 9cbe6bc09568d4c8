import HashMiner.Gpu.Coverage
import HashMiner.Miner.Delivery
import HashMiner.Miner.ProofOfWork

/-!
# Nonces that are tried once

The loop draws a region whenever it applies an update, also one that repeats what it
works on. It keeps no account of the stretches that have been searched for an epoch, so a
search may run into an earlier one.
-/

namespace HashMiner

open Foundation Chain Gpu Tx

/-- What the contract remembers of a proof, next to the miner. -/
def Hit.pair (hit : Hit) : U64 × U256 := (hit.epochId, hit.nonce)

namespace Gpu

inductive Trial where
  | drew
  | tried (epochId : U64) (nonces : List U64)
  | emitted (hit : Hit)

def pairs (epochId : U64) (nonces : List U64) : List (U64 × U256) :=
  nonces.map fun nonce => (epochId, nonce.setWidth 256)

def ofEpoch (epochId : U64) (pairs : List (U64 × U256)) : List (U64 × U256) :=
  pairs.filter fun pair => pair.1 = epochId

/-- The history of a run: the pairs that were tried before the last draw, the launches
since and the pairs tried by them, and the pairs that were emitted as hits. -/
structure Record where
  earlier : List (U64 × U256)
  launches : Nat
  current : List (U64 × U256)
  emitted : List (U64 × U256)

namespace Record

def start : Record := ⟨[], 0, [], []⟩

def after (r : Record) : Trial → Record
  | .drew => { r with earlier := r.earlier ++ r.current, launches := 0, current := [] }
  | .tried epochId nonces =>
    { r with launches := r.launches + 1, current := r.current ++ pairs epochId nonces }
  | .emitted hit => { r with emitted := r.emitted ++ [hit.pair] }

def extend (r : Record) (more : List Trial) : Record := more.foldl after r

def tried (r : Record) : List (U64 × U256) := r.earlier ++ r.current

/-- No more nonces have been tried in the epoch than there are. -/
def Within (r : Record) (epochId : U64) : Prop := (ofEpoch epochId r.tried).length ≤ 2 ^ 64

instance (r : Record) (epochId : U64) : Decidable (r.Within epochId) :=
  inferInstanceAs (Decidable (_ ≤ _))

/-- Nothing was tried and nothing emitted twice. -/
def Novel (r : Record) : Prop :=
  ∀ epochId, r.Within epochId →
    (ofEpoch epochId r.tried).Nodup ∧ (ofEpoch epochId r.emitted).Nodup

end Record

def record (log : List Trial) : Record := Record.start.extend log

theorem record_append (log more : List Trial) :
    record (log ++ more) = (record log).extend more := List.foldl_append

theorem pair_injective (epochId : U64) :
    Function.Injective fun nonce : U64 => (epochId, (nonce.setWidth 256 : U256)) := by
  intro m n same
  have equal := congrArg (fun pair : U64 × U256 => pair.2.toNat) same
  simp only [BitVec.toNat_setWidth] at equal
  rw [Nat.mod_eq_of_lt (by omega), Nat.mod_eq_of_lt (by omega)] at equal
  exact BitVec.eq_of_toNat_eq equal

theorem ofEpoch_append (epochId : U64) (ps qs : List (U64 × U256)) :
    ofEpoch epochId (ps ++ qs) = ofEpoch epochId ps ++ ofEpoch epochId qs := List.filter_append _ _

theorem mem_ofEpoch {epochId : U64} {ps : List (U64 × U256)} {p : U64 × U256} :
    p ∈ ofEpoch epochId ps ↔ p ∈ ps ∧ p.1 = epochId := by
  simp [ofEpoch]

/-- Pairs of one epoch are all seen in it, and not in another one. -/
theorem ofEpoch_cases {epochId : U64} {ps : List (U64 × U256)} (all : ∀ p ∈ ps, p.1 = epochId)
    (other : U64) :
    other = epochId ∧ ofEpoch other ps = ps ∨ other ≠ epochId ∧ ofEpoch other ps = [] := by
  by_cases same : other = epochId
  · left
    refine ⟨same, List.filter_eq_self.mpr fun p member => ?_⟩
    exact decide_eq_true ((all p member).trans same.symm)
  · right
    refine ⟨same, List.filter_eq_nil_iff.mpr fun p member => ?_⟩
    rw [decide_eq_true_eq, all p member]
    exact Ne.symm same

/-- Pairs of one epoch are added. -/
theorem nodup_ofEpoch_append {epochId : U64} (ps : List (U64 × U256)) {qs : List (U64 × U256)}
    (all : ∀ q ∈ qs, q.1 = epochId) (distinct : qs.Nodup) (other : U64) :
    (ofEpoch other (ps ++ qs)).Nodup ↔
      (ofEpoch other ps).Nodup ∧ (other = epochId → ∀ q ∈ qs, q ∉ ps) := by
  rw [ofEpoch_append]
  rcases ofEpoch_cases all other with ⟨rfl, whole⟩ | ⟨apart, none⟩
  · rw [whole, List.nodup_append]
    constructor
    · rintro ⟨nodup, _, disjoint⟩
      refine ⟨nodup, fun _ q member before => ?_⟩
      exact disjoint q (mem_ofEpoch.mpr ⟨before, all q member⟩) q member rfl
    · rintro ⟨nodup, fresh⟩
      refine ⟨nodup, distinct, fun p before q member same => ?_⟩
      exact fresh rfl q member (same ▸ (mem_ofEpoch.mp before).1)
  · rw [none, List.append_nil]
    exact ⟨fun nodup => ⟨nodup, fun same => absurd same apart⟩, fun both => both.1⟩

namespace Record

variable {r : Record} {epochId : U64}

theorem tried_after_tried (nonces : List U64) :
    (r.after (.tried epochId nonces)).tried = r.tried ++ pairs epochId nonces :=
  (List.append_assoc ..).symm

theorem tried_after_drew : (r.after .drew).tried = r.tried := List.append_nil _

theorem Within.before {other : U64} {nonces : List U64}
    (within : (r.after (.tried epochId nonces)).Within other) : r.Within other := by
  rw [Within, tried_after_tried, ofEpoch_append, List.length_append] at within
  exact Nat.le_trans (Nat.le_add_right _ _) within

theorem novel_drew (novel : r.Novel) : (r.after .drew).Novel := by
  intro other within
  rw [Within, tried_after_drew] at within
  rw [tried_after_drew]
  exact novel other within

/-- A launch tries nothing twice when its nonces are new. -/
theorem novel_tried {nonces : List U64} (novel : r.Novel) (distinct : nonces.Nodup) :
    (r.after (.tried epochId nonces)).Novel ↔
      ((r.after (.tried epochId nonces)).Within epochId →
        ∀ p ∈ pairs epochId nonces, p ∉ r.tried) := by
  have all : ∀ p ∈ pairs epochId nonces, p.1 = epochId := by
    intro p member
    obtain ⟨_, _, rfl⟩ := List.mem_map.mp member
    rfl
  have nodup := nodup_ofEpoch_append r.tried all (distinct.map (pair_injective epochId))
  constructor
  · intro novel' within
    have once := (novel' epochId within).1
    rw [tried_after_tried, nodup] at once
    exact once.2 rfl
  · intro fresh other within
    obtain ⟨once, emitted⟩ := novel other within.before
    rw [tried_after_tried, nodup]
    refine ⟨⟨once, ?_⟩, emitted⟩
    rintro rfl
    exact fresh within

theorem novel_emitted {hit : Hit} (novel : r.Novel)
    (fresh : r.Within hit.epochId → hit.pair ∉ r.emitted) : (r.after (.emitted hit)).Novel := by
  intro other within
  obtain ⟨once, emitted⟩ := novel other within
  have all : ∀ p ∈ [hit.pair], p.1 = hit.epochId := by
    intro p member
    rw [List.mem_singleton.mp member]
    rfl
  refine ⟨once, (nodup_ofEpoch_append _ all (List.nodup_singleton _) other).mpr ⟨emitted, ?_⟩⟩
  rintro rfl p member
  rw [List.mem_singleton.mp member]
  exact fresh within

end Record

namespace Worker

/-- What a step adds to the history. -/
def trials (cfg : GpuCfg) (w : Worker) : WorkerEvent → List Trial
  | .apply _ => [.drew]
  | .launch calls => (assigned cfg w (.launch calls)).map (.tried w.currentEpoch)
  | .send =>
    match w.pc with
    | .send hit => if w.rxOpen then [.emitted hit] else []
    | _ => []
  | _ => []

/-- A launch keeps clear of the nonces that earlier searches have tried for its epoch, and
once its own search has come round, of those too. -/
def Clear (cfg : GpuCfg) (w : Worker) (r : Record) (e : WorkerEvent) : Prop :=
  ∀ nonces ∈ assigned cfg w e,
    (r.after (.tried w.currentEpoch nonces)).Within w.currentEpoch →
      ∀ p ∈ pairs w.currentEpoch nonces, p ∉ r.earlier ∧
        (2 ^ 64 < (r.launches + 1) * cfg.batchSize.toNat → p ∉ r.current)

/-- The launches since the last draw are a stretch from the region on. -/
structure Stretch (cfg : GpuCfg) (region : U64) (w : Worker) (r : Record) : Prop where
  covered : ∀ p ∈ r.current, ∃ nonce ∈ window region (r.launches * cfg.batchSize.toNat),
    p.2 = nonce.setWidth 256
  due : Due cfg (region + BitVec.ofNat 64 (r.launches * cfg.batchSize.toNat)) w

structure Sound (cfg : GpuCfg) (w : Worker) (r : Record) : Prop where
  novel : r.Novel
  emitted : ∀ p ∈ r.emitted, p ∈ r.tried
  sending : ∀ hit, w.pc = .send hit →
    hit.pair ∈ r.tried ∧ (r.Within hit.epochId → hit.pair ∉ r.emitted)
  search : w.pc = .exited .panicked ∨ ∃ region, Stretch cfg region w r

variable {cfg : GpuCfg} {w w' : Worker} {e : WorkerEvent} {r : Record}

/-- The next launch lies behind the stretch, until the search comes round. -/
theorem Stretch.apart {region : U64} {count : Nat} (stretch : Stretch cfg region w r)
    (here : w.pc = .launch) (le : count ≤ cfg.batchSize.toNat)
    (once : (r.launches + 1) * cfg.batchSize.toNat ≤ 2 ^ 64) :
    ∀ p ∈ pairs w.currentEpoch (window w.nonceStart count), p ∉ r.current := by
  intro p member before
  obtain ⟨nonce, launched, rfl⟩ := List.mem_map.mp member
  obtain ⟨nonce', searched, same⟩ := stretch.covered _ before
  cases pair_injective w.currentEpoch (congrArg (w.currentEpoch, ·) same)
  have due := stretch.due
  rw [Due, here] at due
  have distinct := nodup_window region once
  rw [Nat.add_mul, Nat.one_mul, window_add, ← due] at distinct
  exact (List.nodup_append.mp distinct).2.2 nonce searched nonce (window_subset _ le launched) rfl

/-- A launch continues the stretch. -/
theorem Stretch.extend {region : U64} {count : Nat} (stretch : Stretch cfg region w r)
    (here : w.pc = .launch) (le : count ≤ cfg.batchSize.toNat) :
    ∀ p ∈ r.current ++ pairs w.currentEpoch (window w.nonceStart count),
      ∃ nonce ∈ window region ((r.launches + 1) * cfg.batchSize.toNat),
        p.2 = nonce.setWidth 256 := by
  have due := stretch.due
  rw [Due, here] at due
  rw [Nat.add_mul, Nat.one_mul, window_add, ← due]
  intro p member
  rcases List.mem_append.mp member with before | launched
  · obtain ⟨nonce, searched, same⟩ := stretch.covered p before
    exact ⟨nonce, List.mem_append_left _ searched, same⟩
  · obtain ⟨nonce, inside, rfl⟩ := List.mem_map.mp launched
    exact ⟨nonce, List.mem_append_right _ (window_subset _ le inside), rfl⟩

theorem clear_of_unassigned (none : assigned cfg w e = []) : Clear cfg w r e := by
  intro nonces member
  rw [none] at member
  cases member

/-- A step that tries and emits nothing. -/
theorem Sound.still (sound : Sound cfg w r) (taken : step cfg w e = some w')
    (silent : trials cfg w e = []) (unassigned : assigned cfg w e = [])
    (unsent : ∀ hit, w'.pc = .send hit → w.pc = .send hit) :
    ((r.extend (trials cfg w e)).Novel ↔ Clear cfg w r e) ∧
      ((r.extend (trials cfg w e)).Novel → Sound cfg w' (r.extend (trials cfg w e))) := by
  rw [silent]
  refine ⟨iff_of_true sound.novel (clear_of_unassigned unassigned), fun novel => ?_⟩
  exact {
    novel
    emitted := sound.emitted
    sending := fun hit here => sound.sending hit (unsent hit here)
    search := by
      rcases sound.search with panicked | ⟨region, stretch⟩
      · exact .inl (exited_cases panicked taken).1
      · have unswapped : ∀ region, e ≠ .apply region := by
          rintro region rfl
          cases silent
        rcases stretch.due.step taken unswapped with ⟨panicked, _⟩ | due
        · exact .inl panicked
        · refine .inr ⟨region, stretch.covered, ?_⟩
          simpa [unassigned, Record.extend] using due }

/-- A draw begins another search. -/
theorem Sound.drew (sound : Sound cfg w r) (job : Job) (region : U64) :
    Sound cfg (w.apply job region) (r.after .drew) where
  novel := Record.novel_drew sound.novel
  emitted := by
    rw [Record.tried_after_drew]
    exact sound.emitted
  sending hit here := absurd here (proceed_pc _ hit)
  search := by
    refine .inr ⟨region, fun p member => (nomatch member), ?_⟩
    have due : Due cfg region (w.apply job region) := apply_due w job region
    simpa [Record.after] using due

theorem Sound.stretch (sound : Sound cfg w r) (here : w.pc = .launch) :
    ∃ region, Stretch cfg region w r := by
  refine sound.search.resolve_left ?_
  rw [here]
  exact nofun

/-- Of the nonces of a launch, only those of earlier searches can have been tried before,
until the search comes round. -/
theorem Sound.tried_iff {count : Nat} {calls : LaunchCalls} (sound : Sound cfg w r)
    (here : w.pc = .launch) (le : count ≤ cfg.batchSize.toNat)
    (grid : assigned cfg w (.launch calls) = [window w.nonceStart count]) :
    (r.after (.tried w.currentEpoch (window w.nonceStart count))).Novel ↔
      Clear cfg w r (.launch calls) := by
  obtain ⟨region, stretch⟩ := sound.stretch here
  have distinct : (window w.nonceStart count).Nodup := nodup_window _ (by omega)
  rw [Record.novel_tried sound.novel distinct]
  simp only [Clear, grid, List.mem_singleton, forall_eq]
  refine forall_congr' fun within => forall₂_congr fun p member => ?_
  rw [Record.tried, List.mem_append, not_or]
  refine and_congr_right fun _ => ⟨fun fresh _ => fresh, fun fresh => ?_⟩
  by_cases round : 2 ^ 64 < (r.launches + 1) * cfg.batchSize.toNat
  · exact fresh round
  · exact stretch.apart here le (Nat.not_lt.mp round) p member

/-- What a launch finds is one of the nonces that it tries. -/
theorem Sound.tried {count : Nat} {calls : LaunchCalls} {answer : Launched × GpuRuntime}
    (sound : Sound cfg w r) (here : w.pc = .launch)
    (taken : step cfg w (.launch calls) = some (w.launched cfg answer))
    (inside : ∀ n, answer.1 = .ok (some n) → n ∈ window w.nonceStart count)
    (le : count ≤ cfg.batchSize.toNat)
    (grid : assigned cfg w (.launch calls) = [window w.nonceStart count])
    (novel : (r.after (.tried w.currentEpoch (window w.nonceStart count))).Novel) :
    Sound cfg (w.launched cfg answer)
      (r.after (.tried w.currentEpoch (window w.nonceStart count))) where
  novel := novel
  emitted := by
    intro p member
    rw [Record.tried_after_tried]
    exact List.mem_append_left _ (sound.emitted p member)
  sending := by
    intro hit sending
    obtain ⟨outcome, rt⟩ := answer
    cases outcome with
    | err | panicked => cases sending
    | ok nonce =>
      cases nonce with
      | none => cases sending
      | some n =>
        cases sending
        have pair : (w.currentEpoch, n.setWidth 256) ∈
            pairs w.currentEpoch (window w.nonceStart count) :=
          List.mem_map.mpr ⟨n, inside n rfl, rfl⟩
        have distinct : (window w.nonceStart count).Nodup := nodup_window _ (by omega)
        refine ⟨?_, fun within before => ?_⟩
        · rw [Record.tried_after_tried]
          exact List.mem_append_right _ pair
        · have fresh := (Record.novel_tried sound.novel distinct).mp novel within
          exact fresh _ pair (sound.emitted _ before)
  search := by
    obtain ⟨region, stretch⟩ := sound.stretch here
    rcases stretch.due.step taken nofun with ⟨panicked, _⟩ | due
    · exact .inl panicked
    · refine .inr ⟨region, stretch.extend here le, ?_⟩
      rw [grid, List.length_singleton, BitVec.add_assoc, ← BitVec.ofNat_add, ← Nat.add_mul] at due
      exact due

theorem Sound.launch {calls : LaunchCalls} {answer : Launched × GpuRuntime}
    (sound : Sound cfg w r) (here : w.pc = .launch)
    (answered : w.rt.launchMine w.nonceStart cfg.batchSize cfg.threadsPerBlock calls = some answer)
    (taken : step cfg w (.launch calls) = some (w.launched cfg answer)) :
    ((r.extend (trials cfg w (.launch calls))).Novel ↔ Clear cfg w r (.launch calls)) ∧
      ((r.extend (trials cfg w (.launch calls))).Novel →
        Sound cfg (w.launched cfg answer) (r.extend (trials cfg w (.launch calls)))) := by
  obtain ⟨outcome, rt⟩ := answer
  rcases assigned_cases calls with none | some
  · have silent : trials cfg w (.launch calls) = [] := by rw [trials, none]; rfl
    refine sound.still taken silent none fun hit sending => ?_
    cases outcome with
    | ok nonce =>
      rw [assigned_answered answered] at none
      cases none
    | err | panicked => cases sending
  · have tries : trials cfg w (.launch calls) = _ :=
      congrArg (List.map (Trial.tried w.currentEpoch)) some
    rw [tries]
    refine ⟨sound.tried_iff here (threads_le cfg) some, ?_⟩
    refine sound.tried here taken ?_ (threads_le cfg) some
    rintro n rfl
    obtain ⟨g, inside, same, _⟩ := launchMine_some answered
    exact mem_window.mpr ⟨g, inside, same.symm⟩

theorem Sound.send {hit : Hit} (sound : Sound cfg w r) (here : w.pc = .send hit) :
    Sound cfg ({ w with hits := w.hits ++ [hit] }.advance cfg) (r.after (.emitted hit)) where
  novel := Record.novel_emitted sound.novel (sound.sending hit here).2
  emitted := by
    intro p member
    rcases List.mem_append.mp member with before | last
    · exact sound.emitted p before
    · rw [List.mem_singleton.mp last]
      exact (sound.sending hit here).1
  sending _ sending := nomatch sending
  search := by
    rcases sound.search with panicked | ⟨region, covered, due⟩
    · cases here.symm.trans panicked
    · rw [Due, here] at due
      exact .inr ⟨region, covered, due⟩

/-- Nothing is tried or emitted twice by a step exactly when a launch keeps clear. -/
theorem Sound.step (sound : Sound cfg w r) (taken : step cfg w e = some w') :
    ((r.extend (trials cfg w e)).Novel ↔ Clear cfg w r e) ∧
      ((r.extend (trials cfg w e)).Novel → Sound cfg w' (r.extend (trials cfg w e))) := by
  cases step_cases taken with
  | hotSwap | shutdown | recv | closeRx => exact sound.still taken rfl rfl fun hit here => here
  | stop | enter => exact sound.still taken rfl rfl fun hit here => nomatch here
  | take job here pending => exact sound.still taken rfl rfl fun hit here => nomatch here
  | idle => exact sound.still taken rfl rfl fun hit here => absurd here (proceed_pc w hit)
  | swap job calls =>
    exact sound.still taken rfl rfl fun hit here => absurd here (swap_pc w job calls hit)
  | apply job region =>
    have next := sound.drew job region
    exact ⟨iff_of_true next.novel (clear_of_unassigned rfl), fun _ => next⟩
  | launch calls answer here answered => exact sound.launch here answered taken
  | send hit here opened =>
    have emits : trials cfg w .send = [.emitted hit] := by simp [trials, here, opened]
    have next := sound.send here
    rw [emits]
    exact ⟨iff_of_true next.novel (clear_of_unassigned rfl), fun _ => next⟩
  | closed hit here gone =>
    have silent : trials cfg w .send = [] := by simp [trials, here, gone]
    exact sound.still taken silent rfl fun hit here => nomatch here

theorem start_sound (cfg : GpuCfg) (rt : GpuRuntime) (nonceStart : U64) :
    Sound cfg (start rt nonceStart) .start where
  novel _ _ := ⟨List.nodup_nil, List.nodup_nil⟩
  emitted := nofun
  sending := nofun
  search := by
    refine .inr ⟨nonceStart, nofun, ?_⟩
    have due : Due cfg nonceStart (start rt nonceStart) := start_due rt nonceStart
    simpa [Record.start] using due

end Worker

end Gpu

namespace Delivery

variable {keccak : Digest} {miner : Address} {cfg : GpuCfg} {testTargetOverride : Option U256}
  {d t : Delivery} {e : DeliveryEvent} {r : Record}

def trials (cfg : GpuCfg) (d : Delivery) : DeliveryEvent → List Trial
  | .gpu e => d.worker.trials cfg e
  | _ => []

def Clear (cfg : GpuCfg) (d : Delivery) (r : Record) : DeliveryEvent → Prop
  | .gpu e => d.worker.Clear cfg r e
  | _ => True

/-- Of all tasks only the loop tries nonces. -/
theorem novel_step (sound : d.worker.Sound cfg r)
    (taken : step keccak miner cfg testTargetOverride d e = some t) :
    ((r.extend (trials cfg d e)).Novel ↔ Clear cfg d r e) ∧
      ((r.extend (trials cfg d e)).Novel → t.worker.Sound cfg (r.extend (trials cfg d e))) := by
  cases step_cases taken with
  | watch | subscribe | borrow | changed =>
    exact ⟨iff_of_true sound.novel trivial, fun _ => sound⟩
  | hotSwap job here =>
    have handed : d.worker.step cfg (.hotSwap job) = some _ := rfl
    exact ⟨iff_of_true sound.novel trivial, fun _ => (sound.step handed).2 sound.novel⟩
  | gpu e worker others moved => exact sound.step moved

/-- In every run of the watcher, the forwarding task and the loop, whatever regions are
drawn: as long as there are nonces left in an epoch no pair is tried or emitted twice,
exactly when every launch keeps clear of the earlier searches. -/
theorem along_novel_iff (keccak : Digest) (miner : Address) (cfg : GpuCfg)
    (testTargetOverride : Option U256) (w : Watcher) (rt : GpuRuntime) (nonceStart : U64)
    (es : List DeliveryEvent) :
    ((machine keccak miner cfg testTargetOverride).logged (trials cfg)).Along
        (fun _ _ q => (record q.2).Novel) (start w rt nonceStart, []) es ↔
      ((machine keccak miner cfg testTargetOverride).logged (trials cfg)).Along
        (fun p e _ => Clear cfg p.1 (record p.2) e) (start w rt nonceStart, []) es := by
  let inv (p : Delivery × List Trial) : Prop := p.1.worker.Sound cfg (record p.2)
  have first : inv (start w rt nonceStart, []) := Worker.start_sound cfg rt nonceStart
  refine Machine.along_iff ?_ first es
  rintro ⟨d, log⟩ e ⟨t, log'⟩ sound logged
  obtain ⟨taken, rfl⟩ := (Machine.logged_step _).mp logged
  have steps := novel_step sound taken
  rw [← record_append] at steps
  exact steps

/-- The update that the first poll publishes again. -/
def layoutAgain : ChallengeUpdate :=
  ⟨layoutChallenge, BitVec.twoPow 256 253, 250707, 25070751⟩

theorem update_layoutAgain :
    Watcher.update Keccak.keccak256 layoutMiner
      (Watcher.snapshot 250707 (BitVec.twoPow 256 253)) 25070751 = layoutAgain := by
  simp only [Watcher.update, Watcher.snapshot_epoch, computeChallenge_layoutMiner]
  rfl

/-- The task hands over an update, and the loop draws the region of the nonce. -/
def layoutRound : List DeliveryEvent :=
  [.borrow, .hotSwap, .gpu .check, .gpu .take, .gpu (.swap ⟨.done, .done, none⟩),
    .gpu (.apply 0x4243)]

/-- The hit is sent, and the watcher polls. -/
def layoutRepublish : List DeliveryEvent :=
  [.gpu .send, .watch (.blockNumber (.ok 25070751)),
    .watch (.miningState (.ok (Watcher.answer 250707 (BitVec.twoPow 256 253)))), .watch .publish]

/-- The loop with the hit found, and the watcher subscribed to. -/
def layoutFound : Delivery :=
  ⟨{ Miner.layoutWatcher with updates := Miner.layoutWatcher.updates.subscribe }, .changed, 0,
    Worker.layoutSending⟩

/-- The update is published again. -/
def layoutRepublished : Delivery :=
  ⟨{ Miner.layoutWatcher with
      head := 25070751
      updates := ⟨layoutAgain, 1, 1⟩
      lastEpoch := some 250707 },
    .changed, 0, { Worker.layoutSending with hits := [Worker.layoutHit] }.advance ⟨1, 1⟩⟩

/-- The loop draws the region of the nonce again. -/
def layoutReloaded : Delivery :=
  { layoutRepublished with
    seen := 1
    worker := { Worker.layoutLoaded with
      rt := { Worker.layoutLoaded.rt with foundBuf := 1, resultBuf := 0x4243 }
      hits := [Worker.layoutHit] } }

def layoutTrials : List Trial :=
  [.drew, .tried 250707 [0x4243], .emitted Worker.layoutHit]

theorem launch_layoutTrial (ready : d.worker.pc = .launch)
    (holds : d.worker.Holds Worker.layoutJob) (nonce : d.worker.nonceStart = 0x4243)
    (log : List Trial) :
    ((machine Keccak.keccak256 layoutMiner ⟨1, 1⟩ none).logged (trials ⟨1, 1⟩)).step (d, log)
        (.gpu (.launch Worker.layoutCalls)) =
      some ({ d with worker := { d.worker with
          rt := { d.worker.rt with foundBuf := 1, resultBuf := 0x4243 }
          pc := .send Worker.layoutHit } }, log ++ [.tried 250707 [0x4243]]) := by
  have launched := Worker.launch_layoutJob ready holds nonce
  have found : (machine Keccak.keccak256 layoutMiner ⟨1, 1⟩ none).step d
      (.gpu (.launch Worker.layoutCalls)) = _ := congrArg (Option.map _) launched
  have grid : Worker.assigned ⟨1, 1⟩ d.worker (.launch Worker.layoutCalls) =
      [window d.worker.nonceStart ((gridCount 1 1).toNat * (1 : U32).toNat)] :=
    (Worker.assigned_cases Worker.layoutCalls).resolve_left
      (by simp [Worker.assigned, Worker.layoutCalls, GpuRuntime.assigned])
  have one : window 0x4243 ((gridCount 1 1).toNat * (1 : U32).toNat) = [0x4243] := by decide
  have tries : trials ⟨1, 1⟩ d (.gpu (.launch Worker.layoutCalls)) = [.tried 250707 [0x4243]] := by
    simp only [trials, Worker.trials, grid, nonce, holds.epoch, one]
    rfl
  rw [← tries]
  exact Machine.logged_of_step _ found log

theorem run_layoutRepublish :
    ((machine Keccak.keccak256 layoutMiner ⟨1, 1⟩ none).logged (trials ⟨1, 1⟩)).run
      (layoutFound, [.drew, .tried 250707 [0x4243]]) layoutRepublish =
        some (layoutRepublished, layoutTrials) := by
  rw [layoutRepublished, ← update_layoutAgain]
  rfl

/-- The task hands the same job over again, the loop draws the same region, and the nonce is
emitted for the same epoch again. -/
theorem republished_epoch_emits_nonce_twice :
    Watcher.start Keccak.keccak256 layoutMiner (.ok 25070750)
        (.ok (Watcher.answer 250707 (BitVec.twoPow 256 253))) = some (.ok Miner.layoutWatcher) ∧
      ¬ ((machine Keccak.keccak256 layoutMiner ⟨1, 1⟩ none).logged (trials ⟨1, 1⟩)).Along
        (fun _ _ q => (record q.2).Novel) (start Miner.layoutWatcher .init 0, [])
        (([.subscribe] ++ layoutRound) ++ [.gpu (.launch Worker.layoutCalls)] ++ layoutRepublish ++
          ([.changed] ++ layoutRound) ++ [.gpu (.launch Worker.layoutCalls)] ++ [.gpu .send]) := by
  refine ⟨Miner.start_layoutWatcher, fun along => ?_⟩
  have first : ((machine Keccak.keccak256 layoutMiner ⟨1, 1⟩ none).logged (trials ⟨1, 1⟩)).run
      (start Miner.layoutWatcher .init 0, []) ([.subscribe] ++ layoutRound) =
        some ({ layoutFound with worker := Worker.layoutLoaded }, [.drew]) := rfl
  have second : ((machine Keccak.keccak256 layoutMiner ⟨1, 1⟩ none).logged (trials ⟨1, 1⟩)).run
      (layoutRepublished, layoutTrials) ([.changed] ++ layoutRound) =
        some (layoutReloaded, layoutTrials ++ [.drew]) := rfl
  have found := launch_layoutTrial (d := { layoutFound with worker := Worker.layoutLoaded }) rfl
    ⟨rfl, rfl, rfl, rfl⟩ rfl [.drew]
  have again := launch_layoutTrial (d := layoutReloaded) rfl ⟨rfl, rfl, rfl, rfl⟩ rfl
    (layoutTrials ++ [.drew])
  have reached := (Machine.run_append _).mpr ⟨_, (Machine.run_append _).mpr ⟨_,
    (Machine.run_append _).mpr ⟨_, (Machine.run_append _).mpr ⟨_, first,
      (Machine.run_cons _).mpr ⟨_, found, Machine.run_nil _ _⟩⟩, run_layoutRepublish⟩, second⟩,
    (Machine.run_cons _).mpr ⟨_, again, Machine.run_nil _ _⟩⟩
  have novel : (record (layoutTrials ++ layoutTrials)).Novel := along.at_step reached rfl
  have emitted := (novel 250707 (by decide)).2
  exact absurd emitted (by decide)

end Delivery

end HashMiner
