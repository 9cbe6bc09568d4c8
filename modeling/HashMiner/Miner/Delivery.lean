import HashMiner.Gpu.Handover
import HashMiner.Miner

/-!
# From the watcher to the device

An update passes through two cells that keep the last value only, the channel of the
watcher and the slot `pending`. The task between them reads the value that the channel
already has before it waits for the next one.
-/

namespace HashMiner

open Foundation Chain Gpu Tx

structure Delivery where
  watcher : Watcher
  wire : Wire
  seen : Nat
  worker : Worker

inductive DeliveryEvent where
  | watch (e : WatcherEvent)
  | subscribe
  | borrow
  | hotSwap
  | changed
  | gpu (e : WorkerEvent)

/-- The update, with the target that the command line may put in its place. -/
def jobOf (testTargetOverride : Option U256) (u : ChallengeUpdate) : Job :=
  ⟨u.challenge, testTargetOverride.getD u.target, u.epoch⟩

/-- A call of `send`, with what the channel held before it. -/
structure Publication where
  job : Job
  held : Job
  received : Bool

inductive Note where
  | published (p : Publication)
  | applied (job : Job)

def Note.publication? : Note → Option Publication
  | published p => some p
  | applied _ => none

def Note.job? : Note → Option Job
  | published _ => none
  | applied job => some job

def publications (log : List Note) : List Publication := log.filterMap Note.publication?

/-- The jobs that the device was given. -/
def applied (log : List Note) : List Job := log.filterMap Note.job?

/-- All updates, from the one that the channel is created with. -/
def published (initial : Job) (log : List Note) : List Job :=
  initial :: (publications log).map Publication.job

def stored (initial : Job) (log : List Note) : List Job :=
  initial :: ((publications log).filter Publication.received).map Publication.job

/-- The last update found no receiver, and was not the one that the channel held. -/
def LastLost (log : List Note) : Prop :=
  ∃ p, (publications log).getLast? = some p ∧ p.received = false ∧ p.job ≠ p.held

namespace Delivery

variable (keccak : Digest) (miner : Address) (cfg : GpuCfg) (testTargetOverride : Option U256)

def start (w : Watcher) (rt : GpuRuntime) (nonceStart : U64) : Delivery :=
  ⟨w, .subscribe, 0, Worker.start rt nonceStart⟩

def step (d : Delivery) : DeliveryEvent → Option Delivery
  | .watch e =>
    if e.own then (d.watcher.step keccak miner e).map fun watcher => { d with watcher }
    else none
  | .subscribe =>
    match d.wire with
    | .subscribe =>
      some { d with
        watcher := { d.watcher with updates := d.watcher.updates.subscribe }
        seen := d.watcher.updates.version
        wire := .borrow }
    | _ => none
  | .borrow =>
    match d.wire with
    | .borrow =>
      some { d with
        seen := d.watcher.updates.version
        wire := .hotSwap (jobOf testTargetOverride d.watcher.updates.value) }
    | _ => none
  | .hotSwap =>
    match d.wire with
    | .hotSwap job =>
      (d.worker.step cfg (.hotSwap job)).map fun worker => { d with worker, wire := .changed }
    | _ => none
  | .changed =>
    match d.wire with
    | .changed =>
      if d.seen = d.watcher.updates.version then none
      else some { d with seen := d.watcher.updates.version, wire := .borrow }
    | _ => none
  | .gpu (.hotSwap _) => none
  | .gpu e => (d.worker.step cfg e).map fun worker => { d with worker }

def machine : Machine Delivery DeliveryEvent := ⟨step keccak miner cfg testTargetOverride⟩

/-- What a step adds to the history. -/
def notes (d : Delivery) : DeliveryEvent → List Note
  | .watch .publish =>
    match d.watcher.poll with
    | .publish snap bn =>
      [.published ⟨jobOf testTargetOverride (Watcher.update keccak miner snap bn),
        jobOf testTargetOverride d.watcher.updates.value, decide (0 < d.watcher.updates.receivers)⟩]
    | _ => []
  | .gpu e => (d.worker.loads e).map Note.applied
  | _ => []

/-- The task waits for an update that is not there yet, and nothing is on its way. -/
structure Settled (d : Delivery) : Prop where
  waiting : d.wire = .changed
  seen : d.seen = d.watcher.updates.version
  empty : d.worker.state.pending = none
  loop : ∀ job, d.worker.pc ≠ .swap job ∧ d.worker.pc ≠ .apply job

/-- The device is given updates in the order of their publication, and has the last one
whenever nothing is on its way. -/
structure Delivers (initial : Job) (d : Delivery) (log : List Note) : Prop where
  order : (applied log).Sublist (published initial log)
  newest : Settled d → ∀ job, (published initial log).getLast? = some job → d.worker.Loaded job

/-- No error of the driver when a job is loaded. -/
def Answered : DeliveryEvent → Prop
  | .gpu e => Worker.Answered e
  | _ => True

variable {keccak miner cfg testTargetOverride} {d t : Delivery} {e : DeliveryEvent}
variable {initial : Job} {log : List Note}

/-- The steps by name. -/
inductive Moves (keccak : Digest) (miner : Address) (cfg : GpuCfg)
    (testTargetOverride : Option U256) (d : Delivery) : DeliveryEvent → Delivery → Prop
  | watch (e : WatcherEvent) (watcher : Watcher) : e.own = true →
      Watcher.Moves keccak miner d.watcher e watcher →
      Moves keccak miner cfg testTargetOverride d (.watch e) { d with watcher }
  | subscribe : d.wire = .subscribe →
      Moves keccak miner cfg testTargetOverride d .subscribe
        { d with
          watcher := { d.watcher with updates := d.watcher.updates.subscribe }
          seen := d.watcher.updates.version
          wire := .borrow }
  | borrow : d.wire = .borrow →
      Moves keccak miner cfg testTargetOverride d .borrow
        { d with
          seen := d.watcher.updates.version
          wire := .hotSwap (jobOf testTargetOverride d.watcher.updates.value) }
  | hotSwap (job : Job) : d.wire = .hotSwap job →
      Moves keccak miner cfg testTargetOverride d .hotSwap
        { d with
          worker := { d.worker with state := { d.worker.state with pending := some job } }
          wire := .changed }
  | changed : d.wire = .changed → d.seen ≠ d.watcher.updates.version →
      Moves keccak miner cfg testTargetOverride d .changed
        { d with seen := d.watcher.updates.version, wire := .borrow }
  | gpu (e : WorkerEvent) (worker : Worker) : (∀ job, e ≠ .hotSwap job) →
      d.worker.step cfg e = some worker →
      Moves keccak miner cfg testTargetOverride d (.gpu e) { d with worker }

theorem step_cases (taken : step keccak miner cfg testTargetOverride d e = some t) :
    Moves keccak miner cfg testTargetOverride d e t := by
  cases e with
  | watch e =>
    simp only [step] at taken
    split at taken
    · next own =>
      obtain ⟨watcher, moved, rfl⟩ := Option.map_eq_some_iff.mp taken
      exact .watch e watcher own (Watcher.step_cases moved)
    · cases taken
  | subscribe =>
    simp only [step] at taken
    split at taken <;> cases taken
    next here => exact .subscribe here
  | borrow =>
    simp only [step] at taken
    split at taken <;> cases taken
    next here => exact .borrow here
  | hotSwap =>
    simp only [step] at taken
    split at taken
    · next job here =>
      obtain ⟨worker, moved, rfl⟩ := Option.map_eq_some_iff.mp taken
      cases moved
      exact .hotSwap job here
    · cases taken
  | changed =>
    simp only [step] at taken
    split at taken
    · next here =>
      split at taken <;> cases taken
      next fresh => exact .changed here fresh
    · cases taken
  | gpu e =>
    by_cases handed : ∃ job, e = .hotSwap job
    · obtain ⟨job, rfl⟩ := handed
      cases taken
    · have others : ∀ job, e ≠ .hotSwap job := fun job same => handed ⟨job, same⟩
      rw [step] at taken
      · obtain ⟨worker, moved, rfl⟩ := Option.map_eq_some_iff.mp taken
        exact .gpu e worker others moved
      · exact others

/-- How many of the stored updates the task may have passed on. -/
def front (d : Delivery) : Nat :=
  match d.wire with
  | .subscribe | .borrow => d.seen
  | .hotSwap _ | .changed => d.seen + 1

/-- The jobs on their way, the older first. -/
def underway (d : Delivery) : List Job :=
  match d.wire with
  | .hotSwap job => d.worker.underway ++ [job]
  | _ => d.worker.underway

/-- Where the newest update is at each point of the task. -/
structure Sound (testTargetOverride : Option U256) (initial : Job) (d : Delivery)
    (log : List Note) : Prop where
  version : (stored initial log).length = d.watcher.updates.version + 1
  value : (stored initial log)[d.watcher.updates.version]? =
    some (jobOf testTargetOverride d.watcher.updates.value)
  last : match (publications log).getLast? with
    | none => jobOf testTargetOverride d.watcher.updates.value = initial
    | some p => jobOf testTargetOverride d.watcher.updates.value =
        if p.received then p.job else p.held
  seen : d.seen ≤ d.watcher.updates.version
  order : (applied log ++ d.underway).Sublist ((stored initial log).take d.front)
  handing : ∀ job, d.wire = .hotSwap job → (stored initial log)[d.seen]? = some job
  newest : d.wire = .changed →
    ∃ job, (stored initial log)[d.seen]? = some job ∧ d.worker.Carries job

theorem start_sound (testTargetOverride : Option U256) (w : Watcher) (rt : GpuRuntime)
    (nonceStart : U64) (fresh : w.updates.version = 0) :
    Sound testTargetOverride (jobOf testTargetOverride w.updates.value) (start w rt nonceStart)
      [] where
  version := congrArg (· + 1) fresh.symm
  value := by
    change _[w.updates.version]? = _
    rw [fresh]
    rfl
  last := rfl
  seen := Nat.zero_le _
  order := List.Sublist.refl _
  handing := nofun
  newest := nofun

theorem publications_append (log more : List Note) :
    publications (log ++ more) = publications log ++ publications more := List.filterMap_append

theorem applied_append (log more : List Note) :
    applied (log ++ more) = applied log ++ applied more := List.filterMap_append

theorem publications_applied (jobs : List Job) : publications (jobs.map Note.applied) = [] := by
  rw [publications, List.filterMap_eq_nil_iff]
  intro note member
  obtain ⟨job, _, rfl⟩ := List.mem_map.mp member
  rfl

theorem applied_applied (jobs : List Job) : applied (jobs.map Note.applied) = jobs := by
  rw [applied, List.filterMap_map]
  exact List.filterMap_some

/-- The watcher polls and does not publish. -/
theorem Sound.poll {watcher : Watcher} (inv : Sound testTargetOverride initial d log)
    (same : watcher.updates = d.watcher.updates) :
    Sound testTargetOverride initial { d with watcher } log := by
  exact {
    version := by rw [same]; exact inv.version
    value := by rw [same]; exact inv.value
    last := by rw [same]; exact inv.last
    seen := by rw [same]; exact inv.seen
    order := inv.order
    handing := inv.handing
    newest := inv.newest }

theorem Sound.take {n : Nat} (inv : Sound testTargetOverride initial d log) (le : d.front ≤ n) :
    (applied log ++ d.underway).Sublist ((stored initial log).take n) :=
  inv.order.trans (List.take_prefix_take_left le).sublist

theorem Sound.subscribe (inv : Sound testTargetOverride initial d log)
    (here : d.wire = .subscribe) :
    Sound testTargetOverride initial
      { d with
        watcher := { d.watcher with updates := d.watcher.updates.subscribe }
        seen := d.watcher.updates.version
        wire := .borrow } log := by
  have front : d.front = d.seen := by rw [Delivery.front, here]
  have same : d.underway = d.worker.underway := by rw [underway, here]
  have order := inv.take (front.trans_le inv.seen)
  rw [same] at order
  exact {
    version := inv.version
    value := inv.value
    last := inv.last
    seen := Nat.le_refl _
    order := order
    handing := nofun
    newest := nofun }

theorem Sound.changed (inv : Sound testTargetOverride initial d log) (here : d.wire = .changed)
    (fresh : d.seen ≠ d.watcher.updates.version) :
    Sound testTargetOverride initial
      { d with seen := d.watcher.updates.version, wire := .borrow } log := by
  have front : d.front = d.seen + 1 := by rw [Delivery.front, here]
  have same : d.underway = d.worker.underway := by rw [underway, here]
  have order := inv.take (front.trans_le (Nat.lt_of_le_of_ne inv.seen fresh))
  rw [same] at order
  exact { inv with
    seen := Nat.le_refl _
    order := order
    handing := nofun
    newest := nofun }

/-- The task passes on the newest update that is stored, after all that it has seen. -/
theorem Sound.borrow (inv : Sound testTargetOverride initial d log) (here : d.wire = .borrow) :
    Sound testTargetOverride initial
      { d with
        seen := d.watcher.updates.version
        wire := .hotSwap (jobOf testTargetOverride d.watcher.updates.value) } log := by
  have front : d.front = d.seen := by rw [Delivery.front, here]
  have same : d.underway = d.worker.underway := by rw [underway, here]
  have order := inv.take (front.trans_le inv.seen)
  rw [same] at order
  exact { inv with
    seen := Nat.le_refl _
    order := by
      change (applied log ++ (d.worker.underway ++ [_])).Sublist
        ((stored initial log).take (d.watcher.updates.version + 1))
      rw [List.take_add_one, inv.value, ← List.append_assoc]
      exact order.append (List.Sublist.refl _)
    handing := by
      intro job same
      cases same
      exact inv.value
    newest := nofun }

/-- A job that waits in the slot is dropped for a newer one. -/
theorem Sound.hotSwap {job : Job} (inv : Sound testTargetOverride initial d log)
    (here : d.wire = .hotSwap job) :
    Sound testTargetOverride initial
      { d with
        worker := { d.worker with state := { d.worker.state with pending := some job } }
        wire := .changed } log := by
  have front : d.front = d.seen + 1 := by rw [Delivery.front, here]
  have order := inv.order
  rw [front, underway, here] at order
  exact { inv with
    order := by
      refine List.Sublist.trans ?_ order
      refine (List.Sublist.refl _).append ?_
      change (d.worker.taken.toList ++ [job]).Sublist
        (d.worker.taken.toList ++ d.worker.state.pending.toList ++ [job])
      exact (List.sublist_append_left _ _).append (List.Sublist.refl _)
    handing := nofun
    newest := fun _ => ⟨job, inv.handing job here, rfl⟩ }

theorem Sound.gpu {e : WorkerEvent} {worker : Worker}
    (inv : Sound testTargetOverride initial d log) (hands : Worker.Hands d.worker e worker) :
    Sound testTargetOverride initial { d with worker }
      (log ++ (d.worker.loads e).map Note.applied) := by
  have silent : publications (log ++ (d.worker.loads e).map Note.applied) = publications log := by
    rw [publications_append, publications_applied, List.append_nil]
  have kept : stored initial (log ++ (d.worker.loads e).map Note.applied) = stored initial log := by
    rw [stored, silent]
    rfl
  have way : d.worker.loads e ++ ({ d with worker } : Delivery).underway = d.underway := by
    unfold underway
    cases d.wire with
    | hotSwap job =>
      dsimp only
      rw [← List.append_assoc, hands.underway]
    | subscribe | borrow | changed => exact hands.underway
  exact {
    version := by rw [kept]; exact inv.version
    value := by rw [kept]; exact inv.value
    last := by rw [silent]; exact inv.last
    seen := inv.seen
    order := by
      rw [kept, applied_append, applied_applied, List.append_assoc, way]
      exact inv.order
    handing := by rw [kept]; exact inv.handing
    newest := by
      rw [kept]
      intro here
      obtain ⟨job, stored, carries⟩ := inv.newest here
      exact ⟨job, stored, hands.carries carries⟩ }

section Publish

variable {p : Publication}

theorem publications_published (log : List Note) (p : Publication) :
    publications (log ++ [.published p]) = publications log ++ [p] := publications_append ..

theorem applied_published (log : List Note) (p : Publication) :
    applied (log ++ [.published p]) = applied log :=
  (applied_append ..).trans (List.append_nil _)

theorem stored_published (initial : Job) (log : List Note) (p : Publication) :
    stored initial (log ++ [.published p]) =
      stored initial log ++ if p.received then [p.job] else [] := by
  rw [stored, publications_published, List.filter_append, List.map_append]
  cases received : p.received <;> simp [stored, received]

theorem last_published (log : List Note) (p : Publication) :
    (publications (log ++ [.published p])).getLast? = some p := by
  rw [publications_published]
  exact List.getLast?_concat

/-- An update that is stored is the newest one. -/
theorem Sound.stores {watcher : Watcher} (inv : Sound testTargetOverride initial d log)
    (received : p.received = true)
    (version : watcher.updates.version = d.watcher.updates.version + 1)
    (value : jobOf testTargetOverride watcher.updates.value = p.job) :
    Sound testTargetOverride initial { d with watcher } (log ++ [.published p]) := by
  have more : stored initial (log ++ [.published p]) = stored initial log ++ [p.job] := by
    rw [stored_published, if_pos received]
  have early : d.seen < (stored initial log).length := by
    rw [inv.version]
    exact Nat.lt_succ_of_le inv.seen
  exact {
    version := by
      rw [more, List.length_append, inv.version, version]
      rfl
    value := by
      rw [more, version, value, ← inv.version]
      exact List.getElem?_concat_length
    last := by
      rw [last_published, value]
      exact (if_pos received).symm
    seen := by
      rw [version]
      exact Nat.le_succ_of_le inv.seen
    order := by
      rw [more, applied_published, List.take_append]
      exact inv.order.trans (List.sublist_append_left _ _)
    handing := by
      rw [more, List.getElem?_append_left early]
      exact inv.handing
    newest := by
      rw [more, List.getElem?_append_left early]
      exact inv.newest }

/-- An update that nobody receives leaves the channel as it is. -/
theorem Sound.loses {watcher : Watcher} (inv : Sound testTargetOverride initial d log)
    (unreceived : p.received = false) (same : watcher.updates = d.watcher.updates)
    (held : p.held = jobOf testTargetOverride d.watcher.updates.value) :
    Sound testTargetOverride initial { d with watcher } (log ++ [.published p]) := by
  have kept : stored initial (log ++ [.published p]) = stored initial log := by
    rw [stored_published, unreceived]
    exact List.append_nil _
  have polled := inv.poll same
  exact {
    version := by rw [kept]; exact polled.version
    value := by rw [kept]; exact polled.value
    last := by
      rw [last_published, same]
      exact held.symm.trans (if_neg (Bool.eq_false_iff.mp unreceived)).symm
    seen := polled.seen
    order := by rw [kept, applied_published]; exact polled.order
    handing := by rw [kept]; exact polled.handing
    newest := by rw [kept]; exact polled.newest }

end Publish

/-- The steps that publish nothing leave the channel alone. -/
theorem watch_cases {e : WatcherEvent} {watcher : Watcher} (testTargetOverride : Option U256)
    (own : e.own = true)
    (moves : Watcher.Moves keccak miner d.watcher e watcher) :
    (watcher.updates = d.watcher.updates ∧
        notes keccak miner testTargetOverride d (.watch e) = []) ∨
      ∃ snap bn, watcher = d.watcher.publish keccak miner snap bn ∧
        notes keccak miner testTargetOverride d (.watch e) =
          [.published ⟨jobOf testTargetOverride (Watcher.update keccak miner snap bn),
            jobOf testTargetOverride d.watcher.updates.value,
            decide (0 < d.watcher.updates.receivers)⟩] := by
  cases moves with
  | block | unread | failed | panic | known | new => exact .inl ⟨rfl, rfl⟩
  | publish snap bn here =>
    refine .inr ⟨snap, bn, rfl, ?_⟩
    simp only [notes, here]
  | subscribe | unsubscribe => cases own

theorem Sound.step (inv : Sound testTargetOverride initial d log) (answered : Answered e)
    (taken : Delivery.step keccak miner cfg testTargetOverride d e = some t) :
    Sound testTargetOverride initial t (log ++ notes keccak miner testTargetOverride d e) := by
  cases step_cases taken with
  | watch e watcher own moves =>
    rcases watch_cases testTargetOverride own moves with
      ⟨same, silent⟩ | ⟨snap, bn, rfl, note⟩
    · rw [silent, List.append_nil]
      exact inv.poll same
    · rw [note]
      rcases Nat.eq_zero_or_pos d.watcher.updates.receivers with unreceived | received
      · have same : (d.watcher.publish keccak miner snap bn).updates = d.watcher.updates :=
          Watch.send_unreceived _ unreceived
        exact inv.loses (by simp [unreceived]) same rfl
      · have sent : (d.watcher.publish keccak miner snap bn).updates =
            { d.watcher.updates with
              value := Watcher.update keccak miner snap bn
              version := d.watcher.updates.version + 1 } := Watch.send_received _ received
        exact inv.stores (decide_eq_true received) (by rw [sent]) (by rw [sent])
  | subscribe here =>
    simp only [notes, List.append_nil]
    exact inv.subscribe here
  | borrow here =>
    simp only [notes, List.append_nil]
    exact inv.borrow here
  | hotSwap job here =>
    simp only [notes, List.append_nil]
    exact inv.hotSwap here
  | changed here fresh =>
    simp only [notes, List.append_nil]
    exact inv.changed here fresh
  | gpu e worker handed moved =>
    rw [notes]
    exact inv.gpu (Worker.hands_of_step handed answered moved)

theorem stored_sublist (initial : Job) (log : List Note) :
    (stored initial log).Sublist (published initial log) :=
  (List.filter_sublist.map Publication.job).cons_cons initial

theorem Sound.ordered (inv : Sound testTargetOverride initial d log) :
    (applied log).Sublist (published initial log) := by
  have given : (applied log).Sublist ((stored initial log).take d.front) :=
    (List.sublist_append_left _ _).trans inv.order
  exact (given.trans (List.take_sublist _ _)).trans (stored_sublist initial log)

/-- When nothing is on its way, the device has what the channel holds. -/
theorem Sound.settled (inv : Sound testTargetOverride initial d log) (settled : Settled d) :
    d.worker.Loaded (jobOf testTargetOverride d.watcher.updates.value) := by
  obtain ⟨job, stored, carries⟩ := inv.newest settled.waiting
  rw [settled.seen, inv.value] at stored
  cases stored
  have idle : d.worker.taken = none := by
    unfold Worker.taken
    split
    · next job here => exact absurd here (settled.loop job).1
    · rfl
  rw [Worker.Carries, settled.empty, idle] at carries
  exact carries

theorem getLast?_published (initial : Job) (log : List Note) :
    (published initial log).getLast? =
      some (((publications log).getLast?.map Publication.job).getD initial) := by
  rw [published, List.getLast?_cons, List.getLast?_map]

theorem Sound.delivers_iff (inv : Sound testTargetOverride initial d log) :
    Delivers initial d log ↔ (Settled d → ¬ LastLost log) := by
  have last := inv.last
  constructor
  · rintro delivers settled ⟨p, newest, unreceived, other⟩
    have loaded : d.worker.Loaded p.job := by
      refine delivers.newest settled p.job ?_
      rw [getLast?_published, newest]
      rfl
    rw [newest] at last
    have held : jobOf testTargetOverride d.watcher.updates.value = p.held :=
      last.trans (if_neg (Bool.eq_false_iff.mp unreceived))
    exact other ((loaded.unique (inv.settled settled)).trans held)
  · intro kept
    refine ⟨inv.ordered, fun settled job newest => ?_⟩
    have loaded := inv.settled settled
    rw [getLast?_published] at newest
    cases published : (publications log).getLast? with
    | none =>
      rw [published] at newest last
      cases newest
      exact last ▸ loaded
    | some p =>
      rw [published] at newest last
      cases newest
      change jobOf testTargetOverride d.watcher.updates.value =
        if p.received = true then p.job else p.held at last
      by_cases received : p.received = true
      · rw [last, if_pos received] at loaded
        exact loaded
      · rw [last, if_neg received] at loaded
        by_cases same : p.job = p.held
        · rw [← same] at loaded
          exact loaded
        · exact absurd ⟨p, published, Bool.eq_false_iff.mpr received, same⟩ (kept settled)

theorem start_version {blockNumber : Except String U64} {state : Except String MiningStateReturn}
    {w : Watcher} (started : Watcher.start keccak miner blockNumber state = some (.ok w)) :
    w.updates.version = 0 := by
  obtain ⟨_, _, initial, _, _, _, rfl⟩ := Watcher.start_cases started
  rfl

theorem run_sound {blockNumber : Except String U64} {state : Except String MiningStateReturn}
    {w : Watcher} (started : Watcher.start keccak miner blockNumber state = some (.ok w))
    {rt : GpuRuntime} {nonceStart : U64} {es : List DeliveryEvent}
    (answered : ∀ e ∈ es, Answered e)
    (reached : ((machine keccak miner cfg testTargetOverride).logged
      (notes keccak miner testTargetOverride)).run (start w rt nonceStart, []) es = some (d, log)) :
    Sound testTargetOverride (jobOf testTargetOverride w.updates.value) d log := by
  let initial := jobOf testTargetOverride w.updates.value
  have kept : ∀ (p : Delivery × List Note), ∀ e ∈ es, ∀ (q : Delivery × List Note),
      Sound testTargetOverride initial p.1 p.2 →
      ((machine keccak miner cfg testTargetOverride).logged
        (notes keccak miner testTargetOverride)).step p e = some q →
      Sound testTargetOverride initial q.1 q.2 := by
    intro p e member q inv logged
    obtain ⟨taken, more⟩ := (Machine.logged_step _).mp logged
    rw [more]
    exact inv.step (answered e member) taken
  have begins := start_sound testTargetOverride w rt nonceStart (start_version started)
  have inv := Machine.invariant_run_of _ kept begins reached
  exact inv

/-- In every state that a run reaches, the device has been given updates in the order of
their publication, and has the last one when nothing is on its way: exactly when that one
is not lost for want of a receiver. -/
theorem run_delivers_iff (keccak : Digest) (miner : Address) (cfg : GpuCfg)
    (testTargetOverride : Option U256) (blockNumber : Except String U64)
    (state : Except String MiningStateReturn) (w : Watcher)
    (started : Watcher.start keccak miner blockNumber state = some (.ok w)) (rt : GpuRuntime)
    (nonceStart : U64) (es : List DeliveryEvent) (answered : ∀ e ∈ es, Answered e)
    (d : Delivery) (log : List Note)
    (reached : ((machine keccak miner cfg testTargetOverride).logged
      (notes keccak miner testTargetOverride)).run (start w rt nonceStart, []) es = some (d, log)) :
    Delivers (jobOf testTargetOverride w.updates.value) d log ↔ (Settled d → ¬ LastLost log) :=
  (run_sound started answered reached).delivers_iff

section Layout

/-- The watcher as it starts in epoch 1. -/
def layoutWatcher : Watcher :=
  ⟨150, some (Watcher.snapshot 1 1024), (Watch.channel (Watcher.update Keccak.keccak256 layoutMiner
    (Watcher.snapshot 1 1024) 150)).drop, none, .tick⟩

theorem start_layoutWatcher : Watcher.start Keccak.keccak256 layoutMiner (.ok 150)
    (.ok (Watcher.answer 1 1024)) = some (.ok layoutWatcher) := rfl

def layoutUpdate : Job := jobOf none layoutWatcher.updates.value

/-- The first update is handed over and loaded. -/
def layoutHandover : List DeliveryEvent :=
  [.subscribe, .borrow, .hotSwap, .gpu .check, .gpu .take, .gpu (.swap ⟨.done, .done, none⟩),
    .gpu (.apply 7)]

def layoutGrinding : Worker :=
  ({ Worker.start .init 0 with pc := .swap layoutUpdate }.swap layoutUpdate
    ⟨.done, .done, none⟩).apply layoutUpdate 7

def layoutHanded (w : Watcher) : Delivery :=
  ⟨{ w with updates := w.updates.subscribe }, .changed, w.updates.version, layoutGrinding⟩

theorem answered_layoutHandover : ∀ e ∈ layoutHandover, Answered e := by
  simp [layoutHandover, Answered, Worker.Answered]

theorem proceed_rests (w : Worker) :
    w.proceed.state = w.state ∧ w.proceed.currentEpoch = w.currentEpoch ∧
      ∀ job, w.proceed.pc ≠ .swap job ∧ w.proceed.pc ≠ .apply job := by
  rcases Worker.proceed_cases w with ⟨_, back⟩ | ⟨_, on⟩
  · rw [back]
    exact ⟨rfl, rfl, fun _ => ⟨nofun, nofun⟩⟩
  · rw [on]
    exact ⟨rfl, rfl, fun _ => ⟨nofun, nofun⟩⟩

theorem settled_layoutHanded (w : Watcher) : Settled (layoutHanded w) where
  waiting := rfl
  seen := rfl
  empty := congrArg WorkerState.pending (proceed_rests _).1
  loop := (proceed_rests _).2.2

theorem run_layoutHandover : ((machine Keccak.keccak256 layoutMiner ⟨1, 1⟩ none).logged
    (notes Keccak.keccak256 layoutMiner none)).run (start layoutWatcher .init 0, [])
      layoutHandover = some (layoutHanded layoutWatcher, [.applied layoutUpdate]) := rfl

/-- The update that the channel is created with comes to the device. -/
theorem run_delivers_initial : Settled (layoutHanded layoutWatcher) ∧
    Delivers layoutUpdate (layoutHanded layoutWatcher) [.applied layoutUpdate] := by
  refine ⟨settled_layoutHanded layoutWatcher, ?_⟩
  refine (run_delivers_iff _ _ _ none _ _ _ start_layoutWatcher _ _ _ answered_layoutHandover _ _
    run_layoutHandover).mpr ?_
  rintro _ ⟨p, newest, _⟩
  cases newest

/-- The watcher after a first poll that meets epoch 2, before anybody has subscribed. -/
def layoutPolled : Watcher :=
  { layoutWatcher with
    head := 250, lastState := some (Watcher.snapshot 2 1024), lastEpoch := some 2 }

def layoutPoll : List DeliveryEvent :=
  [.watch (.blockNumber (.ok 250)), .watch (.miningState (.ok (Watcher.answer 2 1024))),
    .watch .publish]

def layoutLost : Job :=
  jobOf none (Watcher.update Keccak.keccak256 layoutMiner (Watcher.snapshot 2 1024) 250)

/-- The update for epoch 2 is lost, and the device is left with epoch 1. -/
theorem first_poll_before_subscribe_lost :
    ((machine Keccak.keccak256 layoutMiner ⟨1, 1⟩ none).logged
      (notes Keccak.keccak256 layoutMiner none)).run (start layoutWatcher .init 0, [])
        (layoutPoll ++ layoutHandover) = some (layoutHanded layoutPolled,
          [.published ⟨layoutLost, layoutUpdate, false⟩, .applied layoutUpdate]) ∧
    ¬ Delivers layoutUpdate (layoutHanded layoutPolled)
      [.published ⟨layoutLost, layoutUpdate, false⟩, .applied layoutUpdate] := by
  refine ⟨rfl, fun delivers => ?_⟩
  have loaded := delivers.newest (settled_layoutHanded layoutPolled) layoutLost rfl
  have kept : layoutGrinding.currentEpoch = layoutUpdate.epochId := (proceed_rests _).2.1
  have other : layoutGrinding.currentEpoch = layoutLost.epochId := loaded.holds.epoch
  exact absurd (kept.symm.trans other) (by decide)

end Layout

end Delivery

namespace Miner

/-- The part of the miner that brings updates to the device. -/
def delivery (m : Miner) : Delivery := ⟨m.watcher, m.wire, m.seen, m.worker⟩

def deliveryEvent : MinerEvent → Option DeliveryEvent
  | .watch e => some (.watch e)
  | .subscribe => some .subscribe
  | .borrow => some .borrow
  | .hotSwap => some .hotSwap
  | .changed => some .changed
  | .gpu e => some (.gpu e)
  | .recv => some (.gpu .recv)
  | .submit _ => none

variable {keccak : Digest} {gpu : GpuCfg} {cfg : SubmitterCfg} {m t : Miner}

theorem step_delivery {e : MinerEvent} {d : DeliveryEvent}
    (taken : step keccak gpu cfg m e = some t) (part : deliveryEvent e = some d) :
    Delivery.step keccak cfg.signer gpu none m.delivery d = some t.delivery := by
  cases e with
  | watch e =>
    cases part
    simp only [step] at taken
    split at taken
    · next own =>
      obtain ⟨watcher, moved, rfl⟩ := Option.map_eq_some_iff.mp taken
      simp only [Delivery.step, delivery, own, if_true, moved, Option.map_some]
    · cases taken
  | subscribe =>
    cases part
    simp only [step] at taken
    split at taken <;> cases taken
    next here => simp only [Delivery.step, delivery, here]
  | borrow =>
    cases part
    simp only [step] at taken
    split at taken <;> cases taken
    next here =>
    simp only [Delivery.step, delivery, here]
    rfl
  | hotSwap =>
    cases part
    simp only [step] at taken
    split at taken
    · next job here =>
      obtain ⟨worker, moved, rfl⟩ := Option.map_eq_some_iff.mp taken
      simp only [Delivery.step, delivery, here, moved, Option.map_some]
    · cases taken
  | changed =>
    cases part
    simp only [step] at taken
    split at taken
    · next here =>
      split at taken <;> cases taken
      next fresh => simp only [Delivery.step, delivery, here, if_neg fresh]
    · cases taken
  | gpu e =>
    cases part
    simp only [step] at taken
    split at taken
    · next own =>
      obtain ⟨worker, moved, rfl⟩ := Option.map_eq_some_iff.mp taken
      have others : ∀ job, e ≠ .hotSwap job := by
        rintro job rfl
        cases own
      rw [Delivery.step]
      · simp only [delivery, moved, Option.map_some]
      · exact others
    · cases taken
  | recv =>
    cases part
    simp only [step] at taken
    split at taken <;> cases taken
    next hit hits _ _ queued =>
    simp only [Delivery.step, delivery, Worker.step, queued]
    rfl
  | submit e => cases part

/-- Every run of the miner is one of that part, without a target of the command line. -/
theorem run_delivery {es : List MinerEvent} (reached : (machine keccak gpu cfg).run m es = some t) :
    (Delivery.machine keccak cfg.signer gpu none).run m.delivery (es.filterMap deliveryEvent) =
      some t.delivery := by
  refine Machine.run_part delivery deliveryEvent ?_ ?_ reached
  · intro m e t taken d part
    exact step_delivery taken part
  · intro m e t taken rests
    cases e with
    | submit e =>
      change step keccak gpu cfg m (.submit e) = some t at taken
      cases step_cases taken
      rfl
    | watch | subscribe | borrow | hotSwap | changed | gpu | recv => cases rests

/-- So the miner brings updates to the device in their order, and the last one that is not
lost. -/
theorem run_delivers {blockNumber : Except String U64} {state : Except String MiningStateReturn}
    {w : Watcher} (started : Watcher.start keccak cfg.signer blockNumber state = some (.ok w))
    {rt : GpuRuntime} {nonceStart : U64} {es : List MinerEvent}
    (answered : ∀ e ∈ es, ∀ d, deliveryEvent e = some d → Delivery.Answered d)
    (reached : (machine keccak gpu cfg).run (start w rt nonceStart) es = some t) :
    ∃ log, ((Delivery.machine keccak cfg.signer gpu none).logged
        (Delivery.notes keccak cfg.signer none)).run (Delivery.start w rt nonceStart, [])
          (es.filterMap deliveryEvent) = some (t.delivery, log) ∧
      (Delivery.Delivers (jobOf none w.updates.value) t.delivery log ↔
        (Delivery.Settled t.delivery → ¬ LastLost log)) := by
  obtain ⟨log, logged⟩ := Machine.run_logged _ (run_delivery reached) []
  refine ⟨log, logged, (Delivery.run_sound started ?_ logged).delivers_iff⟩
  intro d member
  obtain ⟨e, event, part⟩ := List.mem_filterMap.mp member
  exact answered e event d part

end Miner

end HashMiner
