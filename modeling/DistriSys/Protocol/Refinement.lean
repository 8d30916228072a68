import DistriSys.Protocol.Lifecycle
import DistriSys.Protocol.Integrity
import Mathlib.Data.List.Perm.Basic

/-!
# The system refines the life cycle of every job

`ledger env s id` is the account of job `id` in the state `s`. **`step_refines`**:
every step of the system is, for every id, a move of `Ledger.Steps` (most of
them `stutter`), and `Licensed` says which component was where when the move is
one that a property makes assumptions about.

- `WorkerPc.custody`: the phase of a worker, `held` how many are in one;
- `Store.waiting_…`, `held_set`, `announced_set`: how commands and steps change the counts;
- `produce_refines`, `work_refines`, …: one lemma for each kind of step;
- `ledger_run`: an invariant of the life cycle holds of every job in every run whose steps are
  licensed to make its moves.

The account does not mention other jobs, nor when a step happens, so facts about one job are
proved where they are short: as invariants of `Ledger.Steps`, a system with no store and no
components. What a property assumes about components is turned into what moves are made, by
`Licensed`, and the store is seen again only when the result is read back.
-/

namespace DistriSys

open Js Redis Transition

variable {T : Type}

/-! ## Reading the account off a state -/

/-- Copies of an id on the waiting lists of a queue. -/
def Store.waiting (st : Store) (queue : QueueName) (id : JobId) : Nat :=
  (priorities.flatMap fun p => st.lists (.waitingList queue p.name)).count id

/-- The job a worker holds, and how far it is with it. -/
def WorkerPc.custody : WorkerPc T → Option (JobId × Phase)
  | poll _ => none
  | fetch jobId => some (jobId, .loading)
  | markActive jobId _ => some (jobId, .loading)
  | markFailed jobId => some (jobId, .loading)
  | register jobId _ _ => some (jobId, .loading)
  | beat jobId _ => some (jobId, .loading)
  | running jobId _ _ => some (jobId, .running)
  | complete jobId _ => some (jobId, .completing)
  | countFailure jobId _ => some (jobId, .failing)
  | writeDelayed jobId _ _ => some (jobId, .failing)
  | writeDead jobId _ => some (jobId, .failing)
  | zaddDelayed jobId _ => some (jobId, .delaying)
  | lpushDead jobId => some (jobId, .burying)
  | cleanup jobId => some (jobId, .closing)
  | crashed => none

/-- The workers in a phase of running `id`. -/
def held (workers : List (Worker T)) (id : JobId) (phase : Phase) : Nat :=
  workers.countP fun wk => decide (wk.pc.custody = some (id, phase))

/-- The id a producer has not pushed yet but still may. -/
def ProducerPc.announced? : ProducerPc T → Option JobId
  | save id _ _ => some id
  | claim id _ _ => some id
  | push id _ => some id
  | _ => none

/-- How many producers have announced the job. -/
def announced (producers : List (ProducerPc T)) (id : JobId) : Nat :=
  producers.countP fun pc => decide (pc.announced? = some id)

/-- The `job.attempts` of an event, when it is a handler call for `id`. -/
def startOf (id : JobId) : Event → Option JsNumber
  | .started jobId attempts => if jobId = id then some attempts else none
  | _ => none

/-- The `job.attempts` of the handler calls for `id`, in order. -/
def starts (log : List Event) (id : JobId) : List JsNumber := log.filterMap (startOf id)

/-- The account of a job. -/
def ledger (env : Env T) (s : Config T) (id : JobId) : Ledger where
  called := (s.calls.map Call.id).count id
  announced := announced s.producers id
  waiting := s.store.waiting env.queueName id
  processing := (s.store.lists (.processingList env.queueName)).count id
  delayed := (s.store.delayed env.queueName).members.count id
  dead := (s.store.lists (.deadList env.queueName)).count id
  loading := held s.workers id .loading
  running := held s.workers id .running
  failing := held s.workers id .failing
  delaying := held s.workers id .delaying
  burying := held s.workers id .burying
  completing := held s.workers id .completing
  closing := held s.workers id .closing
  status := (s.store.jobs id).status
  attempts := (s.store.jobs id).attempts
  pushed := s.log.count (.pushed id)
  starts := starts s.log id
  resolved := s.log.count (.resolved id)
  rejected := s.log.count (.rejected id)
  completed := s.log.count (.completed id)
  failed := s.log.count (.failed id)
  filed := s.log.count (.delayed id)
  released := s.log.count (.released id)
  requeued := s.log.count (.requeued id)
  retried := s.log.count (.retried id)

/-- The live workers that hold `id`: from the `RPOPLPUSH` that returned it to the
clean-up, or to an early end of `processJob`. -/
def Config.holders (s : Config T) (id : JobId) : Nat :=
  s.workers.countP fun wk => decide (wk.pc.jobId? = some id)

/-- A worker holds a job in some phase. -/
theorem WorkerPc.jobId?_eq_custody (pc : WorkerPc T) : pc.jobId? = pc.custody.map Prod.fst := by
  cases pc <;> rfl

/-- The holders are the workers of all phases. -/
theorem ledger_holders (env : Env T) (s : Config T) (id : JobId) :
    (ledger env s id).holders = s.holders id := by
  simp only [Ledger.holders, ledger, held, Config.holders, WorkerPc.jobId?_eq_custody]
  induction s.workers with
  | nil => rfl
  | cons wk workers ih =>
    simp only [List.countP_cons, ← ih]
    rcases wk.pc.custody with _ | ⟨jobId, phase⟩
    · simp
    · by_cases hid : jobId = id
      · cases phase <;> simp [hid] <;> omega
      · simp [hid]

/-! ## The transactions of passes and requests -/

/-- The job whose requeue transaction the step runs. -/
def Config.watchdogTransaction (s : Config T) : Action T → Option JobId
  | .watch i =>
    match s.watchdogs[i]? with
    | some (.requeue jobId _ _) => some jobId
    | _ => none
  | _ => none

/-- The job whose release transaction the step runs. -/
def Config.schedulerTransaction (s : Config T) : Action T → Option JobId
  | .schedule i =>
    match s.schedulers[i]? with
    | some (.move jobId _ _) => some jobId
    | _ => none
  | _ => none

/-- The job whose retry transaction the step runs. -/
def Config.retryTransaction (s : Config T) : Action T → Option JobId
  | .respond i =>
    match s.retries[i]? with
    | some (.requeue id _) => some id
    | _ => none
  | _ => none

/-- The worker that dies in the step. -/
def Action.workerDeath : Action T → Option Nat
  | .crash (.worker w) => some w
  | _ => none

/-! ## How commands change the counts -/

section Waiting

variable {st st' : Store} {queue : QueueName} {id j : JobId}

/-- Only the three lists that are polled count as waiting. -/
theorem Store.waiting_congr
    (h : ∀ p : JobPriority, st'.lists (.waitingList queue p.name) = st.lists (.waitingList queue p.name)) :
    st'.waiting queue id = st.waiting queue id := by
  simp only [waiting, h]

/-- A push on one of them adds one copy. -/
@[simp] theorem Store.waiting_lpush (p : JobPriority) :
    (st.lpush (.waitingList queue p.name) j).waiting queue id =
      st.waiting queue id + if j = id then 1 else 0 := by
  cases p <;> by_cases hj : j = id <;>
    simp [waiting, priorities, lpush, hj, Function.update_apply, JobPriority.name] <;> omega

@[simp] theorem Store.processing_lpush_waiting {priority : String} :
    (st.lpush (.waitingList queue priority) j).lists (.processingList queue) =
      st.lists (.processingList queue) := by
  simp [lpush]

@[simp] theorem Store.dead_lpush_waiting {priority : String} :
    (st.lpush (.waitingList queue priority) j).lists (.deadList queue) =
      st.lists (.deadList queue) := by
  simp [lpush]

@[simp] theorem Store.waiting_lrem_processing {n : Nat} :
    (st.lrem (.processingList queue) n j).waiting queue id = st.waiting queue id :=
  waiting_congr fun _ => by simp [Store.lrem]

@[simp] theorem Store.waiting_lrem_dead {n : Nat} :
    (st.lrem (.deadList queue) n j).waiting queue id = st.waiting queue id :=
  waiting_congr fun _ => by simp [Store.lrem]

@[simp] theorem Store.waiting_hmset {fields : JobHash} :
    (st.hmset j fields).waiting queue id = st.waiting queue id := rfl

@[simp] theorem Store.waiting_zrem {queue' : QueueName} :
    (st.zrem queue' j).waiting queue id = st.waiting queue id := rfl

@[simp] theorem Store.waiting_hdelActive {queue' : QueueName} :
    (st.hdelActive queue' j).waiting queue id = st.waiting queue id := rfl

/-- `RPOPLPUSH` moves one copy of the id it returns. -/
theorem Store.counts_rpoplpush {p : JobPriority}
    (h : st.rpoplpush (.waitingList queue p.name) (.processingList queue) = some (j, st'))
    (id : JobId) :
    st.waiting queue id = st'.waiting queue id + (if j = id then 1 else 0) ∧
      (st'.lists (.processingList queue)).count id =
        (st.lists (.processingList queue)).count id + (if j = id then 1 else 0) ∧
      st'.lists (.deadList queue) = st.lists (.deadList queue) := by
  obtain ⟨rest, hpop, rfl⟩ := rpoplpush_eq_some h
  have hcount := count_rpop hpop id
  refine ⟨?_, ?_, by simp [lpush]⟩
  · cases p <;>
      simp [waiting, priorities, lpush, Function.update_apply, JobPriority.name] at hcount ⊢ <;>
      omega
  · by_cases hj : j = id <;> simp [lpush, hj]

/-- The script pushes its argument when the slot is free. -/
theorem Store.counts_idempotentEnqueue {now : Nat} {key : String}
    (h : Volatile.get? now (st.idempotency key) = none) (queue : QueueName) (p : JobPriority)
    (j : JobId) (ttl : Nat) (id : JobId) :
    let st' := (st.idempotentEnqueue now key (.waitingList queue p.name) j ttl).2
    st'.waiting queue id = st.waiting queue id + (if j = id then 1 else 0) ∧
      st'.lists (.processingList queue) = st.lists (.processingList queue) ∧
      st'.lists (.deadList queue) = st.lists (.deadList queue) := by
  rw [idempotentEnqueue, h]
  exact ⟨waiting_lpush p, processing_lpush_waiting, dead_lpush_waiting⟩

end Waiting

section Workers

variable {workers : List (Worker T)} {w : Nat} {wk wk' : Worker T} {id : JobId} {phase : Phase}

/-- A worker that is seen in a phase is counted there. -/
theorem held_pos (hw : workers[w]? = some wk) (h : wk.pc.custody = some (id, phase)) :
    1 ≤ held workers id phase :=
  List.countP_pos_iff.mpr ⟨wk, List.mem_of_getElem? hw, by simp [h]⟩

theorem countP_set {α : Type} {l : List α} {i : Nat} {a b : α} (p : α → Bool) (h : l[i]? = some a) :
    (l.set i b).countP p = l.countP p - (if p a then 1 else 0) + (if p b then 1 else 0) := by
  obtain ⟨hi, rfl⟩ := List.getElem?_eq_some_iff.mp h
  exact List.countP_set hi

/-- A worker that moves leaves its phase and enters the next. -/
theorem held_set (hw : workers[w]? = some wk) (wk' : Worker T) (id : JobId) (phase : Phase) :
    held (workers.set w wk') id phase =
      held workers id phase - (if wk.pc.custody = some (id, phase) then 1 else 0) +
        (if wk'.pc.custody = some (id, phase) then 1 else 0) := by
  simpa [held] using countP_set (fun wk => decide (wk.pc.custody = some (id, phase))) hw

/-- A worker that stays in its phase changes no count. -/
theorem held_set_same (hw : workers[w]? = some wk) (h : wk'.pc.custody = wk.pc.custody)
    (id : JobId) (phase : Phase) :
    held (workers.set w wk') id phase = held workers id phase := by
  rw [held_set hw, h]
  split
  · next hc => have := held_pos hw hc; omega
  · rfl

/-- Two workers with one job are counted twice. -/
theorem held_two {phase' : Phase} (hw : workers[w]? = some wk)
    (h : wk.pc.custody = some (id, phase)) (hwk' : wk' ∈ workers.eraseIdx w)
    (h' : wk'.pc.custody = some (id, phase')) :
    (if phase = phase' then 2 else 1) ≤ held workers id phase ∧ 1 ≤ held workers id phase' := by
  obtain ⟨hlt, rfl⟩ := List.getElem?_eq_some_iff.mp hw
  -- count the workers with the two in front
  have hperm := (List.getElem_cons_eraseIdx_perm hlt).countP_eq
  have hpos : ∀ ph, wk'.pc.custody = some (id, ph) → 1 ≤ held (workers.eraseIdx w) id ph :=
    fun ph hph => List.countP_pos_iff.mpr ⟨wk', hwk', by simp [hph]⟩
  constructor
  · have hcount := hperm fun wk => decide (wk.pc.custody = some (id, phase))
    rw [List.countP_cons_of_pos (by simp [h])] at hcount
    split
    · next heq =>
      have := hpos phase (heq ▸ h')
      simp only [held] at this ⊢
      omega
    · simp only [held]
      omega
  · have hle := (List.eraseIdx_sublist workers w).countP_le
      (p := fun wk => decide (wk.pc.custody = some (id, phase')))
    exact (hpos phase' h').trans hle

end Workers

/-! ## The refinement -/

/-- Action `a` runs the command `pc` of a worker. -/
def Config.Works (s : Config T) (a : Action T) (pc : WorkerPc T) : Prop :=
  ∃ w draw wk, a = .work w draw ∧ s.workers[w]? = some wk ∧ wk.pc = pc

/-- Which component was where when job `id` makes a move. -/
def Licensed (env : Env T) (s : Config T) (a : Action T) (id : JobId) : Move → Prop
  | .misfit => s.Works a (.markFailed id)
  | .forsake => s.Works a (.fetch id) ∧ ∀ job, deserializeJob env.json (s.store.jobs id) ≠ .ok job
  | .start attempts => ∃ job, s.Works a (.beat id job) ∧ attempts = job.attempts
  | .failDelayed attempts =>
    ∃ next delay, s.Works a (.writeDelayed id next delay) ∧ attempts = next.toString
  | .failDead attempts => ∃ next, s.Works a (.writeDead id next) ∧ attempts = next.toString
  | .die phase => ∃ w wk, a = .crash (.worker w) ∧ s.workers[w]? = some wk ∧
      wk.pc.custody = some (id, phase)
  | .release => ∃ i priority rest, a = .schedule i ∧
      s.schedulers[i]? = some (.move id priority rest)
  | .requeue attempts => ∃ i jobHash rest, a = .watch i ∧
      s.watchdogs[i]? = some (.requeue id jobHash rest) ∧
      attempts = (requeueAttempts jobHash).toString
  | .retry => ∃ i priority, a = .respond i ∧ s.retries[i]? = some (.requeue id priority)
  | _ => True

section Licensed

variable {env : Env T} {s : Config T} {a : Action T} {id : JobId}

/-- A requeue is the transaction of a watchdog. -/
theorem Licensed.watchdogTransaction {attempts : String}
    (h : Licensed env s a id (.requeue attempts)) : s.watchdogTransaction a = some id := by
  obtain ⟨i, jobHash, rest, rfl, hi, -⟩ := h
  simp [Config.watchdogTransaction, hi]

/-- A release is the transaction of a scheduler. -/
theorem Licensed.schedulerTransaction (h : Licensed env s a id .release) :
    s.schedulerTransaction a = some id := by
  obtain ⟨i, priority, rest, rfl, hi⟩ := h
  simp [Config.schedulerTransaction, hi]

/-- A retry is the transaction of a request. -/
theorem Licensed.retryTransaction (h : Licensed env s a id .retry) :
    s.retryTransaction a = some id := by
  obtain ⟨i, priority, rfl, hi⟩ := h
  simp [Config.retryTransaction, hi]

/-- A worker goes missing only when one dies. -/
theorem Licensed.workerDeath {phase : Phase} (h : Licensed env s a id (.die phase)) :
    a.workerDeath ≠ none := by
  obtain ⟨w, wk, rfl, -⟩ := h
  nofun

end Licensed

section Refinement

variable {env : Env T} {s : Config T} {id : JobId}

@[simp] theorem starts_append {log events : List Event} :
    starts (log ++ events) id = starts log id ++ events.filterMap (startOf id) :=
  List.filterMap_append

/-- A worker's command about another job leaves the account of `id` alone. -/
theorem ledger_work_other {now w draw : Nat} {wk : Worker T} {e : Effect (WorkerPc T)}
    (hw : s.workers[w]? = some wk) (hid : wk.pc.jobId? ≠ some id)
    (hpoll : ∀ p, wk.pc ≠ .poll p)
    (he : workerStep env now w draw wk.handlers s.store wk.pc = some e) :
    ledger env
        { s with
          store := e.store, workers := s.workers.set w { wk with pc := e.pc }
          log := s.log ++ e.events } id = ledger env s id := by
  obtain ⟨handlers, pc⟩ := wk
  have hset := fun (pc' : WorkerPc T) phase =>
    held_set hw ⟨handlers, pc'⟩ id phase
  cases pc with
  | poll p => exact absurd rfl (hpoll p)
  | fetch jobId =>
    simp only [WorkerPc.jobId?, ne_eq, Option.some.injEq] at hid
    simp only [workerStep] at he
    split at he
    · cases he
      simp [ledger, hset, WorkerPc.custody, hid]
    · split at he <;> cases he <;> simp [ledger, hset, WorkerPc.custody, hid]
  | markActive jobId job =>
    simp only [WorkerPc.jobId?, ne_eq, Option.some.injEq] at hid
    cases he
    dsimp only
    split <;> simp [ledger, hset, WorkerPc.custody, hid, Ne.symm hid, Store.hmset, Store.waiting]
  | countFailure jobId job =>
    simp only [WorkerPc.jobId?, ne_eq, Option.some.injEq] at hid
    cases he
    dsimp only [retryOrBury]
    split <;> simp [ledger, hset, WorkerPc.custody, hid, Store.waiting]
  | running => cases he
  | crashed => cases he
  | _ =>
    simp only [WorkerPc.jobId?, ne_eq, Option.some.injEq] at hid
    cases he
    simp [ledger, hset, WorkerPc.custody, hid, Ne.symm hid, startOf, Store.hmset, Store.waiting,
      Store.lpush, Store.lrem, Store.zadd, Store.hsetActive, Store.hdelActive,
      Store.setHeartbeat, Store.delHeartbeat]

/-- The one command that picks its job. -/
theorem poll_refines {w draw : Nat} {handlers : List String} {p : JobPriority}
    {e : Effect (WorkerPc T)} (hw : s.workers[w]? = some ⟨handlers, .poll p⟩)
    (he : workerStep env s.clock w draw handlers s.store (.poll p) = some e) :
    ∃ m, Licensed env s (.work w draw) id m ∧ (ledger env s id).Steps m
      (ledger env
        { s with
          store := e.store, workers := s.workers.set w ⟨handlers, e.pc⟩
          log := s.log ++ e.events } id) := by
  simp only [workerStep] at he
  split at he
  · next jobId st' hpop =>
    cases he
    obtain ⟨hwaiting, hprocessing, hdead⟩ := Store.counts_rpoplpush hpop id
    have hjobs := Store.jobs_rpoplpush hpop
    have hdelayed := Store.delayed_rpoplpush hpop
    -- the job popped, or another one
    by_cases hid : jobId = id
    · refine ⟨.take, trivial, ?_, ?_⟩
      · show 1 ≤ s.store.waiting env.queueName id
        rw [hwaiting, if_pos hid]
        exact Nat.le_add_left 1 _
      · simp [ledger, Ledger.apply, held_set hw, WorkerPc.custody, startOf, hid, hwaiting,
          hprocessing, hdead, hjobs, hdelayed]
    · refine ⟨.stutter, trivial, trivial, ?_⟩
      simp [ledger, Ledger.apply, held_set hw, WorkerPc.custody, startOf, hid, hwaiting,
        hprocessing, hdead, hjobs, hdelayed]
  · cases he
    refine ⟨.stutter, trivial, trivial, ?_⟩
    simp [ledger, Ledger.apply, held_set hw, WorkerPc.custody]

/-- A worker's command is a move of the job it holds, and none of any other. -/
theorem work_refines {w draw : Nat} {wk : Worker T} {e : Effect (WorkerPc T)}
    (hw : s.workers[w]? = some wk)
    (he : workerStep env s.clock w draw wk.handlers s.store wk.pc = some e) :
    ∃ m, Licensed env s (.work w draw) id m ∧ (ledger env s id).Steps m
      (ledger env
        { s with
          store := e.store, workers := s.workers.set w { wk with pc := e.pc }
          log := s.log ++ e.events } id) := by
  by_cases hpoll : ∃ p, wk.pc = .poll p
  · obtain ⟨handlers, pc⟩ := wk
    obtain ⟨p, rfl⟩ := hpoll
    exact poll_refines hw he
  push Not at hpoll
  -- a worker with another job, or none, is nobody to this one
  by_cases hid : wk.pc.jobId? = some id
  swap
  · exact ⟨.stutter, trivial, trivial, ledger_work_other hw hid hpoll he⟩
  obtain ⟨handlers, pc⟩ := wk
  have hpos : ∀ phase, pc.custody = some (id, phase) → 1 ≤ held s.workers id phase :=
    fun _ h => held_pos hw h
  have hset := fun (pc' : WorkerPc T) phase =>
    held_set hw ⟨handlers, pc'⟩ id phase
  have hsame : ∀ (pc' : WorkerPc T) phase, pc'.custody = pc.custody →
      held (s.workers.set w ⟨handlers, pc'⟩) id phase = held s.workers id phase :=
    fun _ phase h => held_set_same hw h id phase
  cases pc with
  | poll p => exact absurd rfl (hpoll p)
  | fetch jobId =>
    cases hid
    -- no record, or one that cannot be decoded: the entry stays, the worker goes
    have hforsake : (ledger env s id).Steps .forsake (ledger env
        { s with workers := s.workers.set w ⟨handlers, .poll .high⟩, log := s.log ++ [] } id) :=
      ⟨hpos .loading rfl, by simp [ledger, Ledger.apply, hset, WorkerPc.custody]⟩
    simp only [workerStep] at he
    split at he
    · next hempty =>
      cases he
      refine ⟨.forsake, ⟨⟨w, draw, _, rfl, hw, rfl⟩, fun job hjob => ?_⟩, hforsake⟩
      rw [of_decide_eq_true hempty] at hjob
      cases hjob
    · split at he
      · next error herror =>
        cases he
        refine ⟨.forsake, ⟨⟨w, draw, _, rfl, hw, rfl⟩, fun job hjob => ?_⟩, hforsake⟩
        rw [herror] at hjob
        cases hjob
      · next job hjob =>
        cases he
        refine ⟨.stutter, trivial, trivial, ?_⟩
        simp [ledger, Ledger.apply, hsame (.markActive id job) _ rfl]
  | markActive jobId job =>
    cases hid
    cases he
    -- the handler is looked up after the status is written
    refine ⟨.activate, trivial, hpos .loading rfl, ?_⟩
    dsimp only
    split
    · simp [ledger, Ledger.apply, hsame (.register id job s.clock) _ rfl, Store.hmset,
        JobHash.patch, Store.waiting]
    · simp [ledger, Ledger.apply, hsame (.markFailed id) _ rfl, Store.hmset, JobHash.patch,
        Store.waiting]
  | markFailed jobId =>
    cases hid
    cases he
    -- an unknown type: `failed`, and no clean-up
    refine ⟨.misfit, ⟨w, draw, _, rfl, hw, rfl⟩, hpos .loading rfl, ?_⟩
    simp [ledger, Ledger.apply, hset, WorkerPc.custody, Store.hmset, JobHash.patch, Store.waiting]
  | register jobId job startedAt =>
    cases hid
    cases he
    refine ⟨.stutter, trivial, trivial, ?_⟩
    simp [ledger, Ledger.apply, hsame (.beat id job) _ rfl, startOf, Store.hsetActive,
      Store.waiting]
  | beat jobId job =>
    cases hid
    cases he
    -- the first heartbeat, the handler call and its timer are one step
    refine ⟨.start job.attempts, ⟨job, ⟨w, draw, _, rfl, hw, rfl⟩, rfl⟩, hpos .loading rfl, ?_⟩
    simp [ledger, Ledger.apply, hset, WorkerPc.custody, startOf, Store.setHeartbeat, Store.waiting]
  | running jobId job startTime => cases he
  | complete jobId elapsed =>
    cases hid
    cases he
    refine ⟨.complete, trivial, hpos .completing rfl, ?_⟩
    simp [ledger, Ledger.apply, hset, WorkerPc.custody, startOf, Store.hmset, JobHash.patch,
      Store.waiting]
  | countFailure jobId job =>
    cases hid
    cases he
    refine ⟨.stutter, trivial, trivial, ?_⟩
    -- whether it is retried or buried, it is still the worker's
    have hkeep := fun phase => hsame (retryOrBury env.config draw id job) phase (by
      dsimp only [retryOrBury]
      split <;> rfl)
    simp [ledger, Ledger.apply, hkeep, Store.waiting]
  | writeDelayed jobId nextAttempt delay =>
    cases hid
    cases he
    refine ⟨.failDelayed nextAttempt.toString,
      ⟨nextAttempt, delay, ⟨w, draw, _, rfl, hw, rfl⟩, rfl⟩, hpos .failing rfl, ?_⟩
    simp [ledger, Ledger.apply, hset, WorkerPc.custody, startOf, Store.hmset, JobHash.patch,
      Store.waiting]
  | writeDead jobId nextAttempt =>
    cases hid
    cases he
    refine ⟨.failDead nextAttempt.toString,
      ⟨nextAttempt, ⟨w, draw, _, rfl, hw, rfl⟩, rfl⟩, hpos .failing rfl, ?_⟩
    simp [ledger, Ledger.apply, hset, WorkerPc.custody, startOf, Store.hmset, JobHash.patch,
      Store.waiting]
  | zaddDelayed jobId score =>
    cases hid
    cases he
    refine ⟨.delay, trivial, hpos .delaying rfl, ?_⟩
    simp [ledger, Ledger.apply, hset, WorkerPc.custody, startOf, Store.zadd, Store.waiting]
  | lpushDead jobId =>
    cases hid
    cases he
    refine ⟨.bury, trivial, hpos .burying rfl, ?_⟩
    simp [ledger, Ledger.apply, hset, WorkerPc.custody, startOf, Store.lpush, Store.waiting]
  | cleanup jobId =>
    cases hid
    cases he
    refine ⟨.cleanup, trivial, hpos .closing rfl, ?_⟩
    simp [ledger, Ledger.apply, hset, WorkerPc.custody, Store.lrem, Store.delHeartbeat,
      Store.hdelActive, Store.waiting]
  | crashed => cases he

/-- **A handler ends**: the job is resolved or rejected. -/
theorem settle_refines {w : Nat} {outcome : HandlerOutcome} {wk : Worker T} {pc : WorkerPc T}
    {events : List Event} (hw : s.workers[w]? = some wk)
    (he : settleStep s.clock outcome wk.pc = some (pc, events)) :
    ∃ m, Licensed env s (.settle w outcome) id m ∧ (ledger env s id).Steps m
      (ledger env
        { s with workers := s.workers.set w { wk with pc := pc }, log := s.log ++ events } id) := by
  obtain ⟨handlers, pc₀⟩ := wk
  have hset := fun (pc' : WorkerPc T) phase =>
    held_set hw ⟨handlers, pc'⟩ id phase
  cases pc₀ with
  | running jobId job startTime =>
    by_cases hid : jobId = id
    · subst hid
      -- the handler whose promise settles is of this job
      have hpos : 1 ≤ held s.workers jobId .running := held_pos hw rfl
      cases outcome with
      | resolve =>
        cases he
        refine ⟨.resolve, trivial, hpos, ?_⟩
        simp [ledger, Ledger.apply, hset, WorkerPc.custody, startOf]
      | reject =>
        cases he
        refine ⟨.reject, trivial, hpos, ?_⟩
        simp [ledger, Ledger.apply, hset, WorkerPc.custody, startOf]
    · refine ⟨.stutter, trivial, trivial, ?_⟩
      cases outcome <;> cases he <;>
        simp [ledger, Ledger.apply, hset, WorkerPc.custody, startOf, hid]
  | _ => cases he

theorem announced_pos {producers : List (ProducerPc T)} {i : Nat} {pc : ProducerPc T}
    (hi : producers[i]? = some pc) (h : pc.announced? = some id) : 1 ≤ announced producers id :=
  List.countP_pos_iff.mpr ⟨pc, List.mem_of_getElem? hi, by simp [h]⟩

/-- A producer that moves takes its announcement along. -/
theorem announced_set {producers : List (ProducerPc T)} {i : Nat} {pc : ProducerPc T}
    (hi : producers[i]? = some pc) (pc' : ProducerPc T) (id : JobId) :
    announced (producers.set i pc') id =
      announced producers id - (if pc.announced? = some id then 1 else 0) +
        (if pc'.announced? = some id then 1 else 0) := by
  simpa [announced] using countP_set (fun pc => decide (pc.announced? = some id)) hi

theorem announced_set_same {producers : List (ProducerPc T)} {i : Nat} {pc pc' : ProducerPc T}
    (hi : producers[i]? = some pc) (h : pc'.announced? = pc.announced?) (id : JobId) :
    announced (producers.set i pc') id = announced producers id := by
  rw [announced_set hi, h]
  split
  · next hc => have := announced_pos hi hc; omega
  · rfl

/-- A producer's command saves, publishes, drops or erases its own job. -/
theorem produce_refines (h : Integrity env s) {i : Nat} {pc : ProducerPc T}
    {e : Effect (ProducerPc T)} (hi : s.producers[i]? = some pc)
    (he : producerStep env s.clock s.store pc = some e) :
    ∃ m, Licensed env s (.produce i) id m ∧ (ledger env s id).Steps m
      (ledger env
        { s with
          store := e.store, producers := s.producers.set i e.pc, log := s.log ++ e.events } id) := by
  have hfine := h.producers pc (List.mem_of_getElem? hi)
  have hset := fun pc' => announced_set hi pc' id
  have hsame : ∀ pc' : ProducerPc T, pc'.announced? = pc.announced? →
      announced (s.producers.set i pc') id = announced s.producers id :=
    fun _ h => announced_set_same hi h id
  cases pc with
  | idle => cases he
  | save id' job key =>
    obtain ⟨hunpushed, c, -, rfl, rfl, -⟩ := hfine
    cases he
    have hkeep : ∀ pc' : ProducerPc T, pc'.announced? = some c.id →
        announced (s.producers.set i pc') id = announced s.producers id := hsame
    by_cases hid : c.id = id
    · subst hid
      refine ⟨.save, trivial, ⟨announced_pos hi rfl, List.count_eq_zero.mpr hunpushed⟩, ?_⟩
      have hstatus : (serializeJob env.json c.job).status = some JobStatus.waiting.name := rfl
      have hattempts : (serializeJob env.json c.job).attempts = some "0" := rfl
      cases key with
      | none =>
        simp [ledger, Ledger.apply, hkeep (.push c.id c.job) rfl, Store.hmset, Store.waiting,
          JobHash.patch, hstatus, hattempts]
      | some key =>
        simp [ledger, Ledger.apply, hkeep (.claim c.id c.job key) rfl, Store.hmset, Store.waiting,
          JobHash.patch, hstatus, hattempts]
    · refine ⟨.stutter, trivial, trivial, ?_⟩
      cases key with
      | none =>
        simp [ledger, Ledger.apply, hkeep (.push c.id c.job) rfl, Store.hmset, Store.waiting,
          Ne.symm hid]
      | some key =>
        simp [ledger, Ledger.apply, hkeep (.claim c.id c.job key) rfl, Store.hmset, Store.waiting,
          Ne.symm hid]
  | claim id' job key =>
    obtain ⟨hunpushed, -, c, -, rfl, rfl, -⟩ := hfine
    have hpriority : c.job.priority = c.request.priority.name := rfl
    cases hslot : Volatile.get? s.clock (s.store.idempotency key) with
    | none =>
      rw [producerStep_claim_free hslot] at he
      cases he
      obtain ⟨hwaiting, hprocessing, hdead⟩ :=
        Store.counts_idempotentEnqueue hslot env.queueName c.request.priority c.id
          idempotencyTtlSec id
      by_cases hid : c.id = id
      · subst hid
        refine ⟨.publish, trivial, announced_pos hi rfl, ?_⟩
        simp [ledger, Ledger.apply, hset, ProducerPc.announced?, startOf, hpriority, hwaiting,
          hprocessing, hdead]
      · refine ⟨.stutter, trivial, trivial, ?_⟩
        simp [ledger, Ledger.apply, hset, ProducerPc.announced?, startOf, hid, hpriority, hwaiting,
          hprocessing, hdead]
    | some holder =>
      -- the record stays until the `DEL`, but the id will not be pushed any more
      rw [producerStep_claim_held hslot (h.holder_ne hunpushed hslot)] at he
      cases he
      by_cases hid : c.id = id
      · subst hid
        refine ⟨.withdraw, trivial, announced_pos hi rfl, ?_⟩
        simp [ledger, Ledger.apply, hset, ProducerPc.announced?]
      · refine ⟨.stutter, trivial, trivial, ?_⟩
        simp [ledger, Ledger.apply, hset, ProducerPc.announced?, hid]
  | push id' job =>
    obtain ⟨hunpushed, -, c, -, rfl, rfl, -⟩ := hfine
    have hpriority : c.job.priority = c.request.priority.name := rfl
    cases he
    by_cases hid : c.id = id
    · subst hid
      refine ⟨.publish, trivial, announced_pos hi rfl, ?_⟩
      simp [ledger, Ledger.apply, hset, ProducerPc.announced?, startOf, hpriority]
    · refine ⟨.stutter, trivial, trivial, ?_⟩
      simp [ledger, Ledger.apply, hset, ProducerPc.announced?, startOf, hid, hpriority]
  | discard id' claimedId =>
    obtain ⟨hunpushed, -⟩ := hfine
    cases he
    by_cases hid : id' = id
    · subst hid
      refine ⟨.erase, trivial, List.count_eq_zero.mpr hunpushed, ?_⟩
      simp [ledger, Ledger.apply, hset, ProducerPc.announced?, startOf, Store.delJob,
        Store.waiting, JobHash.absent]
    · refine ⟨.stutter, trivial, trivial, ?_⟩
      simp [ledger, Ledger.apply, hset, ProducerPc.announced?, startOf, Store.delJob,
        Store.waiting, Ne.symm hid]

/-- The scheduler's transaction releases its job; its reads are no move. -/
theorem schedule_refines (h : Integrity env s) {i : Nat} {pc : SchedulerPc}
    (hi : s.schedulers[i]? = some pc) :
    ∃ m, Licensed env s (.schedule i) id m ∧ (ledger env s id).Steps m
      (ledger env
        { s with
          store := (schedulerStep env s.clock s.store pc).store
          schedulers := s.schedulers.set i (schedulerStep env s.clock s.store pc).pc
          log := s.log ++ (schedulerStep env s.clock s.store pc).events } id) := by
  have hfine := h.schedulers pc (List.mem_of_getElem? hi)
  cases pc with
  | idle =>
    refine ⟨.stutter, trivial, trivial, ?_⟩
    simp [schedulerStep, ledger, Ledger.apply]
  | lookup jobId rest =>
    refine ⟨.stutter, trivial, trivial, ?_⟩
    simp [schedulerStep, ledger, Ledger.apply]
  | move jobId priority rest =>
    have hpushed := hfine.pushed jobId List.mem_cons_self
    -- the priority it looked up is one of the three, so its list counts as waiting
    obtain ⟨c, -, -, rfl⟩ := hfine.priority jobId priority rest rfl
    by_cases hid : jobId = id
    · subst hid
      refine ⟨.release, ⟨i, _, rest, rfl, hi⟩, List.count_pos_iff.mpr hpushed, ?_⟩
      simp [schedulerStep, ledger, Ledger.apply, startOf, JobHash.patch]
    · refine ⟨.stutter, trivial, trivial, ?_⟩
      simp [schedulerStep, ledger, Ledger.apply, startOf, hid, Ne.symm hid]

/-- The watchdog's transaction requeues its job; its reads are no move. -/
theorem watch_refines (h : Integrity env s) {i : Nat} {pc : WatchdogPc}
    (hi : s.watchdogs[i]? = some pc) :
    ∃ m, Licensed env s (.watch i) id m ∧ (ledger env s id).Steps m
      (ledger env
        { s with
          store := (watchdogStep env s.clock s.store pc).store
          watchdogs := s.watchdogs.set i (watchdogStep env s.clock s.store pc).pc
          log := s.log ++ (watchdogStep env s.clock s.store pc).events } id) := by
  have hfine := h.watchdogs pc (List.mem_of_getElem? hi)
  cases pc with
  | requeue jobId jobHash rest =>
    have hpushed := hfine.pushed jobId List.mem_cons_self
    -- the record it read is complete, so the job is not dropped
    obtain ⟨c, -, -, hd⟩ := hfine.record jobId jobHash rest rfl
    by_cases hid : jobId = id
    · subst hid
      refine ⟨.requeue (requeueAttempts jobHash).toString, ⟨i, jobHash, rest, rfl, hi, rfl⟩,
        List.count_pos_iff.mpr hpushed, ?_⟩
      simp [watchdogStep, requeueTransaction, hd.isEmpty, hd.priority, ledger, Ledger.apply, startOf,
        JobHash.patch]
    · refine ⟨.stutter, trivial, trivial, ?_⟩
      simp [watchdogStep, requeueTransaction, hd.isEmpty, hd.priority, ledger, Ledger.apply, startOf,
        hid, Ne.symm hid]
  | _ =>
    refine ⟨.stutter, trivial, trivial, ?_⟩
    simp [watchdogStep, ledger, Ledger.apply]

/-- **A retry request**: its transaction is a retry, whatever the dead list holds by then. -/
theorem respond_refines (h : Integrity env s) {i : Nat} {pc : RetryPc} {e : Effect RetryPc}
    (hi : s.retries[i]? = some pc) (he : retryStep env s.store pc = some e) :
    ∃ m, Licensed env s (.respond i) id m ∧ (ledger env s id).Steps m
      (ledger env
        { s with
          store := e.store, retries := s.retries.set i e.pc, log := s.log ++ e.events } id) := by
  have hfine := h.retries pc (List.mem_of_getElem? hi)
  cases pc with
  | idle => cases he
  | requeue jobId priority =>
    have hpushed := hfine.pushed jobId rfl
    obtain ⟨c, -, -, rfl⟩ := hfine.priority jobId priority rfl
    cases he
    by_cases hid : jobId = id
    · subst hid
      refine ⟨.retry, ⟨i, _, rfl, hi⟩, List.count_pos_iff.mpr hpushed, ?_⟩
      simp [ledger, Ledger.apply, startOf, JobHash.patch]
    · refine ⟨.stutter, trivial, trivial, ?_⟩
      simp [ledger, Ledger.apply, startOf, hid, Ne.symm hid]

/-- **A producer dies**: what it has not pushed is withdrawn. -/
theorem crashProducer_refines {i : Nat} {pc : ProducerPc T} (hi : s.producers[i]? = some pc) :
    ∃ m, Licensed env s (.crash (.producer i)) id m ∧ (ledger env s id).Steps m
      (ledger env { s with producers := s.producers.set i .idle } id) := by
  have hidle : (ProducerPc.idle : ProducerPc T).announced? = none := rfl
  by_cases hid : pc.announced? = some id
  · refine ⟨.withdraw, trivial, announced_pos hi hid, ?_⟩
    simp [ledger, Ledger.apply, announced_set hi, hid, hidle]
  · refine ⟨.stutter, trivial, trivial, ?_⟩
    simp [ledger, Ledger.apply, announced_set hi, hid, hidle]

/-- **A worker dies** in the phase it is in; its entries stay. -/
theorem crashWorker_refines {w : Nat} {wk : Worker T} (hw : s.workers[w]? = some wk) :
    ∃ m, Licensed env s (.crash (.worker w)) id m ∧ (ledger env s id).Steps m
      (ledger env { s with workers := s.workers.set w { wk with pc := .crashed } } id) := by
  have hset := fun phase =>
    held_set hw { wk with pc := .crashed } id phase
  have hcrashed : (WorkerPc.crashed : WorkerPc T).custody = none := rfl
  by_cases hid : ∃ phase, wk.pc.custody = some (id, phase)
  · obtain ⟨phase, hphase⟩ := hid
    refine ⟨.die phase, ⟨w, wk, rfl, hw, hphase⟩, ?_, ?_⟩
    · have := held_pos hw hphase
      cases phase <;> exact this
    · cases phase <;>
        simp [ledger, Ledger.apply, Ledger.leave, hset, hphase, hcrashed]
  · push Not at hid
    refine ⟨.stutter, trivial, trivial, ?_⟩
    simp [ledger, Ledger.apply, hset, hid, hcrashed]

/-- **Refinement.** Seen from any job, every step of the system is a move of its
life cycle. -/
theorem step_refines {s' : Config T} {a : Action T} (h : Integrity env s)
    (hs : step env s a = some s') (id : JobId) :
    ∃ m, Licensed env s a id m ∧ (ledger env s id).Steps m (ledger env s' id) := by
  cases stepped hs with
  | @enqueue i id' call hi hid' =>
    -- the id is new, so it is announced for the first time
    have hset := announced_set hi (.save id' (call.job id' s.clock) call.idempotencyKey) id
    by_cases hid : id' = id
    · subst hid
      refine ⟨.announce, trivial, List.count_eq_zero.mpr hid', ?_⟩
      simp [ledger, Ledger.apply, hset, ProducerPc.announced?]
    · refine ⟨.stutter, trivial, trivial, ?_⟩
      simp [ledger, Ledger.apply, hset, ProducerPc.announced?, hid]
  | produce hi he => exact produce_refines h hi he
  | work hw he => exact work_refines hw he
  | settle hw he => exact settle_refines hw he
  | @process w type wk hw =>
    refine ⟨.stutter, trivial, trivial, ?_⟩
    have hsame : ∀ phase, held (s.workers.set w ⟨type :: wk.handlers, wk.pc⟩) id phase =
        held s.workers id phase := fun phase => by
      have hpc : (⟨type :: wk.handlers, wk.pc⟩ : Worker T).pc.custody = wk.pc.custody := rfl
      exact held_set_same hw hpc id phase
    simp [ledger, Ledger.apply, hsame]
  | schedule hi => exact schedule_refines h hi
  | watch hi => exact watch_refines h hi
  | respond hi he => exact respond_refines h hi he
  | crashProducer hi => exact crashProducer_refines hi
  | crashWorker hw => exact crashWorker_refines hw
  | _ => exact ⟨.stutter, trivial, trivial, rfl⟩

/-- As many passes and requests as the topology has. -/
theorem components_run {topology : Topology} {ok : Config T → Action T → Prop}
    (h : Reach (step env) ok (init topology) s) :
    s.schedulers.length = topology.schedulers ∧ s.watchdogs.length = topology.watchdogs ∧
      s.retries.length = topology.retries := by
  refine h.invariant (I := fun s : Config T => s.schedulers.length = topology.schedulers ∧
    s.watchdogs.length = topology.watchdogs ∧ s.retries.length = topology.retries)
    ⟨List.length_replicate, List.length_replicate, List.length_replicate⟩ ?_
  intro s a s' ⟨hschedulers, hwatchdogs, hretries⟩ _ hs
  obtain ⟨hs₁, hs₂, hs₃⟩ := components_step hs
  exact ⟨hs₁.trans hschedulers, hs₂.trans hwatchdogs, hs₃.trans hretries⟩

/-- Calls and events are never forgotten. -/
theorem grows_run {t : Config T} {ok : Config T → Action T → Prop} (h : Reach (step env) ok s t) :
    s.calls <+: t.calls ∧ s.log <+: t.log := by
  refine h.invariant (I := fun t => s.calls <+: t.calls ∧ s.log <+: t.log)
    ⟨List.prefix_refl _, List.prefix_refl _⟩ ?_
  intro u a u' ⟨hcalls, hlog⟩ _ hs
  exact ⟨hcalls.trans (calls_step hs), hlog.trans (log_step hs)⟩

/-- A job nobody has asked for yet. -/
theorem ledger_init (topology : Topology) : ledger env (init topology : Config T) id = {} := by
  have hworkers : ∀ phase, held (init topology : Config T).workers id phase = 0 := fun phase =>
    List.countP_eq_zero.mpr fun wk hwk => by
      obtain ⟨handlers, -, rfl⟩ := List.mem_map.mp hwk
      simp [WorkerPc.custody]
  have hproducers : announced (init topology : Config T).producers id = 0 :=
    List.countP_eq_zero.mpr fun pc hpc => by
      obtain rfl := List.eq_of_mem_replicate hpc
      simp [ProducerPc.announced?]
  simp only [ledger, hworkers, hproducers]
  rfl

/-- **Invariants of the life cycle are invariants of the system**: for every job,
if they hold of the empty account and the moves the run may make keep them. -/
theorem ledger_run {topology : Topology} {ok : Config T → Action T → Prop}
    (h : Reach (step env) ok (init topology) s) (id : JobId) (may : Ledger → Move → Prop)
    (J : Ledger → Prop)
    (hmay : ∀ ⦃s a m⦄, Reach (step env) ok (init topology) s → ok s a → Licensed env s a id m →
      may (ledger env s id) m)
    (h₀ : J {}) (hstep : ∀ ⦃L L' m⦄, J L → may L m → L.Steps m L' → J L') :
    J (ledger env s id) := by
  refine h.project (f := fun s => ledger env s id)
    (R := fun L L' => ∃ m, may L m ∧ L.Steps m L') ?_ ?_ ?_
  · show J (ledger env (init topology) id)
    rw [ledger_init]
    exact h₀
  · intro s a s' hr hok hs
    obtain ⟨m, hm, hL⟩ := step_refines (integrity_run hr) hs id
    exact ⟨m, hmay hr hok hm, hL⟩
  · rintro L L' hL ⟨m, hm, hs⟩
    exact hstep hL hm hs

end Refinement

end DistriSys
