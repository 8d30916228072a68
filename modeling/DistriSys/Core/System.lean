import DistriSys.Core.Queue
import DistriSys.Core.WorkerPool
import DistriSys.Core.Scheduler
import DistriSys.Core.Watchdog
import DistriSys.Core.Routes

/-!
# The whole system around one queue

Producers, worker loops, scheduler passes, watchdog passes and retry requests
share one Redis and one clock. `step` lets one of them run one Redis command (a
`MULTI` transaction or the Lua script counts as one), so a run is any
interleaving at command granularity. A slot of `producers`, `schedulers`,
`watchdogs` or `retries` runs its calls one after the other; calls that overlap
run in different slots.

The components `calls` and `log` only record the run.

- `Config` is a state, `Action` what can happen in it, `step` what it leads to;
- `stepped` inverts a step: whose it was, and what that component's own step function says;
- `workerMoved_of_mem`, `mem_schedulers_step`, `mem_watchdogs_step` follow one component of a
  kind through a step of any other;
- `clock_step`, `log_step`, `calls_step`: time, log and calls only grow, and
  `components_step` says that nobody joins or leaves.
-/

namespace DistriSys

open Redis

/-- An `enqueue` call, as recorded: its arguments, the id it drew and when it was made. -/
structure Call (T : Type) where
  id : JobId
  request : EnqueueCall T
  time : Nat

/-- The job a call built. -/
def Call.job {T : Type} (c : Call T) : Job T := c.request.job c.id c.time

/-- The idempotency key of a call. -/
def Call.key {T : Type} (c : Call T) : Option String := c.request.idempotencyKey

/-- A state of the system. -/
structure Config (T : Type) where
  store : Store
  clock : Nat
  producers : List (ProducerPc T)
  workers : List (Worker T)
  schedulers : List SchedulerPc
  watchdogs : List WatchdogPc
  retries : List RetryPc
  /-- The `enqueue` calls made so far. -/
  calls : List (Call T)
  /-- What happened so far. -/
  log : List Event

/-- How many components of each kind run; a worker comes with the job types it
has handlers for. -/
structure Topology where
  producers : Nat
  workers : List (List String)
  schedulers : Nat
  watchdogs : Nat
  retries : Nat

/-- A component that can die between two commands. -/
inductive Component where
  | producer (i : Nat)
  | worker (w : Nat)
  | scheduler (i : Nat)
  | watchdog (i : Nat)
  | retry (i : Nat)
deriving DecidableEq

/-- Who moves next. -/
inductive Action (T : Type) where
  /-- Time passes. -/
  | tick (ms : Nat)
  /-- Producer `i` calls `enqueue`; `id` is what `uuidv4` yields. -/
  | enqueue (i : Nat) (id : JobId) (call : EnqueueCall T)
  /-- Producer `i` runs its next command. -/
  | produce (i : Nat)
  /-- Worker `w` runs its next command. -/
  | work (w : Nat) (draw : Nat)
  /-- The handler call worker `w` waits for ends. -/
  | settle (w : Nat) (outcome : HandlerOutcome)
  /-- The interval timer of worker `w` renews its heartbeat. -/
  | renew (w : Nat)
  /-- `pool.process(type, …)` on the pool of worker `w`. -/
  | process (w : Nat) (type : String)
  /-- Scheduler pass `i` runs its next command, or begins. -/
  | schedule (i : Nat)
  /-- Watchdog pass `i` runs its next command, or begins. -/
  | watch (i : Nat)
  /-- `POST /jobs/:id/retry` arrives at slot `i`. -/
  | request (i : Nat) (id : JobId)
  /-- Retry request `i` runs its transaction. -/
  | respond (i : Nat)
  /-- A component dies between two commands. -/
  | crash (component : Component)

variable {T : Type}

/-- A system that has not started: empty Redis, everybody idle. -/
def init (topology : Topology) : Config T where
  store := .empty
  clock := 0
  producers := List.replicate topology.producers .idle
  workers := topology.workers.map fun handlers => ⟨handlers, .poll .high⟩
  schedulers := List.replicate topology.schedulers .idle
  watchdogs := List.replicate topology.watchdogs .idle
  retries := List.replicate topology.retries .idle
  calls := []
  log := []

/-- The death of a component. A worker stays dead; the other components are
passes and calls, and only the one under way is lost. -/
def crash (s : Config T) : Component → Option (Config T)
  | .producer i =>
    (s.producers[i]?).map fun _ => { s with producers := s.producers.set i .idle }
  | .worker w =>
    (s.workers[w]?).map fun wk => { s with workers := s.workers.set w { wk with pc := .crashed } }
  | .scheduler i =>
    (s.schedulers[i]?).map fun _ => { s with schedulers := s.schedulers.set i .idle }
  | .watchdog i =>
    (s.watchdogs[i]?).map fun _ => { s with watchdogs := s.watchdogs.set i .idle }
  | .retry i =>
    (s.retries[i]?).map fun _ => { s with retries := s.retries.set i .idle }

/-- One step of the system; `none` when the component named by the action has
no such step. -/
def step (env : Env T) (s : Config T) : Action T → Option (Config T)
  | .tick ms => some { s with clock := s.clock + ms }
  | .enqueue i id call =>
    match s.producers[i]? with
    | some .idle =>
      -- `uuidv4` never yields an id twice
      if id ∈ s.calls.map Call.id then none
      else some
        { s with
          producers := s.producers.set i (.save id (call.job id s.clock) call.idempotencyKey)
          calls := s.calls ++ [⟨id, call, s.clock⟩] }
    | _ => none
  | .produce i => do
    let pc ← s.producers[i]?
    let e ← producerStep env s.clock s.store pc
    some { s with
      store := e.store, producers := s.producers.set i e.pc, log := s.log ++ e.events }
  | .work w draw => do
    let wk ← s.workers[w]?
    let e ← workerStep env s.clock w draw wk.handlers s.store wk.pc
    some { s with
      store := e.store, workers := s.workers.set w { wk with pc := e.pc }, log := s.log ++ e.events }
  | .settle w outcome => do
    let wk ← s.workers[w]?
    let (pc, events) ← settleStep s.clock outcome wk.pc
    some { s with workers := s.workers.set w { wk with pc := pc }, log := s.log ++ events }
  | .renew w => do
    let wk ← s.workers[w]?
    let id ← wk.pc.renews
    some { s with store := s.store.setHeartbeat s.clock env.config.heartbeatTtlSec id }
  | .process w type => do
    let wk ← s.workers[w]?
    some { s with workers := s.workers.set w { wk with handlers := type :: wk.handlers } }
  | .schedule i => do
    let pc ← s.schedulers[i]?
    let e := schedulerStep env s.clock s.store pc
    some { s with
      store := e.store, schedulers := s.schedulers.set i e.pc, log := s.log ++ e.events }
  | .watch i => do
    let pc ← s.watchdogs[i]?
    let e := watchdogStep env s.clock s.store pc
    some { s with
      store := e.store, watchdogs := s.watchdogs.set i e.pc, log := s.log ++ e.events }
  | .request i id =>
    match s.retries[i]? with
    | some .idle => some { s with retries := s.retries.set i (retryRequest env s.store id) }
    | _ => none
  | .respond i => do
    let pc ← s.retries[i]?
    let e ← retryStep env s.store pc
    some { s with
      store := e.store, retries := s.retries.set i e.pc, log := s.log ++ e.events }
  | .crash component => crash s component

/-! ## What each step does -/

/-- A step, by cases on the action: who moved, from where, and what came of it. -/
inductive Stepped (env : Env T) (s : Config T) : Action T → Config T → Prop
  | tick (ms : Nat) : Stepped env s (.tick ms) { s with clock := s.clock + ms }
  | enqueue {i : Nat} {id : JobId} {call : EnqueueCall T} (hi : s.producers[i]? = some .idle)
      (hid : id ∉ s.calls.map Call.id) :
      Stepped env s (.enqueue i id call)
        { s with
          producers := s.producers.set i (.save id (call.job id s.clock) call.idempotencyKey)
          calls := s.calls ++ [⟨id, call, s.clock⟩] }
  | produce {i : Nat} {pc : ProducerPc T} {e : Effect (ProducerPc T)}
      (hi : s.producers[i]? = some pc) (he : producerStep env s.clock s.store pc = some e) :
      Stepped env s (.produce i)
        { s with
          store := e.store, producers := s.producers.set i e.pc, log := s.log ++ e.events }
  | work {w draw : Nat} {wk : Worker T} {e : Effect (WorkerPc T)} (hw : s.workers[w]? = some wk)
      (he : workerStep env s.clock w draw wk.handlers s.store wk.pc = some e) :
      Stepped env s (.work w draw)
        { s with
          store := e.store, workers := s.workers.set w { wk with pc := e.pc }
          log := s.log ++ e.events }
  | settle {w : Nat} {outcome : HandlerOutcome} {wk : Worker T} {pc : WorkerPc T}
      {events : List Event} (hw : s.workers[w]? = some wk)
      (he : settleStep s.clock outcome wk.pc = some (pc, events)) :
      Stepped env s (.settle w outcome)
        { s with workers := s.workers.set w { wk with pc := pc }, log := s.log ++ events }
  | renew {w : Nat} {wk : Worker T} {id : JobId} (hw : s.workers[w]? = some wk)
      (hid : wk.pc.renews = some id) :
      Stepped env s (.renew w)
        { s with store := s.store.setHeartbeat s.clock env.config.heartbeatTtlSec id }
  | process {w : Nat} {type : String} {wk : Worker T} (hw : s.workers[w]? = some wk) :
      Stepped env s (.process w type)
        { s with workers := s.workers.set w { wk with handlers := type :: wk.handlers } }
  | schedule {i : Nat} {pc : SchedulerPc} (hi : s.schedulers[i]? = some pc) :
      Stepped env s (.schedule i)
        { s with
          store := (schedulerStep env s.clock s.store pc).store
          schedulers := s.schedulers.set i (schedulerStep env s.clock s.store pc).pc
          log := s.log ++ (schedulerStep env s.clock s.store pc).events }
  | watch {i : Nat} {pc : WatchdogPc} (hi : s.watchdogs[i]? = some pc) :
      Stepped env s (.watch i)
        { s with
          store := (watchdogStep env s.clock s.store pc).store
          watchdogs := s.watchdogs.set i (watchdogStep env s.clock s.store pc).pc
          log := s.log ++ (watchdogStep env s.clock s.store pc).events }
  | request {i : Nat} {id : JobId} (hi : s.retries[i]? = some .idle) :
      Stepped env s (.request i id)
        { s with retries := s.retries.set i (retryRequest env s.store id) }
  | respond {i : Nat} {pc : RetryPc} {e : Effect RetryPc} (hi : s.retries[i]? = some pc)
      (he : retryStep env s.store pc = some e) :
      Stepped env s (.respond i)
        { s with
          store := e.store, retries := s.retries.set i e.pc, log := s.log ++ e.events }
  | crashProducer {i : Nat} {pc : ProducerPc T} (hi : s.producers[i]? = some pc) :
      Stepped env s (.crash (.producer i)) { s with producers := s.producers.set i .idle }
  | crashWorker {w : Nat} {wk : Worker T} (hw : s.workers[w]? = some wk) :
      Stepped env s (.crash (.worker w))
        { s with workers := s.workers.set w { wk with pc := .crashed } }
  | crashScheduler {i : Nat} {pc : SchedulerPc} (hi : s.schedulers[i]? = some pc) :
      Stepped env s (.crash (.scheduler i)) { s with schedulers := s.schedulers.set i .idle }
  | crashWatchdog {i : Nat} {pc : WatchdogPc} (hi : s.watchdogs[i]? = some pc) :
      Stepped env s (.crash (.watchdog i)) { s with watchdogs := s.watchdogs.set i .idle }
  | crashRetry {i : Nat} {pc : RetryPc} (hi : s.retries[i]? = some pc) :
      Stepped env s (.crash (.retry i)) { s with retries := s.retries.set i .idle }

/-- **Inversion of `step`.** -/
theorem stepped {env : Env T} {s s' : Config T} {a : Action T} (hs : step env s a = some s') :
    Stepped env s a s' := by
  cases a with
  | tick ms =>
    cases hs
    exact .tick ms
  -- the slot is free and the id is new
  | enqueue i id call =>
    simp only [step] at hs
    split at hs
    · next hi =>
      split at hs
      · cases hs
      · next hid =>
        cases hs
        exact .enqueue hi hid
    · cases hs
  | produce i =>
    obtain ⟨pc, hi, hs⟩ := Option.bind_eq_some_iff.mp hs
    obtain ⟨e, he, hs⟩ := Option.bind_eq_some_iff.mp hs
    cases hs
    exact .produce hi he
  | work w draw =>
    obtain ⟨wk, hw, hs⟩ := Option.bind_eq_some_iff.mp hs
    obtain ⟨e, he, hs⟩ := Option.bind_eq_some_iff.mp hs
    cases hs
    exact .work hw he
  | settle w outcome =>
    obtain ⟨wk, hw, hs⟩ := Option.bind_eq_some_iff.mp hs
    obtain ⟨⟨pc, events⟩, he, hs⟩ := Option.bind_eq_some_iff.mp hs
    cases hs
    exact .settle hw he
  | renew w =>
    obtain ⟨wk, hw, hs⟩ := Option.bind_eq_some_iff.mp hs
    obtain ⟨id, hid, hs⟩ := Option.bind_eq_some_iff.mp hs
    cases hs
    exact .renew hw hid
  | process w type =>
    obtain ⟨wk, hw, hs⟩ := Option.bind_eq_some_iff.mp hs
    cases hs
    exact .process hw
  | schedule i =>
    obtain ⟨pc, hi, hs⟩ := Option.bind_eq_some_iff.mp hs
    cases hs
    exact .schedule hi
  | watch i =>
    obtain ⟨pc, hi, hs⟩ := Option.bind_eq_some_iff.mp hs
    cases hs
    exact .watch hi
  | request i id =>
    simp only [step] at hs
    split at hs
    · next hi =>
      cases hs
      exact .request hi
    · cases hs
  | respond i =>
    obtain ⟨pc, hi, hs⟩ := Option.bind_eq_some_iff.mp hs
    obtain ⟨e, he, hs⟩ := Option.bind_eq_some_iff.mp hs
    cases hs
    exact .respond hi he
  -- a death asks only that there is such a component
  | crash component =>
    cases component with
    | producer i =>
      obtain ⟨pc, hi, rfl⟩ := Option.map_eq_some_iff.mp hs
      exact .crashProducer hi
    | worker w =>
      obtain ⟨wk, hw, rfl⟩ := Option.map_eq_some_iff.mp hs
      exact .crashWorker hw
    | scheduler i =>
      obtain ⟨pc, hi, rfl⟩ := Option.map_eq_some_iff.mp hs
      exact .crashScheduler hi
    | watchdog i =>
      obtain ⟨pc, hi, rfl⟩ := Option.map_eq_some_iff.mp hs
      exact .crashWatchdog hi
    | retry i =>
      obtain ⟨pc, hi, rfl⟩ := Option.map_eq_some_iff.mp hs
      exact .crashRetry hi

/-! ## Who touches what -/

/-- The scheduler passes that do not move in the step. -/
def Config.otherSchedulers (s : Config T) : Action T → List SchedulerPc
  | .schedule i => s.schedulers.eraseIdx i
  | _ => s.schedulers

/-- The watchdog passes that do not move in the step. -/
def Config.otherWatchdogs (s : Config T) : Action T → List WatchdogPc
  | .watch i => s.watchdogs.eraseIdx i
  | _ => s.watchdogs

/-- The workers that do not move in the step. -/
def Config.otherWorkers (s : Config T) : Action T → List (Worker T)
  | .work w _ => s.workers.eraseIdx w
  | .settle w _ => s.workers.eraseIdx w
  | .process w _ => s.workers.eraseIdx w
  | .crash (.worker w) => s.workers.eraseIdx w
  | _ => s.workers

theorem Config.mem_workers_of_mem_others {s : Config T} {a : Action T} {wk : Worker T}
    (h : wk ∈ s.otherWorkers a) : wk ∈ s.workers := by
  cases a with
  | work => exact List.mem_of_mem_eraseIdx h
  | settle => exact List.mem_of_mem_eraseIdx h
  | process => exact List.mem_of_mem_eraseIdx h
  | crash component =>
    cases component with
    | worker => exact List.mem_of_mem_eraseIdx h
    | _ => exact h
  | _ => exact h

theorem Config.mem_schedulers_of_mem_others {s : Config T} {a : Action T} {pc : SchedulerPc}
    (h : pc ∈ s.otherSchedulers a) : pc ∈ s.schedulers := by
  cases a with
  | schedule => exact List.mem_of_mem_eraseIdx h
  | _ => exact h

theorem Config.mem_watchdogs_of_mem_others {s : Config T} {a : Action T} {pc : WatchdogPc}
    (h : pc ∈ s.otherWatchdogs a) : pc ∈ s.watchdogs := by
  cases a with
  | watch => exact List.mem_of_mem_eraseIdx h
  | _ => exact h

/-- Where a worker's next command comes from: it did not move, died, got a
handler, ran its command, or its handler ended. -/
inductive WorkerMoved (env : Env T) (s : Config T) (a : Action T) (wk' : Worker T) : Prop
  | other (h : wk' ∈ s.otherWorkers a)
  | died (h : wk'.pc = .crashed)
  | registered {w : Nat} {type : String} {wk : Worker T} (ha : a = .process w type)
      (hw : s.workers[w]? = some wk) (h : wk'.pc = wk.pc)
  | worked {w draw : Nat} {wk : Worker T} {e : Effect (WorkerPc T)} (ha : a = .work w draw)
      (hw : s.workers[w]? = some wk)
      (he : workerStep env s.clock w draw wk.handlers s.store wk.pc = some e) (h : wk'.pc = e.pc)
  | settled {w : Nat} {outcome : HandlerOutcome} {wk : Worker T} {pc : WorkerPc T}
      {events : List Event} (ha : a = .settle w outcome) (hw : s.workers[w]? = some wk)
      (he : settleStep s.clock outcome wk.pc = some (pc, events)) (h : wk'.pc = pc)

/-- The same for the worker with index `w`. -/
inductive MovedAt (env : Env T) (s : Config T) (a : Action T) (w : Nat) (wk' : Worker T) : Prop
  | still (hother : ∀ outcome, a ≠ .settle w outcome) (hw : s.workers[w]? = some wk')
  | died (h : wk'.pc = .crashed)
  | registered {type : String} {wk : Worker T} (ha : a = .process w type)
      (hw : s.workers[w]? = some wk) (h : wk'.pc = wk.pc)
  | worked {draw : Nat} {wk : Worker T} {e : Effect (WorkerPc T)} (ha : a = .work w draw)
      (hw : s.workers[w]? = some wk)
      (he : workerStep env s.clock w draw wk.handlers s.store wk.pc = some e) (h : wk'.pc = e.pc)
  | settled {outcome : HandlerOutcome} {wk : Worker T} {pc : WorkerPc T} {events : List Event}
      (ha : a = .settle w outcome) (hw : s.workers[w]? = some wk)
      (he : settleStep s.clock outcome wk.pc = some (pc, events)) (h : wk'.pc = pc)

section Frames

variable {env : Env T} {s s' : Config T} {a : Action T}

theorem clock_step (hs : step env s a = some s') : s.clock ≤ s'.clock := by
  cases stepped hs with
  | tick ms => exact Nat.le_add_right _ _
  | _ => exact Nat.le_refl _

theorem log_step (hs : step env s a = some s') : s.log <+: s'.log := by
  cases stepped hs with
  | produce => exact List.prefix_append _ _
  | work => exact List.prefix_append _ _
  | settle => exact List.prefix_append _ _
  | schedule => exact List.prefix_append _ _
  | watch => exact List.prefix_append _ _
  | respond => exact List.prefix_append _ _
  | _ => exact List.prefix_refl _

theorem calls_step (hs : step env s a = some s') : s.calls <+: s'.calls := by
  cases stepped hs with
  | enqueue => exact List.prefix_append _ _
  | _ => exact List.prefix_refl _

/-- Nobody joins and nobody leaves. -/
theorem components_step (hs : step env s a = some s') :
    s'.schedulers.length = s.schedulers.length ∧ s'.watchdogs.length = s.watchdogs.length ∧
      s'.retries.length = s.retries.length := by
  cases stepped hs with
  | schedule => exact ⟨List.length_set, rfl, rfl⟩
  | crashScheduler => exact ⟨List.length_set, rfl, rfl⟩
  | watch => exact ⟨rfl, List.length_set, rfl⟩
  | crashWatchdog => exact ⟨rfl, List.length_set, rfl⟩
  | request => exact ⟨rfl, rfl, List.length_set⟩
  | respond => exact ⟨rfl, rfl, List.length_set⟩
  | crashRetry => exact ⟨rfl, rfl, List.length_set⟩
  | _ => exact ⟨rfl, rfl, rfl⟩

theorem mem_eraseIdx_or_eq_of_mem_set {α : Type} {l : List α} {i : Nat} {a b : α}
    (h : b ∈ l.set i a) : b ∈ l.eraseIdx i ∨ b = a := by
  obtain ⟨j, hj⟩ := List.mem_iff_getElem?.mp h
  rw [List.getElem?_set] at hj
  split at hj
  · split at hj
    · cases hj
      exact .inr rfl
    · cases hj
  · next hij => exact .inl (List.mem_eraseIdx_iff_getElem?.mpr ⟨j, Ne.symm hij, hj⟩)

theorem workerMoved_of_mem (hs : step env s a = some s') {wk' : Worker T} (h : wk' ∈ s'.workers) :
    WorkerMoved env s a wk' := by
  cases stepped hs with
  | work hw he =>
    rcases mem_eraseIdx_or_eq_of_mem_set h with h | rfl
    · exact .other h
    · exact .worked rfl hw he rfl
  | settle hw he =>
    rcases mem_eraseIdx_or_eq_of_mem_set h with h | rfl
    · exact .other h
    · exact .settled rfl hw he rfl
  | process hw =>
    rcases mem_eraseIdx_or_eq_of_mem_set h with h | rfl
    · exact .other h
    · exact .registered rfl hw rfl
  | crashWorker hw =>
    rcases mem_eraseIdx_or_eq_of_mem_set h with h | rfl
    · exact .other h
    · exact .died rfl
  -- no other step moves a worker
  | _ => exact .other h

theorem getElem?_set_cases {α : Type} {l : List α} {i j : Nat} {a b : α}
    (h : (l.set i a)[j]? = some b) : i = j ∧ b = a ∨ i ≠ j ∧ l[j]? = some b := by
  rw [List.getElem?_set] at h
  split at h
  · next hij =>
    split at h
    · exact .inl ⟨hij, (Option.some.inj h).symm⟩
    · cases h
  · next hij => exact .inr ⟨hij, h⟩

theorem movedAt_of_step (hs : step env s a = some s') {w : Nat} {wk' : Worker T}
    (hw' : s'.workers[w]? = some wk') : MovedAt env s a w wk' := by
  cases stepped hs with
  | work hw he =>
    rcases getElem?_set_cases hw' with ⟨rfl, rfl⟩ | ⟨-, hsame⟩
    · exact .worked rfl hw he rfl
    · exact .still (by simp) hsame
  | settle hw he =>
    rcases getElem?_set_cases hw' with ⟨rfl, rfl⟩ | ⟨hne, hsame⟩
    · exact .settled rfl hw he rfl
    · refine .still ?_ hsame
      rintro _ ⟨⟩
      exact hne rfl
  | process hw =>
    rcases getElem?_set_cases hw' with ⟨rfl, rfl⟩ | ⟨-, hsame⟩
    · exact .registered rfl hw rfl
    · exact .still (by simp) hsame
  | crashWorker hw =>
    rcases getElem?_set_cases hw' with ⟨rfl, rfl⟩ | ⟨-, hsame⟩
    · exact .died rfl
    · exact .still (by simp) hsame
  | _ => exact .still (by simp) hw'

/-- A scheduler pass goes on, begins, or is lost; the others stay where they are. -/
theorem mem_schedulers_step (hs : step env s a = some s') {pc' : SchedulerPc}
    (h : pc' ∈ s'.schedulers) :
    pc' ∈ s.otherSchedulers a ∨ pc' = .idle ∨
      ∃ i pc, a = .schedule i ∧ s.schedulers[i]? = some pc ∧
        pc' = (schedulerStep env s.clock s.store pc).pc := by
  cases stepped hs with
  | schedule hi => exact (mem_eraseIdx_or_eq_of_mem_set h).imp_right fun h => .inr ⟨_, _, rfl, hi, h⟩
  | crashScheduler =>
    exact (List.mem_or_eq_of_mem_set h).imp_right .inl
  | _ => exact .inl h

/-- A watchdog pass goes on, begins, or is lost; the others stay where they are. -/
theorem mem_watchdogs_step (hs : step env s a = some s') {pc' : WatchdogPc}
    (h : pc' ∈ s'.watchdogs) :
    pc' ∈ s.otherWatchdogs a ∨ pc' = .idle ∨
      ∃ i pc, a = .watch i ∧ s.watchdogs[i]? = some pc ∧
        pc' = (watchdogStep env s.clock s.store pc).pc := by
  cases stepped hs with
  | watch hi => exact (mem_eraseIdx_or_eq_of_mem_set h).imp_right fun h => .inr ⟨_, _, rfl, hi, h⟩
  | crashWatchdog =>
    exact (List.mem_or_eq_of_mem_set h).imp_right .inl
  | _ => exact .inl h

end Frames

end DistriSys
