import DistriSys.Core.ProcessJob
import DistriSys.Protocol.Operations
import DistriSys.Protocol.Priority

/-!
# Draining the waiting lists

One worker loop that nobody disturbs empties the waiting lists. What it has started so
far, the job it has in hand and what is still waiting are, in this order, what was
waiting at the beginning (`Draining`): high jobs first, in each list the oldest first. A
measure (`toDo`) counts down with every command and every settlement, so the lists do
get empty. **`drains_in_order`** puts the two together, for all handler outcomes.

- `WorkerPc.Ready`: nothing keeps the call the worker is in from its handler;
- `Draining.workerStep`, `Draining.settleStep`: a step of the worker keeps the order;
- `WorkerPc.Ready.exists_step`: the worker is never stuck, except in its handler;
- `drainingAt_step`: the same for a state of the system.

Job ids are not empty (they are uuids), so `if (jobId)` in the loop asks whether a list had one.
-/

namespace DistriSys

open Js Redis Transition

variable {T : Type}

/-! ## The order -/

/-- The ids waiting in a queue: high ones first, in each list the oldest first. -/
def Store.drainOrder (st : Store) (queue : QueueName) : List JobId :=
  priorities.flatMap fun p => st.queued (.waitingList queue p.name)

/-- The ids in the order in which handlers were called with them. -/
def startedIds (log : List Event) : List JobId :=
  log.filterMap fun
    | .started id _ => some id
    | _ => none

/-- The id a worker has taken without having called the handler yet. -/
def WorkerPc.taken : WorkerPc T → List JobId
  | fetch jobId => [jobId]
  | markActive jobId _ => [jobId]
  | register jobId _ _ => [jobId]
  | beat jobId _ => [jobId]
  | _ => []

/-- What has to be true of the call a worker is in so that it gets to its handler. -/
def WorkerPc.Ready (handlers : List String) (st₀ st : Store) : WorkerPc T → Prop
  | fetch jobId => st.jobs jobId = st₀.jobs jobId
  | markActive _ job => hasHandler handlers job = true
  | markFailed _ => False
  | crashed => False
  | _ => True

/-- The worker has got as far as calling the handler with `started`, one after the
other, since the store was `st₀`. -/
structure Draining (env : Env T) (handlers : List String) (st₀ : Store) (pc : WorkerPc T)
    (st : Store) (started : List JobId) : Prop where
  order : st₀.drainOrder env.queueName = started ++ pc.taken ++ st.drainOrder env.queueName
  processing : st.lists (.processingList env.queueName) =
    pc.jobId?.toList ++ st₀.lists (.processingList env.queueName)
  records : ∀ id ∈ st.drainOrder env.queueName, st.jobs id = st₀.jobs id
  probed : ∀ p ∈ pc.probed, st.queued (.waitingList env.queueName p.name) = []
  /-- The job in hand was one of those waiting. -/
  held : ∀ id, pc.jobId? = some id → id ∈ started ++ pc.taken
  ready : pc.Ready handlers st₀ st

/-- A bound on the commands and settlements of a call, and on the polls before it. -/
def WorkerPc.toGo : WorkerPc T → Nat
  | poll .high => 3
  | poll .normal => 2
  | poll .low => 1
  | fetch _ => 12
  | markActive _ _ => 11
  | register _ _ _ => 10
  | beat _ _ => 9
  | running _ _ _ => 8
  | countFailure _ _ => 7
  | writeDelayed _ _ _ => 6
  | writeDead _ _ => 6
  | zaddDelayed _ _ => 5
  | lpushDead _ => 5
  | complete _ _ => 5
  | cleanup _ => 4
  | markFailed _ => 0
  | crashed => 0

/-- A bound on what the worker has still to do: nothing, if it polls empty lists. -/
def toDo (queue : QueueName) (pc : WorkerPc T) (st : Store) : Nat :=
  if pc.jobId? = none ∧ st.drainOrder queue = [] then 0
  else 16 * (st.drainOrder queue).length + pc.toGo

/-! ## One step -/

section Step

variable {env : Env T} {handlers : List String} {st₀ st st' : Store} {pc pc' : WorkerPc T}
  {started : List JobId} {events : List Event} {now w draw : Nat} {id : JobId}

/-- A command of the call the worker is in: the waiting lists are left alone, and of
the records only that of its job is written. -/
theorem Draining.goOn (hdistinct : (st₀.drainOrder env.queueName).Nodup)
    (h : Draining env handlers st₀ pc st started) (hid : pc.jobId? = some id)
    (hid' : pc'.jobId? = some id)
    (hwaiting : ∀ p : JobPriority, st'.lists (.waitingList env.queueName p.name) =
      st.lists (.waitingList env.queueName p.name))
    (hprocessing : st'.lists (.processingList env.queueName) =
      st.lists (.processingList env.queueName))
    (hjobs : ∀ j ≠ id, st'.jobs j = st.jobs j)
    (htaken : startedIds events ++ pc'.taken = pc.taken) (hprobed : pc'.probed = [])
    (hready : pc'.Ready handlers st₀ st') (htoGo : pc'.toGo < pc.toGo) :
    Draining env handlers st₀ pc' st' (started ++ startedIds events) ∧
      toDo env.queueName pc' st' ≤ toDo env.queueName pc st - 1 := by
  have horder : st'.drainOrder env.queueName = st.drainOrder env.queueName := by
    simp only [Store.drainOrder, Store.queued, hwaiting]
  constructor
  · constructor
    case order => rw [horder, List.append_assoc started, htaken, h.order]
    case processing => rw [hprocessing, hid', h.processing, hid]
    case records =>
      rw [horder]
      intro j hj
      rw [← h.records j hj]
      apply hjobs
      rintro rfl
      -- the job in hand is waiting no longer
      exact List.disjoint_of_nodup_append (h.order ▸ hdistinct) (h.held j hid) hj
    case probed => simp [hprobed]
    case held =>
      intro j hj
      rw [List.append_assoc, htaken]
      exact h.held j (hid.trans (hid'.symm.trans hj))
    case ready => exact hready
  · simp only [toDo, hid, hid', horder, reduceCtorEq, false_and, if_false]
    omega

/-- With nothing waiting above it, the first in line of a list is the first of all. -/
theorem Store.drainOrder_rpoplpush {queue : QueueName} {p : JobPriority}
    (habove : ∀ q ∈ p.above, st.queued (.waitingList queue q.name) = [])
    (hpop : st.rpoplpush (.waitingList queue p.name) (.processingList queue) = some (id, st')) :
    st.drainOrder queue = id :: st'.drainOrder queue := by
  have hne : ListKey.waitingList queue p.name ≠ .processingList queue := by simp
  obtain ⟨hfirst, -, hothers⟩ := Store.queued_rpoplpush hne hpop
  have hothers' : ∀ q ≠ p, st'.queued (.waitingList queue q.name) =
      st.queued (.waitingList queue q.name) := by
    intro q hq
    exact hothers _ (by simp [hq]) (by simp)
  cases p with
  | high => simp [drainOrder, priorities, hfirst, hothers']
  | normal =>
    have hhigh := habove .high (by decide)
    simp [drainOrder, priorities, hfirst, hothers', hhigh]
  | low =>
    have hhigh := habove .high (by decide)
    have hnormal := habove .normal (by decide)
    simp [drainOrder, priorities, hfirst, hothers', hhigh, hnormal]

/-- A poll that takes a job takes the first in the order. -/
theorem Draining.take {p : JobPriority} (h : Draining env handlers st₀ (.poll p) st started)
    (hpop : st.rpoplpush (.waitingList env.queueName p.name) (.processingList env.queueName) =
      some (id, st')) :
    Draining env handlers st₀ (.fetch id) st' started ∧
      toDo env.queueName (.fetch id : WorkerPc T) st' ≤
        toDo env.queueName (.poll p : WorkerPc T) st - 1 := by
  have hne : ListKey.waitingList env.queueName p.name ≠ .processingList env.queueName := by simp
  have hmoved := (Store.queued_rpoplpush hne hpop).2.1
  -- the lists above were probed empty, so this is the head of the order
  have hfirst := Store.drainOrder_rpoplpush h.probed hpop
  have hjobs := Store.jobs_rpoplpush hpop
  constructor
  · constructor
    case order => simp [h.order, hfirst, WorkerPc.taken]
    case processing =>
      rw [hmoved, h.processing]
      rfl
    case records =>
      intro j hj
      rw [hjobs]
      exact h.records j (hfirst ▸ List.mem_cons_of_mem id hj)
    case probed => simp [WorkerPc.probed]
    case held =>
      rintro j ⟨⟩
      simp [WorkerPc.taken]
    case ready =>
      show st'.jobs id = st₀.jobs id
      rw [hjobs]
      exact h.records id (hfirst ▸ List.mem_cons_self)
  · simp only [toDo, hfirst, WorkerPc.jobId?, reduceCtorEq, and_false, false_and, if_false,
      List.length_cons, WorkerPc.toGo]
    omega

/-- A poll that finds nothing goes on with the next list; after the last, nothing is left. -/
theorem Draining.skip {p : JobPriority} (h : Draining env handlers st₀ (.poll p) st started)
    (hnone : st.lists (.waitingList env.queueName p.name) = []) :
    Draining env handlers st₀ (.poll p.next) st started ∧
      toDo env.queueName (.poll p.next : WorkerPc T) st ≤
        toDo env.queueName (.poll p : WorkerPc T) st - 1 := by
  have hprobed : ∀ q ∈ p.above, st.queued (.waitingList env.queueName q.name) = [] := h.probed
  have hnone : st.queued (.waitingList env.queueName p.name) = [] :=
    List.reverse_eq_nil_iff.mpr hnone
  constructor
  · constructor
    case order => exact h.order
    case processing => exact h.processing
    case records => exact h.records
    case probed =>
      intro q hq
      rcases JobPriority.above_next hq with hq | rfl
      · exact hprobed q hq
      · exact hnone
    case held => simp [WorkerPc.jobId?]
    case ready => trivial
  · by_cases hempty : st.drainOrder env.queueName = []
    · simp [toDo, hempty, WorkerPc.jobId?]
    · simp only [toDo, hempty, and_false, if_false]
      -- a list fewer to probe; after `low`, all three have been
      cases p with
      | high =>
        simp only [WorkerPc.toGo, JobPriority.next]
        omega
      | normal =>
        simp only [WorkerPc.toGo, JobPriority.next]
        omega
      | low =>
        refine absurd ?_ hempty
        have hhigh := hprobed .high (by decide)
        have hnormal := hprobed .normal (by decide)
        simp [Store.drainOrder, priorities, hhigh, hnormal, hnone]

/-- The clean-up gives back what the poll has put on the processing list. -/
theorem Draining.cleanup {e : Effect (WorkerPc T)}
    (h : Draining env handlers st₀ (.cleanup id) st started)
    (he : workerStep env now w draw handlers st (.cleanup id) = some e) :
    Draining env handlers st₀ e.pc e.store (started ++ startedIds e.events) ∧
      toDo env.queueName e.pc e.store ≤ toDo env.queueName (.cleanup id : WorkerPc T) st - 1 := by
  cases he
  have horder : ((((st.hdelActive env.queueName id).delHeartbeat id).lrem
      (.processingList env.queueName) 1 id)).drainOrder env.queueName =
        st.drainOrder env.queueName := by
    simp [Store.drainOrder, Store.queued]
  constructor
  · constructor
    case order =>
      rw [horder, h.order]
      simp [startedIds, WorkerPc.taken]
    case processing =>
      have hprocessing := h.processing
      -- the newest copy goes, which is the one the poll has put there
      simp [hprocessing, lrem_one, WorkerPc.jobId?]
    case records =>
      rw [horder]
      exact h.records
    case probed => simp [WorkerPc.probed, JobPriority.above, priorities]
    case held => simp [WorkerPc.jobId?]
    case ready => trivial
  · simp only [toDo, horder, WorkerPc.jobId?, WorkerPc.toGo, true_and, reduceCtorEq, false_and,
      if_false]
    split <;> omega

/-- Every command of the worker counts. -/
theorem Draining.workerStep {e : Effect (WorkerPc T)}
    (hdistinct : (st₀.drainOrder env.queueName).Nodup)
    (hrunnable : ∀ id ∈ st₀.drainOrder env.queueName,
      ∃ job, Runnable env handlers (st₀.jobs id) job)
    (h : Draining env handlers st₀ pc st started)
    (he : DistriSys.workerStep env now w draw handlers st pc = some e) :
    Draining env handlers st₀ e.pc e.store (started ++ startedIds e.events) ∧
      toDo env.queueName e.pc e.store ≤ toDo env.queueName pc st - 1 := by
  cases pc with
  | poll p =>
    simp only [DistriSys.workerStep] at he
    split at he
    · next id st' hpop =>
      cases he
      simpa [startedIds] using h.take hpop
    · next hpop =>
      cases he
      simpa [startedIds] using h.skip (Store.lists_eq_nil_of_rpoplpush hpop)
  | fetch jobId =>
    -- it came from the drain order, so there is a job to run
    have hwaited : jobId ∈ st₀.drainOrder env.queueName := by
      rw [h.order]
      exact List.mem_append_left _ (h.held jobId rfl)
    obtain ⟨job, hjob⟩ := hrunnable jobId hwaited
    have hrecord : st.jobs jobId = st₀.jobs jobId := h.ready
    simp only [DistriSys.workerStep, hrecord, isEmpty_of_deserializeJob hjob.decoded, hjob.decoded,
      Bool.false_eq_true, if_false] at he
    cases he
    exact h.goOn hdistinct rfl rfl (fun _ => rfl) rfl (fun _ _ => rfl) rfl rfl hjob.handler
      (Nat.lt_add_one _)
  | markActive jobId job =>
    have hhandler : hasHandler handlers job = true := h.ready
    simp only [DistriSys.workerStep, hhandler, if_true] at he
    cases he
    exact h.goOn hdistinct rfl rfl (fun _ => rfl) rfl (fun j hj => by simp [hj]) rfl rfl trivial
      (Nat.lt_add_one _)
  | markFailed jobId => exact h.ready.elim
  | register jobId job startedAt =>
    cases he
    exact h.goOn hdistinct rfl rfl (fun _ => rfl) rfl (fun _ _ => rfl) rfl rfl trivial
      (Nat.lt_add_one _)
  | beat jobId job =>
    cases he
    exact h.goOn hdistinct rfl rfl (fun _ => rfl) rfl (fun _ _ => rfl) rfl rfl trivial
      (Nat.lt_add_one _)
  | running jobId job startTime => cases he
  | complete jobId elapsed =>
    cases he
    exact h.goOn hdistinct rfl rfl (fun _ => rfl) rfl (fun j hj => by simp [hj]) rfl rfl trivial
      (Nat.lt_add_one _)
  | countFailure jobId job =>
    cases he
    -- a failed job is filed elsewhere, out of the drain order
    dsimp only [retryOrBury]
    split
    · exact h.goOn hdistinct rfl rfl (fun _ => rfl) rfl (fun _ _ => rfl) rfl rfl trivial
        (Nat.lt_add_one _)
    · exact h.goOn hdistinct rfl rfl (fun _ => rfl) rfl (fun _ _ => rfl) rfl rfl trivial
        (Nat.lt_add_one _)
  | writeDelayed jobId nextAttempt delay =>
    cases he
    exact h.goOn hdistinct rfl rfl (fun _ => rfl) rfl (fun j hj => by simp [hj]) rfl rfl trivial
      (Nat.lt_add_one _)
  | writeDead jobId nextAttempt =>
    cases he
    exact h.goOn hdistinct rfl rfl (fun _ => rfl) rfl (fun j hj => by simp [hj]) rfl rfl trivial
      (Nat.lt_add_one _)
  | zaddDelayed jobId score =>
    cases he
    exact h.goOn hdistinct rfl rfl (fun _ => rfl) rfl (fun _ _ => rfl) rfl rfl trivial
      (Nat.lt_add_one _)
  | lpushDead jobId =>
    cases he
    exact h.goOn hdistinct rfl rfl (fun _ => by simp) (by simp) (fun _ _ => rfl) rfl rfl trivial
      (Nat.lt_add_one _)
  | cleanup jobId => exact h.cleanup he
  | crashed => exact h.ready.elim

/-- So does the end of a handler call, however it ends. -/
theorem Draining.settleStep {outcome : HandlerOutcome}
    (hdistinct : (st₀.drainOrder env.queueName).Nodup)
    (h : Draining env handlers st₀ pc st started)
    (he : DistriSys.settleStep now outcome pc = some (pc', events)) :
    Draining env handlers st₀ pc' st (started ++ startedIds events) ∧
      toDo env.queueName pc' st ≤ toDo env.queueName pc st - 1 := by
  cases pc with
  | running jobId job startTime =>
    cases outcome with
    | resolve =>
      cases he
      exact h.goOn hdistinct rfl rfl (fun _ => rfl) rfl (fun _ _ => rfl) rfl rfl trivial
        (by simp [WorkerPc.toGo])
    | reject =>
      cases he
      exact h.goOn hdistinct rfl rfl (fun _ => rfl) rfl (fun _ _ => rfl) rfl rfl trivial
        (Nat.lt_add_one _)
  | _ => cases he

/-- The worker is never stuck: it has a command to run, or waits for a handler. -/
theorem WorkerPc.Ready.exists_step (env : Env T) (now w draw : Nat) (outcome : HandlerOutcome)
    (h : pc.Ready handlers st₀ st) :
    (∃ e, DistriSys.workerStep env now w draw handlers st pc = some e) ∨
      ∃ r, DistriSys.settleStep now outcome pc = some r := by
  cases pc with
  | poll p =>
    simp only [DistriSys.workerStep]
    split <;> exact .inl ⟨_, rfl⟩
  | fetch jobId =>
    simp only [DistriSys.workerStep]
    split
    · exact .inl ⟨_, rfl⟩
    · split <;> exact .inl ⟨_, rfl⟩
  | running jobId job startTime => cases outcome <;> exact .inr ⟨_, rfl⟩
  | crashed => exact h.elim
  | _ => exact .inl ⟨_, rfl⟩

/-- There is always something left to do but when the worker polls empty lists. -/
theorem WorkerPc.Ready.of_toDo_eq_zero (queue : QueueName) (h : pc.Ready handlers st₀ st)
    (hzero : toDo queue pc st = 0) : (∃ p, pc = .poll p) ∧ st.drainOrder queue = [] := by
  have htoGo : 0 < pc.toGo := by
    cases pc with
    | poll p => cases p <;> simp [toGo]
    | markFailed jobId => exact h.elim
    | crashed => exact h.elim
    | _ => simp [toGo]
  unfold toDo at hzero
  split at hzero
  · next hdone =>
    refine ⟨?_, hdone.2⟩
    cases pc with
    | poll p => exact ⟨p, rfl⟩
    | crashed => exact h.elim
    | _ => cases hdone.1
  · omega

/-- A renewal of a heartbeat changes nothing. -/
theorem Draining.setHeartbeat {ttl : Nat} (h : Draining env handlers st₀ pc st started) :
    Draining env handlers st₀ pc (st.setHeartbeat now ttl id) started where
  order := h.order
  processing := h.processing
  records := h.records
  probed := h.probed
  held := h.held
  ready := by
    have hready := h.ready
    cases pc <;> exact hready

end Step

/-! ## Runs -/

/-- The worker moves on: it runs a command, or its handler call ends. -/
def Action.advances (w : Nat) : Action T → Bool
  | .work w' _ => decide (w' = w)
  | .settle w' _ => decide (w' = w)
  | _ => false

/-- What has happened since `s₀`. -/
def Config.since (s s₀ : Config T) : List Event := s.log.drop s₀.log.length

/-- Worker `w` is between two jobs. -/
def Config.Polls (s : Config T) (w : Nat) : Prop :=
  ∃ wk ∈ s.workers[w]?, ∃ p, wk.pc = .poll p

/-- `Draining` in a state of the system. -/
def DrainingAt (env : Env T) (w : Nat) (handlers : List String) (s₀ s : Config T) : Prop :=
  ∃ pc events, s.workers[w]? = some ⟨handlers, pc⟩ ∧ s.log = s₀.log ++ events ∧
    Draining env handlers s₀.store pc s.store (startedIds events)

/-- `toDo` in a state of the system. -/
def Config.toDo (s : Config T) (queue : QueueName) (w : Nat) : Nat :=
  (s.workers[w]?).elim 0 fun wk => DistriSys.toDo queue wk.pc s.store

section Runs

variable {env : Env T} {handlers : List String} {s₀ s s' : Config T} {a : Action T} {w n : Nat}

theorem startedIds_append (log log' : List Event) :
    startedIds (log ++ log') = startedIds log ++ startedIds log' :=
  List.filterMap_append

theorem drainingAt_step (hdistinct : (s₀.store.drainOrder env.queueName).Nodup)
    (hrunnable : ∀ id ∈ s₀.store.drainOrder env.queueName,
      ∃ job, Runnable env handlers (s₀.store.jobs id) job)
    (h : DrainingAt env w handlers s₀ s) (ha : a.ofWorker w) (hs : step env s a = some s') :
    DrainingAt env w handlers s₀ s' ∧
      s'.toDo env.queueName w ≤ s.toDo env.queueName w - if a.advances w then 1 else 0 := by
  obtain ⟨pc, events, hw, hlog, hdraining⟩ := h
  have hlt : w < s.workers.length := (List.getElem?_eq_some_iff.mp hw).1
  -- what both kinds of step of the worker come to
  have hmoved : ∀ {pc' st' events'}, Draining env handlers s₀.store pc' st'
        (startedIds events ++ startedIds events') ∧
      toDo env.queueName pc' st' ≤ toDo env.queueName pc s.store - 1 →
      DrainingAt env w handlers s₀ { s with
          store := st', workers := s.workers.set w ⟨handlers, pc'⟩, log := s.log ++ events' } ∧
        Config.toDo { s with
          store := st', workers := s.workers.set w ⟨handlers, pc'⟩, log := s.log ++ events' }
            env.queueName w ≤ s.toDo env.queueName w - 1 := by
    intro pc' st' events' h
    refine ⟨⟨pc', events ++ events', by simp [hlt], ?_, ?_⟩, ?_⟩
    · rw [hlog, List.append_assoc]
    · rw [startedIds_append]
      exact h.1
    · simp only [Config.toDo, List.getElem?_set_self hlt, hw]
      exact h.2
  cases stepped hs with
  | tick ms => exact ⟨⟨pc, events, hw, hlog, hdraining⟩, le_refl _⟩
  | @work w' draw wk e hw' he =>
    obtain rfl : w' = w := of_decide_eq_true ha
    obtain rfl : (⟨handlers, pc⟩ : Worker T) = wk := Option.some.inj (hw.symm.trans hw')
    simpa [Action.advances] using hmoved (hdraining.workerStep hdistinct hrunnable he)
  | @settle w' outcome wk pc' events' hw' he =>
    obtain rfl : w' = w := of_decide_eq_true ha
    obtain rfl : (⟨handlers, pc⟩ : Worker T) = wk := Option.some.inj (hw.symm.trans hw')
    simpa [Action.advances] using hmoved (hdraining.settleStep hdistinct he)
  -- the timer moves neither the worker nor the measure
  | renew hw' hrenews => exact ⟨⟨pc, events, hw, hlog, hdraining.setHeartbeat⟩, le_refl _⟩
  | _ => cases ha

theorem drainingAt_init (hw : s₀.workers[w]? = some ⟨handlers, .poll .high⟩) :
    DrainingAt env w handlers s₀ s₀ := by
  refine ⟨.poll .high, [], hw, (List.append_nil _).symm, ?_⟩
  constructor
  case order => rfl
  case processing => rfl
  case records => exact fun _ _ => rfl
  case probed => simp [WorkerPc.probed, JobPriority.above, priorities]
  case held => simp [WorkerPc.jobId?]
  case ready => trivial

/-- A worker that is draining can always move on. -/
theorem DrainingAt.exists_advance (h : DrainingAt env w handlers s₀ s) :
    ∃ a s', a.advances w = true ∧ step env s a = some s' := by
  obtain ⟨pc, events, hw, hlog, hdraining⟩ := h
  obtain ⟨e, he⟩ | ⟨⟨pc', events'⟩, he⟩ := hdraining.ready.exists_step env s.clock w 0 .resolve
  · exact ⟨.work w 0, _, by simp [Action.advances], by simp [step, hw, he]; rfl⟩
  · exact ⟨.settle w .resolve, _, by simp [Action.advances], by simp [step, hw, he]; rfl⟩

/-- **One worker drains the waiting lists in order.** While nobody else moves, the
handler calls are a beginning of the drain order; between two jobs the processing list is
what it was, and when the waiting lists are empty then, all jobs have been started, each
once. The worker never gets stuck, and gets there within a bounded number of commands and
settlements, however the handler calls end. -/
theorem drains_in_order (hw : s₀.workers[w]? = some ⟨handlers, .poll .high⟩)
    (hdistinct : (s₀.store.drainOrder env.queueName).Nodup)
    (hrunnable : ∀ id ∈ s₀.store.drainOrder env.queueName,
      ∃ job, Runnable env handlers (s₀.store.jobs id) job) :
    (∀ s, Reach (step env) (fun _ a => a.ofWorker w) s₀ s →
      startedIds (s.since s₀) <+: s₀.store.drainOrder env.queueName ∧
      (s.Polls w → s.store.lists (.processingList env.queueName) =
        s₀.store.lists (.processingList env.queueName)) ∧
      (s.Polls w → s.store.drainOrder env.queueName = [] →
        startedIds (s.since s₀) = s₀.store.drainOrder env.queueName) ∧
      ∃ a s', a.advances w = true ∧ step env s a = some s') ∧
    ∀ n s, ReachIn (step env) (fun _ a => a.ofWorker w) (Action.advances w) s₀ n s →
      16 * (s₀.store.drainOrder env.queueName).length + 3 ≤ n →
        s.Polls w ∧ s.store.drainOrder env.queueName = [] := by
  have hinv : ∀ s, Reach (step env) (fun _ a => a.ofWorker w) s₀ s →
      DrainingAt env w handlers s₀ s := by
    intro s hreach
    exact hreach.invariant (drainingAt_init hw)
      fun _ _ _ h ha hs => (drainingAt_step hdistinct hrunnable h ha hs).1
  constructor
  · intro s hreach
    obtain ⟨pc, events, hw', hlog, hdraining⟩ := hinv s hreach
    have hsince : s.since s₀ = events := by rw [Config.since, hlog, List.drop_left]
    -- what is started, in hand and still waiting is the order
    have horder := hdraining.order
    rw [hsince]
    refine ⟨?_, ?_, ?_, (hinv s hreach).exists_advance⟩
    · rw [horder, List.append_assoc]
      exact List.prefix_append _ _
    · rintro ⟨wk, hwk, p, hpoll⟩
      cases hw'.symm.trans hwk
      cases hpoll
      exact hdraining.processing
    · rintro ⟨wk, hwk, p, hpoll⟩ hempty
      cases hw'.symm.trans hwk
      cases hpoll
      rw [horder, hempty]
      simp [WorkerPc.taken]
  · intro n s hreach hn
    obtain ⟨pc, events, hw', -, hdraining⟩ := hinv s hreach.reach
    -- `toDo` falls with every step that counts
    have hle : s.toDo env.queueName w ≤ s₀.toDo env.queueName w - n :=
      hreach.measure_le (fun s => s.toDo env.queueName w)
        fun _ _ _ hr ha hs => (drainingAt_step hdistinct hrunnable (hinv _ hr) ha hs).2
    have hstart : s₀.toDo env.queueName w ≤
        16 * (s₀.store.drainOrder env.queueName).length + 3 := by
      simp only [Config.toDo, hw, Option.elim, toDo]
      split
      · omega
      · exact le_refl _
    have htoDo : s.toDo env.queueName w = toDo env.queueName pc s.store := by
      simp only [Config.toDo, hw', Option.elim]
    obtain ⟨⟨p, rfl⟩, hempty⟩ := hdraining.ready.of_toDo_eq_zero env.queueName (by omega)
    exact ⟨⟨_, hw', p, rfl⟩, hempty⟩

end Runs

/-- A worker, a normal job, and a high one enqueued after it. -/
def lateHighJob : Config Unit :=
  { init ⟨0, [["mail"]], 0, 0, 0⟩ with
    store := (enqueue mainQueue 0 "b" (.core "mail" () (.options (some .high) none none) none)
      (enqueue mainQueue 0 "a" (.core "mail" () .absent none) .empty).2).2 }

/-- The high job is started first, then the normal one. -/
theorem drains_lateHighJob :
    lateHighJob.store.drainOrder mainQueue.queueName = ["b", "a"] ∧
      ∀ n s, ReachIn (step mainQueue) (fun _ a => a.ofWorker 0) (Action.advances 0) lateHighJob
        n s → 35 ≤ n → startedIds (s.since lateHighJob) = ["b", "a"] := by
  have hw : lateHighJob.workers[0]? = some ⟨["mail"], .poll .high⟩ := rfl
  have horder : lateHighJob.store.drainOrder mainQueue.queueName = ["b", "a"] := by decide +kernel
  have hdistinct : (lateHighJob.store.drainOrder mainQueue.queueName).Nodup := by
    rw [horder]
    decide
  have hrunnable : ∀ id ∈ lateHighJob.store.drainOrder mainQueue.queueName,
      ∃ job, Runnable mainQueue ["mail"] (lateHighJob.store.jobs id) job := by
    rw [horder]
    simp only [List.forall_mem_cons, List.not_mem_nil, false_implies, implies_true, and_true]
    exact ⟨⟨_, rfl, by decide +kernel⟩, ⟨_, rfl, by decide +kernel⟩⟩
  obtain ⟨hsafe, hlive⟩ := drains_in_order hw hdistinct hrunnable
  refine ⟨horder, ?_⟩
  intro n s hreach hn
  obtain ⟨hpolls, hempty⟩ := hlive n s hreach (by rw [horder]; exact hn)
  exact ((hsafe s hreach.reach).2.2.1 hpolls hempty).trans horder

end DistriSys
