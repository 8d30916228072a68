import DistriSys.Protocol.Idempotency
import DistriSys.Transition.Fifo

/-!
# First in, first out

Everybody pushes at the left end of a waiting list, workers pop at its right end, and
nobody removes anything from the middle. So each waiting list is a queue: the pushes
of jobs of its priority and the pops that yielded them, in the order in which Redis
carried them out, are a history of a queue that ends with what is on the list now.

- `InLine` is the invariant; `InLine.carryOut` reduces it to the operations of one step;
- **`waiting_lists_fifo`**: it holds in every run, whoever dies and however the passes
  overlap, copies of a job included.

The operations of a queue are read off the log (`Event.operation?`), and which queue a push or a
pop belongs to off the calls: it is the priority the job was asked for with (`Asked`). That the
code pushes it there is part of the invariant, since the scheduler, the watchdog and the retry
route take the priority from the record, which is that of the call (`Integrity`).
-/

namespace DistriSys

open Js Redis Transition

variable {T : Type}

/-- What an event does to a waiting list. -/
def Event.operation? : Event → Option (QueueOp JobId)
  | pushed id => some (.put id)
  | released id => some (.put id)
  | requeued id => some (.put id)
  | retried id => some (.put id)
  | dequeued id => some (.take id)
  | _ => none

/-- The job was enqueued with this priority. -/
abbrev Asked (calls : List (Call T)) (p : JobPriority) : JobId → Prop :=
  Called calls fun c => c.request.priority = p

/-- The operations on jobs of this priority among some events. -/
def operationsOf (calls : List (Call T)) (p : JobPriority) (events : List Event) :
    List (QueueOp JobId) :=
  (events.filterMap Event.operation?).filter fun op => decide (Asked calls p op.item)

/-- The operations on the waiting list of this priority, in the order of the run. -/
def Config.operations (s : Config T) (p : JobPriority) : List (QueueOp JobId) :=
  operationsOf s.calls p s.log

section Operations

variable {calls : List (Call T)} {p : JobPriority} {events : List Event}

theorem operationsOf_append (events' : List Event) :
    operationsOf calls p (events ++ events') =
      operationsOf calls p events ++ operationsOf calls p events' := by
  rw [operationsOf, List.filterMap_append, List.filter_append]
  rfl

theorem operationsOf_eq_nil (h : ∀ event ∈ events, event.operation? = none) :
    operationsOf calls p events = [] := by
  rw [operationsOf, List.filterMap_eq_nil_iff.mpr h, List.filter_nil]

theorem operationsOf_calls (calls' : List (Call T))
    (hnodup : ((calls ++ calls').map Call.id).Nodup)
    (hknown : ∀ event ∈ events, ∀ op, event.operation? = some op → op.item ∈ calls.map Call.id) :
    operationsOf (calls ++ calls') p events = operationsOf calls p events := by
  refine List.filter_congr fun op hop => ?_
  obtain ⟨event, hevent, hop⟩ := List.mem_filterMap.mp hop
  rw [decide_eq_decide]
  exact called_append hnodup (hknown event hevent op hop)

end Operations

/-! ## The invariant -/

/-- Each waiting list holds what its history leaves in line. -/
structure InLine (env : Env T) (s : Config T) : Prop where
  /-- The operations are about jobs somebody has enqueued. -/
  known : ∀ event ∈ s.log, ∀ op, event.operation? = some op → op.item ∈ s.calls.map Call.id
  history : ∀ p : JobPriority, runQueue [] (s.operations p) =
    some (s.store.queued (.waitingList env.queueName p.name))

section Steps

variable {env : Env T} {s s' : Config T} {events : List Event} {st : Store}

theorem inLine_init (env : Env T) (topology : Topology) : InLine env (init topology : Config T) where
  known _ h := absurd h List.not_mem_nil
  history _ := rfl

/-- **One step**: the operations of its events take each line from what it was to
what it is. -/
theorem InLine.carryOut (h : InLine env s) (hcalls : s'.calls = s.calls)
    (hlog : s'.log = s.log ++ events)
    (hknown : ∀ event ∈ events, ∀ op, event.operation? = some op → op.item ∈ s.calls.map Call.id)
    (hlines : ∀ p : JobPriority,
      runQueue (s.store.queued (.waitingList env.queueName p.name)) (operationsOf s.calls p events) =
        some (s'.store.queued (.waitingList env.queueName p.name))) : InLine env s' where
  known event hevent op hop := by
    rw [hcalls]
    rw [hlog] at hevent
    rcases List.mem_append.mp hevent with hevent | hevent
    · exact h.known event hevent op hop
    · exact hknown event hevent op hop
  history p := by
    rw [Config.operations, hcalls, hlog, operationsOf_append]
    exact (runQueue_append (h.history p)).trans (hlines p)

/-- A step that no line notices. -/
theorem InLine.keep (h : InLine env s) (hcalls : s'.calls = s.calls)
    (hlog : s'.log = s.log ++ events) (hevents : ∀ event ∈ events, event.operation? = none)
    (hlists : ∀ priority, s'.store.lists (.waitingList env.queueName priority) =
      s.store.lists (.waitingList env.queueName priority)) : InLine env s' := by
  refine h.carryOut hcalls hlog ?_ fun p => ?_
  · intro event hevent op hop
    rw [hevents event hevent] at hop
    cases hop
  · rw [operationsOf_eq_nil hevents, runQueue_nil, Store.queued, Store.queued, hlists]

/-- A push of an enqueued job on the waiting list of its priority. -/
theorem InLine.put (h : InLine env s) (hnodup : (s.calls.map Call.id).Nodup) {c : Call T}
    (hc : c ∈ s.calls) (hcalls : s'.calls = s.calls) (hlog : s'.log = s.log ++ events)
    (hevents : events.filterMap Event.operation? = [.put c.id])
    (hlists : ∀ priority, s'.store.lists (.waitingList env.queueName priority) =
      (s.store.lpush (.waitingList env.queueName c.request.priority.name) c.id).lists
        (.waitingList env.queueName priority)) : InLine env s' := by
  have hop : ∀ event ∈ events, ∀ op, event.operation? = some op → op = .put c.id := by
    intro event hevent op hop
    have hmem : op ∈ events.filterMap Event.operation? := List.mem_filterMap.mpr ⟨event, hevent, hop⟩
    rw [hevents] at hmem
    exact List.mem_singleton.mp hmem
  refine h.carryOut hcalls hlog ?_ fun p => ?_
  · intro event hevent op hop'
    rw [hop event hevent op hop']
    exact List.mem_map_of_mem hc
  · have hqueued : s'.store.queued (.waitingList env.queueName p.name) =
        (s.store.lpush (.waitingList env.queueName c.request.priority.name) c.id).queued
          (.waitingList env.queueName p.name) := congrArg List.reverse (hlists p.name)
    rw [hqueued, Store.queued_lpush, operationsOf, hevents]
    -- the push is an operation of one of the three queues
    by_cases hp : c.request.priority = p
    · have hasked : Asked s.calls p c.id := (called_iff hnodup hc).mpr hp
      simp [hp, hasked, QueueOp.item, QueueOp.run]
    · have hasked : ¬ Asked s.calls p c.id := fun hasked => hp ((called_iff hnodup hc).mp hasked)
      simp [hp, hasked, QueueOp.item]

/-- The record of a job somebody has enqueued carries its priority. -/
theorem InLine.mem_line (h : InLine env s) {p : JobPriority} {id : JobId}
    (hid : id ∈ s.store.queued (.waitingList env.queueName p.name)) : Asked s.calls p id := by
  have hputs := puts_of_runQueue (h.history p)
  have hmem : id ∈ (s.operations p).filterMap QueueOp.put? := by
    rw [List.nil_append] at hputs
    rw [hputs]
    exact List.mem_append_right _ hid
  obtain ⟨op, hop, hput⟩ := List.mem_filterMap.mp hmem
  have hasked := of_decide_eq_true (List.mem_filter.mp hop).2
  cases op with
  | put a =>
    cases hput
    exact hasked
  | take a => cases hput

/-- A pop yields the first in line. -/
theorem InLine.take (h : InLine env s) (hnodup : (s.calls.map Call.id).Nodup) {p : JobPriority}
    {id : JobId}
    (hpop : s.store.rpoplpush (.waitingList env.queueName p.name)
      (.processingList env.queueName) = some (id, st))
    (hcalls : s'.calls = s.calls) (hlog : s'.log = s.log ++ [.dequeued id]) (hst : s'.store = st) :
    InLine env s' := by
  obtain ⟨hfirst, -, hothers⟩ := Store.queued_rpoplpush (by simp) hpop
  -- what is in line was asked for with this priority
  have hasked : Asked s.calls p id := h.mem_line (hfirst ▸ List.mem_cons_self)
  obtain ⟨c, hc, rfl, hp⟩ := hasked
  refine h.carryOut hcalls hlog ?_ fun q => ?_
  · intro event hevent op hop
    obtain rfl := List.mem_singleton.mp hevent
    cases hop
    exact List.mem_map_of_mem hc
  · have hops : operationsOf s.calls q [.dequeued c.id] =
        if Asked s.calls q c.id then [.take c.id] else [] := by
      by_cases hq : Asked s.calls q c.id <;> simp [operationsOf, Event.operation?, QueueOp.item, hq]
    rw [hops, hst]
    -- the pop is an operation of the queue it was asked for, and of no other
    by_cases hq : c.request.priority = q
    · obtain rfl : p = q := hp.symm.trans hq
      rw [if_pos ((called_iff hnodup hc).mpr hq), hfirst, runQueue_cons, run_take]
      rfl
    · rw [if_neg fun hasked => hq ((called_iff hnodup hc).mp hasked), runQueue_nil,
        hothers _ (by simp [← hp, Ne.symm hq]) (by simp)]

/-- A worker's command other than a pop leaves the lines alone. -/
theorem workerStep_keeps_lines {now w draw : Nat} {handlers : List String} {pc : WorkerPc T}
    {e : Effect (WorkerPc T)} (hpoll : ∀ p, pc ≠ .poll p)
    (he : workerStep env now w draw handlers st pc = some e) :
    (∀ event ∈ e.events, event.operation? = none) ∧
      ∀ priority, e.store.lists (.waitingList env.queueName priority) =
        st.lists (.waitingList env.queueName priority) := by
  cases pc with
  | poll p => exact absurd rfl (hpoll p)
  | fetch jobId =>
    simp only [workerStep] at he
    split at he
    · cases he
      simp
    · split at he <;> cases he <;> simp
  | running => cases he
  | crashed => cases he
  | _ =>
    cases he
    simp [Event.operation?]

/-- A producer pushes when it publishes its job. -/
theorem InLine.produce (h : InLine env s) (hI : Integrity env s) {i : Nat}
    (hs : step env s (.produce i) = some s') : InLine env s' := by
  have hnil : ∀ event ∈ ([] : List Event), event.operation? = none := nofun
  have hsame : s.log = s.log ++ [] := (List.append_nil _).symm
  cases produced_of_step hI hs with
  | saved hc hi => exact h.keep rfl hsame hnil fun _ => rfl
  | @claimed c key hc hkey hi hslot =>
    refine h.put hI.calls_nodup hc rfl rfl rfl fun priority => ?_
    simp only [Store.idempotentEnqueue, hslot]
    rfl
  | beaten hc hkey hi hslot => exact h.keep rfl hsame hnil fun _ => rfl
  | published hc hkey hi => exact h.put hI.calls_nodup hc rfl rfl rfl fun _ => rfl
  | discarded hc hi => exact h.keep rfl rfl (by simp [Event.operation?]) fun _ => rfl

/-- **Every step carries out operations of queues.** -/
theorem inLine_step {a : Action T} (h : InLine env s) (hI : Integrity env s)
    (hs : step env s a = some s') : InLine env s' := by
  have hnil : ∀ event ∈ ([] : List Event), event.operation? = none := nofun
  have hsame : s.log = s.log ++ [] := (List.append_nil _).symm
  have hnodup := hI.calls_nodup
  cases stepped hs with
  | tick => exact h.keep rfl hsame hnil fun _ => rfl
  | @enqueue i id call hi hid =>
    have hI' := integrity_step hI hs
    refine ⟨fun event hevent op hop => ?_, fun p => ?_⟩
    · rw [List.map_append]
      exact List.mem_append_left _ (h.known event hevent op hop)
    · show runQueue [] (operationsOf (s.calls ++ _) p s.log) = _
      -- a new call does not change what the earlier operations were
      rw [operationsOf_calls _ hI'.calls_nodup h.known]
      exact h.history p
  | produce => exact h.produce hI hs
  | @work w draw wk e hw he =>
    obtain ⟨handlers, pc⟩ := wk
    by_cases hpoll : ∃ p, pc = .poll p
    · obtain ⟨p, rfl⟩ := hpoll
      simp only [workerStep] at he
      split at he
      · next jobId st' hpop =>
        cases he
        exact h.take hnodup hpop rfl rfl rfl
      · cases he
        exact h.keep rfl rfl hnil fun _ => rfl
    · push Not at hpoll
      obtain ⟨hevents, hlists⟩ := workerStep_keeps_lines hpoll he
      exact h.keep rfl rfl hevents hlists
  | @settle w outcome wk pc events hw he =>
    refine h.keep rfl rfl ?_ fun _ => rfl
    obtain ⟨handlers, pc₀⟩ := wk
    cases pc₀ with
    | running => cases outcome <;> cases he <;> simp [Event.operation?]
    | _ => cases he
  | renew => exact h.keep rfl hsame hnil fun _ => rfl
  | process => exact h.keep rfl hsame hnil fun _ => rfl
  | @schedule i pc hi =>
    have hfine := hI.schedulers pc (List.mem_of_getElem? hi)
    cases pc with
    | move jobId priority rest =>
      -- the priority it has read is the one asked for
      obtain ⟨c, hc, rfl, rfl⟩ := hfine.priority jobId priority rest rfl
      exact h.put hnodup hc rfl rfl rfl fun _ => rfl
    | _ => exact h.keep rfl rfl hnil fun _ => rfl
  | @watch i pc hi =>
    have hfine := hI.watchdogs pc (List.mem_of_getElem? hi)
    cases pc with
    | requeue jobId jobHash rest =>
      -- so is the one in the record
      obtain ⟨c, hc, rfl, hd⟩ := hfine.record jobId jobHash rest rfl
      refine h.put hnodup hc rfl rfl ?_ fun priority => ?_
      · simp [watchdogStep, hd.isEmpty, Event.operation?]
      · simp [watchdogStep, requeueTransaction, hd.isEmpty, hd.priority, Function.update_apply]
    | _ => exact h.keep rfl rfl hnil fun _ => rfl
  | request => exact h.keep rfl hsame hnil fun _ => rfl
  | @respond i pc e hi he =>
    have hfine := hI.retries pc (List.mem_of_getElem? hi)
    cases pc with
    | idle => cases he
    | requeue id priority =>
      obtain ⟨c, hc, rfl, rfl⟩ := hfine.priority id priority rfl
      cases he
      refine h.put hnodup hc rfl rfl rfl fun priority => ?_
      simp [Function.update_apply]
  | crashProducer => exact h.keep rfl hsame hnil fun _ => rfl
  | crashWorker => exact h.keep rfl hsame hnil fun _ => rfl
  | crashScheduler => exact h.keep rfl hsame hnil fun _ => rfl
  | crashWatchdog => exact h.keep rfl hsame hnil fun _ => rfl
  | crashRetry => exact h.keep rfl hsame hnil fun _ => rfl

end Steps

/-! ## Runs -/

/-- **First in, first out.** In every run, the pushes and pops of each waiting list are
a history of a queue that leaves what is on the list. -/
theorem waiting_lists_fifo {env : Env T} {topology : Topology} {s : Config T}
    (h : Reach (step env) (fun _ _ => True) (init topology) s) (p : JobPriority) :
    runQueue [] (s.operations p) = some (s.store.queued (.waitingList env.queueName p.name)) ∧
      (s.operations p).filterMap QueueOp.put? =
        (s.operations p).filterMap QueueOp.take? ++
          s.store.queued (.waitingList env.queueName p.name) := by
  have hline : InLine env s := h.invariant' (inLine_init env topology)
    fun _ _ _ hr hline _ hs => inLine_step hline (integrity_run hr) hs
  have hrun := hline.history p
  exact ⟨hrun, by simpa using puts_of_runQueue hrun⟩

/-- A job comes back behind the one it was ahead of, after its worker has died. -/
theorem waiting_lists_fifo_requeued : ∃ s : Config Unit,
    s.operations .normal = [.put "a", .put "b", .take "a", .put "a"] ∧
      runQueue [] (s.operations .normal) =
        some (s.store.queued (.waitingList "main_queue" "normal")) := by
  obtain ⟨s, hs, hops⟩ := exists_reach_of_run (step mainQueue) (fun _ _ => True)
    (init ⟨1, [["mail"]], 0, 1, 0⟩)
    (fun s => s.operations .normal = [.put "a", .put "b", .take "a", .put "a"])
    [.enqueue 0 "a" (.core "mail" () .absent none), .produce 0, .produce 0,
      .enqueue 0 "b" (.core "mail" () .absent none), .produce 0, .produce 0,
      .work 0 0, .work 0 0, .crash (.worker 0),
      .watch 0, .watch 0, .watch 0, .watch 0, .watch 0]
    (by decide +kernel)
  exact ⟨s, hops, (waiting_lists_fifo hs .normal).1⟩

end DistriSys
