import DistriSys.Js.Contracts
import DistriSys.Protocol.Dashboard
import DistriSys.Protocol.Operations
import DistriSys.Protocol.Passes
import DistriSys.Protocol.Priority

/-!
# No job depends on the others

One worker, one scheduler, one watchdog and someone who asks for a retry are a crew
(`Action.ofCrew`). **`completable`**: whatever has happened so far, a crew can complete every
job that is still somewhere, even if nobody else ever moves again.

The job is first brought to a waiting list: by a pass of the scheduler when it is due, by a
pass of the watchdog when the heartbeat has expired, or by the retry request
(`exists_reach_waiting`). From there the worker gets to it turn by turn (`exists_turn`): every
poll brings it nearer to the list, or takes a job that was in front.

- `workerLoop_reach` and its like, from `Protocol.Operations`, bring whole operations into the
  run of a crew;
- `Config.distance` is the measure: the polls to the list of the job, and the jobs before it;
- `exists_reach_completed`: from a waiting list the job gets to its handler and is completed.
-/

namespace DistriSys

open Js Redis Transition

variable {T : Type} {env : Env T}

/-- What the crew does. -/
def Action.ofCrew (w i j k : Nat) (a : Action T) : Prop :=
  a.ofWorker w = true ∨ a = .schedule i ∨ a = .watch j ∨ (∃ id, a = .request k id) ∨ a = .respond k

/-- Where the system keeps a job that is not completed. -/
inductive Store.Outstanding (env : Env T) (st : Store) (id : JobId) : Prop
  | waiting (p : JobPriority) (h : id ∈ st.lists (.waitingList env.queueName p.name))
  | processing (h : id ∈ st.lists (.processingList env.queueName))
  | delayed (h : id ∈ (st.delayed env.queueName).members)
  /-- on the dead list, if anywhere -/
  | givenUp (h : (st.jobs id).status = some JobStatus.dead.name ∨
      (st.jobs id).status = some JobStatus.failed.name)

/-! ## One call -/

section Call

variable {w : Nat} {handlers : List String} {st : Store} {id j : JobId}

/-- A call that succeeds at once, at time `now`. -/
def Circumstances.prompt (now : Nat) : Circumstances where
  rejects _ := false
  now _ := now
  renewals _ := []
  outcome := .resolve
  settledAt := now
  draw := 0

/-- A handler that takes no time needs no renewal. -/
theorem Circumstances.timely_prompt (now : Nat) : (Circumstances.prompt now).Timely now :=
  ⟨le_refl _, le_refl _, le_refl _, le_refl _⟩

/-- A call of `processJob` does not touch the waiting lists. -/
theorem waiting_processJob (c : Circumstances) (p : JobPriority) :
    ((processJob env w handlers c j).after st).lists (.waitingList env.queueName p.name) =
      st.lists (.waitingList env.queueName p.name) := by
  have hissue : ∀ {command : Command} {f : Store → Store},
      (∀ st, (f st).lists (.waitingList env.queueName p.name) =
        st.lists (.waitingList env.queueName p.name)) →
      Async.Keeps (fun st' => st'.lists (.waitingList env.queueName p.name) =
        st.lists (.waitingList env.queueName p.name)) (c.issue command f) :=
    fun hf => .request fun st' h => (hf st').trans h
  have hbeating : ∀ {command : Command} {f : Store → Store},
      (∀ st, (f st).lists (.waitingList env.queueName p.name) =
        st.lists (.waitingList env.queueName p.name)) →
      Async.Keeps (fun st' => st'.lists (.waitingList env.queueName p.name) =
        st.lists (.waitingList env.queueName p.name)) (c.issueBeating env.config j command f) :=
    fun hf => .bind (.modify fun _ h => h) fun _ => hissue hf
  have hfail : ∀ job : Job T, Async.Keeps (fun st' => st'.lists (.waitingList env.queueName p.name) =
      st.lists (.waitingList env.queueName p.name)) (failJob env c j job) := by
    intro job
    refine .bind (hbeating fun _ => rfl) fun _ => ?_
    dsimp only
    split
    · exact .bind (hbeating fun _ => rfl) fun _ => hbeating fun _ => rfl
    · exact .bind (hbeating fun _ => rfl) fun _ => hbeating fun _ => by simp
  have hcall : Async.Keeps (fun st' => st'.lists (.waitingList env.queueName p.name) =
      st.lists (.waitingList env.queueName p.name)) (processJob env w handlers c j) := by
    -- along the text of `processJob`, an `await` at a time
    refine .bind .query fun hash => ?_
    split
    · exact .pure
    · cases deserializeJob env.json hash with
      | error e => exact .throw
      | ok job =>
        refine .bind (hissue fun _ => rfl) fun _ => ?_
        split
        · exact .bind (hissue fun _ => rfl) fun _ => .pure
        · refine .bind (hissue fun _ => rfl) fun _ => .bind (hissue fun _ => rfl) fun _ => ?_
          refine .tryFinally (.tryCatch ?_ fun _ => hfail job) (hbeating fun _ => by simp)
          split
          · exact .bind .throw fun _ => hbeating fun _ => rfl
          · exact hbeating fun _ => rfl
  exact hcall.after rfl

/-- A worker that can run a job completes it. -/
theorem status_processJob {job : Job T} (h : Runnable env handlers (st.jobs id) job) (now : Nat) :
    (((processJob env w handlers (.prompt now) id).after st).jobs id).status =
      some JobStatus.completed.name := by
  rw [after_processJob h]
  simp [Circumstances.prompt, after_runHandler, cleanUp, JobHash.patch]

end Call

/-! ## Records -/

section Records

variable {s : Config T} {c : Call T} {handlers : List String} {h : JobHash}

/-- A record that is there is that of the call. -/
theorem Integrity.describes_of_mem (hI : Integrity env s) (hc : c ∈ s.calls)
    (hpresent : s.store.jobs c.id ≠ .absent) : Describes env.json c (s.store.jobs c.id) := by
  obtain ⟨c', hc', hid, hd⟩ := (hI.records c.id).resolve_left hpresent
  rwa [List.inj_on_of_nodup_map hI.calls_nodup hc' hc hid] at hd

/-- A job the store mentions has its whole record. -/
theorem Integrity.describes_of_mentions (hI : Integrity env s) (hc : c ∈ s.calls)
    (hid : s.store.Mentions c.id) : Describes env.json c (s.store.jobs c.id) :=
  hI.describes_of_mem hc (hI.present c.id (hI.mentioned c.id hid))

/-- And a worker with a handler for its type can run it. -/
theorem Describes.runnable (hd : Describes env.json c h) (hjson : env.json.Lawful)
    (htext : c.Textual env.json) (htype : c.request.type ∈ handlers) :
    ∃ job, Runnable env handlers h job := by
  obtain ⟨job, hjob, -, -⟩ := hd.shows hjson htext
  refine ⟨job, hjob, ?_⟩
  rw [hasHandler, (deserializeJob_eq_ok hjob).1, hd.type]
  exact decide_eq_true htype

end Records

/-! ## The worker gets to the job -/

section Turns

variable {s : Config T} {c : Call T} {w i j k : Nat} {handlers : List String} {p : JobPriority}

/-- How many jobs wait. -/
def Store.backlog (st : Store) (queue : QueueName) : Nat :=
  (priorities.map fun p => (st.lists (.waitingList queue p.name)).length).sum

/-- How many lists are polled before this one. -/
def JobPriority.pollsTo (q p : JobPriority) : Nat :=
  if q = p then 0 else if q.next = p then 1 else 2

/-- The worker polls, and the job of the call waits. -/
structure Chased (env : Env T) (w : Nat) (handlers : List String) (c : Call T) (p : JobPriority)
    (s : Config T) : Prop where
  integrity : Integrity env s
  called : c ∈ s.calls
  polls : ∃ q, s.workers[w]? = some ⟨handlers, .poll q⟩
  waits : c.id ∈ s.store.lists (.waitingList env.queueName p.name)

/-- How far the worker is from the list of the job, and from the job. -/
def Config.distance (s : Config T) (queue : QueueName) (w : Nat) (p : JobPriority) : Nat :=
  3 * s.store.backlog queue +
    (s.workers[w]?).elim 0 fun wk => (wk.pc.polling).elim 0 fun q => q.pollsTo p

/-- A job taken is one less before it. -/
theorem backlog_rpoplpush {queue : QueueName} {q : JobPriority} {st st' : Store} {id : JobId}
    (h : st.rpoplpush (.waitingList queue q.name) (.processingList queue) = some (id, st')) :
    st.backlog queue = st'.backlog queue + 1 := by
  obtain ⟨hfirst, -, hothers⟩ := Store.queued_rpoplpush (by simp) h
  have hlength : (st.lists (.waitingList queue q.name)).length =
      (st'.lists (.waitingList queue q.name)).length + 1 := by
    have := congrArg List.length hfirst
    simpa [Store.queued] using this
  have hsame : ∀ q' ≠ q, (st'.lists (.waitingList queue q'.name)).length =
      (st.lists (.waitingList queue q'.name)).length := by
    intro q' hq'
    have := congrArg List.length (hothers (.waitingList queue q'.name) (by simp [hq']) (by simp))
    simpa [Store.queued] using this
  cases q <;> simp [Store.backlog, priorities, hlength, hsame] <;> omega

/-- A poll completes the job, takes one that was in front of it, or goes on to the next list. -/
theorem exists_turn (hjson : env.json.Lawful) (htext : c.Textual env.json)
    (htype : c.request.type ∈ handlers) (h : Chased env w handlers c p s) :
    (∃ s', Reach (step env) (fun _ a => Action.ofCrew w i j k a) s s' ∧
      (s'.store.jobs c.id).status = some JobStatus.completed.name) ∨
    ∃ s', Reach (step env) (fun _ a => Action.ofCrew w i j k a) s s' ∧
      Chased env w handlers c p s' ∧
      s'.distance env.queueName w p < s.distance env.queueName w p := by
  obtain ⟨hI, hc, ⟨q, hw⟩, hwaits⟩ := h
  have hlt : w < s.workers.length := (List.getElem?_eq_some_iff.mp hw).1
  have hself : s.atWorker w handlers s.clock (.poll q) s.store s.log = s := by
    rw [Config.atWorker, set_self_of_getElem? hw]
  have hcrew : ∀ {s'}, Reach (step env) (fun _ a => a.ofWorker w = true) s s' →
      Reach (step env) (fun _ a => Action.ofCrew w i j k a) s s' :=
    fun hreach => hreach.mono fun _ _ => .inl
  have hkept : ∀ {s'}, Reach (step env) (fun _ a => a.ofWorker w = true) s s' → Integrity env s' :=
    fun hreach => hreach.invariant hI fun _ _ _ hI _ hs => integrity_step hI hs
  cases hpop : s.store.rpoplpush (.waitingList env.queueName q.name)
      (.processingList env.queueName) with
  | none =>
    -- the list is empty, so it is not that of the job
    have hpoll : workerStep env s.clock w 0 handlers s.store (.poll q) =
        some { store := s.store, pc := .poll q.next, events := [] } := by
      simp [workerStep, hpop]
    have hreach : Reach (step env) (fun _ a => a.ofWorker w = true)
        (s.atWorker w handlers s.clock (.poll q) s.store s.log)
        (s.atWorker w handlers s.clock (.poll q.next) s.store (s.log ++ [])) :=
      workerStep_reach 0 hlt hpoll
    rw [hself] at hreach
    have hne : q ≠ p := by
      rintro rfl
      rw [Store.lists_eq_nil_of_rpoplpush hpop] at hwaits
      cases hwaits
    refine .inr ⟨_, hcrew hreach, ⟨hkept hreach, hc, ⟨q.next, ?_⟩, hwaits⟩, ?_⟩
    · simp [Config.atWorker, hlt]
    · simp only [Config.distance, Config.atWorker, List.getElem?_set_self hlt, hw, Option.elim,
        WorkerPc.polling]
      have hcloser : q.next.pollsTo p < q.pollsTo p := by
        clear hpop hreach hself hw
        revert hne
        cases q <;> cases p <;> decide
      omega
  | some taken =>
    obtain ⟨id, st'⟩ := taken
    have hpoll : workerStep env s.clock w 0 handlers s.store (.poll q) =
        some { store := st', pc := .fetch id, events := [.dequeued id] } := by
      simp [workerStep, hpop]
    have htake : Reach (step env) (fun _ a => a.ofWorker w = true)
        (s.atWorker w handlers s.clock (.poll q) s.store s.log)
        (s.atWorker w handlers s.clock (.fetch id) st' (s.log ++ [.dequeued id])) :=
      workerStep_reach 0 hlt hpoll
    rw [hself] at htake
    obtain ⟨clock, log', hjob⟩ : ∃ clock log', Reach (step env) (fun _ a => a.ofWorker w = true)
        (s.atWorker w handlers s.clock (.fetch id) st' (s.log ++ [.dequeued id]))
        (s.atWorker w handlers clock (.poll .high)
          ((processJob env w handlers (.prompt s.clock) id).after st') log') :=
      processJob_reach env id st' _ hlt (fun _ => rfl) (fun _ => rfl)
        (Circumstances.timely_prompt s.clock)
    have hreach := htake.trans hjob
    by_cases hid : id = c.id
    · subst hid
      have hd := hI.describes_of_mentions hc (.listed _ hwaits)
      rw [← Store.jobs_rpoplpush hpop] at hd
      obtain ⟨job, hrun⟩ := hd.runnable hjson htext htype
      exact .inl ⟨_, hcrew hreach, status_processJob hrun s.clock⟩
    · obtain ⟨hfirst, -, hothers⟩ := Store.queued_rpoplpush (by simp) hpop
      have hstill : c.id ∈ st'.lists (.waitingList env.queueName p.name) := by
        rw [← List.mem_reverse] at hwaits ⊢
        by_cases hpq : p = q
        · subst hpq
          have hmem : c.id ∈ id :: st'.queued (.waitingList env.queueName p.name) := hfirst ▸ hwaits
          exact (List.mem_cons.mp hmem).resolve_left (Ne.symm hid)
        · have hsame := hothers (.waitingList env.queueName p.name) (by simp [hpq]) (by simp)
          show c.id ∈ st'.queued _
          rw [hsame]
          exact hwaits
      refine .inr ⟨_, hcrew hreach, ⟨hkept hreach, hc, ⟨.high, ?_⟩, ?_⟩, ?_⟩
      · simp [Config.atWorker, hlt]
      · show c.id ∈ ((processJob env w handlers _ id).after st').lists _
        rw [waiting_processJob]
        exact hstill
      · have hbacklog : ((processJob env w handlers (.prompt s.clock) id).after st').backlog
            env.queueName = st'.backlog env.queueName := by
          simp only [Store.backlog, waiting_processJob]
        have hless := backlog_rpoplpush hpop
        have hpolls : JobPriority.high.pollsTo p ≤ 2 := by cases p <;> decide
        simp only [Config.distance, Config.atWorker, List.getElem?_set_self hlt, hw, Option.elim,
          WorkerPc.polling, hbacklog]
        omega

/-- From a waiting list to completion. -/
theorem exists_reach_completed (hjson : env.json.Lawful) (htext : c.Textual env.json)
    (htype : c.request.type ∈ handlers) (h : Chased env w handlers c p s) :
    ∃ s', Reach (step env) (fun _ a => Action.ofCrew w i j k a) s s' ∧
      (s'.store.jobs c.id).status = some JobStatus.completed.name :=
  exists_reach_of_measure (fun s => s.distance env.queueName w p)
    (fun _ h => exists_turn hjson htext htype h) h

end Turns

/-! ## To a waiting list -/

section Passes

variable {s : Config T} {c : Call T} {w i j k : Nat}

/-- Time may pass. -/
theorem tick_reach_crew (ms : Nat) :
    Reach (step env) (fun _ a => Action.ofCrew w i j k a) s { s with clock := s.clock + ms } := by
  have hok : Action.ofCrew w i j k (.tick ms : Action T) := .inl rfl
  exact Reach.refl.tail hok rfl

theorem mem_lists_of_queued {st : Store} {key : ListKey} {id : JobId} (h : id ∈ st.queued key) :
    id ∈ st.lists key := List.mem_reverse.mp h

/-- A job is released to the list of the priority it was asked for with. -/
theorem Describes.mem_ofPriority {st : Store} {ids : List JobId}
    (hd : Describes env.json c (st.jobs c.id)) (hid : c.id ∈ ids) :
    c.id ∈ ofPriority st c.request.priority.name ids := by
  rw [ofPriority, List.mem_filter, hd.priority, orNormal_name]
  exact ⟨hid, decide_eq_true rfl⟩

/-- Wherever the job is, it gets to the waiting list of its priority. -/
theorem exists_reach_waiting (hjson : env.json.Lawful) (htext : c.Textual env.json)
    (hI : Integrity env s) (hc : c ∈ s.calls) (hi : s.schedulers[i]? = some .idle)
    (hj : s.watchdogs[j]? = some .idle) (hk : s.retries[k]? = some .idle)
    (hid : s.store.Outstanding env c.id) :
    ∃ p clock st log, Reach (step env) (fun _ a => Action.ofCrew w i j k a) s
        { s with store := st, clock := clock, log := log } ∧
      c.id ∈ st.lists (.waitingList env.queueName (JobPriority.name p)) := by
  cases hid with
  | waiting p hid => exact ⟨p, s.clock, s.store, s.log, .refl, hid⟩
  | processing hid =>
    -- let the heartbeat expire, then one whole watchdog pass
    have hd := hI.describes_of_mentions hc (.listed _ hid)
    obtain ⟨ms, hexpired⟩ : ∃ ms, s.store.alive (s.clock + ms) c.id = false := by
      cases hbeat : s.store.heartbeats c.id with
      | none => exact ⟨0, by simp [Store.alive, hbeat, Volatile.get?]⟩
      | some v =>
        refine ⟨v.expiresAt + 1, ?_⟩
        simp only [Store.alive, hbeat, Volatile.get?]
        rw [if_neg (by omega)]
        rfl
    obtain ⟨log', hpass⟩ : ∃ log', Reach (step env) (fun _ a => a = .watch j)
        { s with clock := s.clock + ms }
        { s with
          clock := s.clock + ms
          store := checkStalledJobs env (s.clock + ms) s.store
          log := log' } :=
      checkStalledJobs_reach hj
    have hrequeued := checkStalledJobs_requeued env (s.clock + ms) s.store
    refine ⟨c.request.priority, _, _, log', (tick_reach_crew ms).trans
      (hpass.mono fun _ _ h => .inr (.inr (.inl h))), mem_lists_of_queued ?_⟩
    rw [hrequeued.waiting]
    refine List.mem_append_right _ (hd.mem_ofPriority (List.mem_filter.mpr ⟨?_, ?_⟩))
    · exact mem_stalledIds.mpr ⟨.inr hid, hexpired⟩
    · rw [hd.isEmpty]
      rfl
  | delayed hid =>
    -- let it become due, then one whole scheduler pass
    have hd := hI.describes_of_mentions hc (.delayed _ hid)
    obtain ⟨⟨_, score⟩, hentry, rfl⟩ := List.mem_map.mp hid
    obtain ⟨log', hpass⟩ : ∃ log', Reach (step env) (fun _ a => a = .schedule i)
        { s with clock := s.clock + score }
        { s with
          clock := s.clock + score
          store := processDelayedJobs env (s.clock + score) s.store
          log := log' } :=
      processDelayedJobs_reach hi
    have hmoved := processDelayedJobs_moved env (s.clock + score) (fun _ => false) s.store
    rw [after_processDelayedJobs] at hmoved
    refine ⟨c.request.priority, _, _, log', (tick_reach_crew score).trans
      (hpass.mono fun _ _ h => .inr (.inl h)), mem_lists_of_queued ?_⟩
    have hall' : Scheduler.movedJobs (fun _ => false) (dueJobs env (s.clock + score) s.store) =
        dueJobs env (s.clock + score) s.store := by
      simp [Scheduler.movedJobs]
    rw [hall'] at hmoved
    rw [hmoved.waiting]
    refine List.mem_append_right _
      (hd.mem_ofPriority (ZSet.mem_zrangebyscore.mpr ⟨score, hentry, ?_⟩))
    omega
  | givenUp hstatus =>
    -- given up: `POST /jobs/:id/retry` puts it back
    have hpresent : s.store.jobs c.id ≠ .absent := by
      intro habsent
      rw [habsent] at hstatus
      rcases hstatus with h | h <;> cases h
    have hd := hI.describes_of_mem hc hpresent
    obtain ⟨job, hjob, -, -⟩ := hd.shows hjson htext
    obtain ⟨-, hpriority, hread, -⟩ := deserializeJob_eq_ok hjob
    obtain ⟨log', hrequest⟩ : ∃ log', Reach (step env)
        (fun _ a => a = .request k c.id ∨ a = .respond k) s
        { s with store := retryJob env c.id s.store, log := log' } :=
      retryJob_reach hk
    have hgoes : retryRequest env s.store c.id = .requeue c.id job.priority := by
      rw [retryRequest, getJob, if_neg (by rw [hd.isEmpty]; decide), hjob]
      dsimp only [Except.map]
      rw [if_neg]
      rw [hread]
      tauto
    refine ⟨c.request.priority, s.clock, _, log', hrequest.mono fun _ _ h => ?_, ?_⟩
    · rcases h with rfl | rfl
      · exact .inr (.inr (.inr (.inl ⟨_, rfl⟩)))
      · exact .inr (.inr (.inr (.inr rfl)))
    · rw [retryJob, hgoes, hpriority, hd.priority, orNormal_name]
      simp

/-- **No job depends on the others.** In every run, whatever crashes and whichever commands are
rejected: a job that is on a waiting list or the processing list, in the delayed set, or given
up, and whose payload has a JSON text, can be completed by any crew whose worker polls and has
a handler for it, nobody else moving again. -/
theorem completable {topology : Topology} {r : Faulty T}
    (h : Reach (faultyStep env) (fun _ _ => True) (Faulty.init topology) r)
    (hjson : env.json.Lawful) {handlers : List String} {q : JobPriority}
    (hw : r.config.workers[w]? = some ⟨handlers, .poll q⟩)
    (hi : r.config.schedulers[i]? = some .idle) (hj : r.config.watchdogs[j]? = some .idle)
    (hk : r.config.retries[k]? = some .idle)
    (hc : c ∈ r.config.calls) (htext : c.Textual env.json) (htype : c.request.type ∈ handlers)
    (hid : r.config.store.Outstanding env c.id) :
    ∃ s', Reach (step env) (fun _ a => Action.ofCrew w i j k a) r.config s' ∧
      (s'.store.jobs c.id).status = some JobStatus.completed.name := by
  have hI := (sound_run h).integrity
  obtain ⟨p, clock, st, log, hreach, hwaits⟩ :=
    exists_reach_waiting (w := w) hjson htext hI hc hi hj hk hid
  have hI' := hreach.invariant hI fun _ _ _ hI _ hs => integrity_step hI hs
  obtain ⟨s', hrest, hdone⟩ :=
    exists_reach_completed (i := i) (j := j) (k := k) hjson htext htype
      (⟨hI', hc, ⟨q, hw⟩, hwaits⟩ : Chased env w handlers c p _)
  exact ⟨s', hreach.trans hrest, hdone⟩

end Passes

deriving instance DecidableEq for SchedulerPc, WatchdogPc, RetryPc

theorem WorkerPc.eq_poll {pc : WorkerPc T} {q : JobPriority} (h : pc.polling = some q) :
    pc = .poll q := by
  cases pc <;> cases h
  rfl

/-- The worker with the job has died; a second one is left. -/
theorem completable_dead_worker : ∃ (r : Faulty Unit) (s' : Config Unit),
    "a" ∈ r.config.store.lists (.processingList "main_queue") ∧
      Reach (step mainQueue) (fun _ a => Action.ofCrew 1 0 0 0 a) r.config s' ∧
      (s'.store.jobs "a").status = some JobStatus.completed.name := by
  obtain ⟨r, hr, hid, ⟨c, hc, hcid, htype⟩, hw, hi, hj, hk⟩ :=
    exists_reach_of_run (faultyStep mainQueue) (fun _ _ => True)
      (Faulty.init ⟨1, [["mail"], ["mail"]], 1, 1, 1⟩)
      (fun r => "a" ∈ r.config.store.lists (.processingList "main_queue") ∧
        (∃ c ∈ r.config.calls, c.id = "a" ∧ c.request.type ∈ ["mail"]) ∧
        (r.config.workers[1]?.map fun wk => (wk.handlers, wk.pc.polling)) =
          some (["mail"], some .high) ∧
        r.config.schedulers[0]? = some .idle ∧ r.config.watchdogs[0]? = some .idle ∧
        r.config.retries[0]? = some .idle)
      ((startOnce ++ [Action.crash (.worker 0)]).map .act) (by decide +kernel)
  -- the second worker polls, and knows the type
  obtain ⟨⟨handlers, pc⟩, hw, hpc⟩ := Option.map_eq_some_iff.mp hw
  obtain ⟨rfl, hpoll⟩ := Prod.mk.inj hpc
  obtain rfl := WorkerPc.eq_poll hpoll
  obtain ⟨s', hreach, hdone⟩ :=
    completable hr lawful_mainQueue hw hi hj hk hc rfl htype (.processing (hcid ▸ hid))
  exact ⟨r, s', hid, hreach, hcid ▸ hdone⟩

end DistriSys
