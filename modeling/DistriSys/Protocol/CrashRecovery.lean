import DistriSys.Core.Records
import DistriSys.Protocol.Operations
import DistriSys.Protocol.Places
import DistriSys.Protocol.Refinement

/-!
# One crash and one watchdog pass

A worker takes a job and dies somewhere in `processJob`, between two commands.
Nobody else acts; once the heartbeat of the job has expired, a watchdog pass runs.

Up to the last command the job is on the processing list and nowhere else, and
the pass moves it from there to a waiting list. Just before the clean-up it has
been settled as well: it is completed, or in the delayed set, or on the dead list.
The pass looks at none of that. **`crash_recovered`** says exactly when it leaves
one copy of the job, and `crash_before_cleanup_duplicates` is the run in which it
makes a second one.

`Underway` follows the store through the call, command by command (`underway_workerStep`), for
each `Stage`; `recoveredOnce_iff_of_unsettled` is the pass over what a call has left before it
has settled the job, `not_recoveredOnce_of_settled` the one after.
-/

namespace DistriSys

open Js Redis Transition

variable {T : Type}

/-- Worker `w` is in a call of `processJob` for `id`. -/
def Config.InCall (s : Config T) (w : Nat) (id : JobId) : Prop :=
  (s.workers[w]?).bind (·.pc.jobId?) = some id

instance (s : Config T) (w : Nat) (id : JobId) : Decidable (s.InCall w id) :=
  inferInstanceAs (Decidable (_ = _))

/-- How far a call is. -/
inductive Stage where
  /-- the record is not read yet -/
  | taken
  /-- the job is not settled yet -/
  | begun
  /-- only the clean-up is left -/
  | settled
deriving DecidableEq

/-- How far the call has got. -/
def WorkerPc.stage : WorkerPc T → Stage
  | fetch _ => .taken
  | cleanup _ => .settled
  | _ => .begun

/-- Worker `w` has only the clean-up left to run. -/
def Config.AtCleanup (s : Config T) (w : Nat) : Prop :=
  (s.workers[w]?).map (·.pc.stage) = some .settled

instance (s : Config T) (w : Nat) : Decidable (s.AtCleanup w) :=
  inferInstanceAs (Decidable (_ = _))

/-- A job that is done lies nowhere and is `completed`; one that is not lies in one
place, once, and its record says so. -/
def RecoveredOnce (queue : QueueName) (id : JobId) (done : Prop) (st : Store) : Prop :=
  (done → st.OnlyAt queue id none ∧ (st.jobs id).status = some JobStatus.completed.name) ∧
    (¬ done → ∃ place, st.OnlyAt queue id (some place) ∧ place.Fits (st.jobs id))

/-! ## The call, up to the crash -/

/-- How far a call for `id` that began in `st₁` has got. -/
structure Underway (env : Env T) (id : JobId) (st₁ : Store) (completed₁ : Nat) (pc : WorkerPc T)
    (st : Store) (completed : Nat) : Prop where
  loaded : pc.stage = .taken ∨ (st₁.jobs id).isEmpty = false
  isEmpty : (st.jobs id).isEmpty = (st₁.jobs id).isEmpty
  priority : (st.jobs id).priority = (st₁.jobs id).priority
  processing : st.countAt env.queueName id .processing = st₁.countAt env.queueName id .processing
  unsettled : pc.stage ≠ .settled → completed = completed₁ ∧
    ∀ place, st.countAt env.queueName id place = st₁.countAt env.queueName id place
  settled : pc.stage = .settled → completed₁ < completed ∨
    0 < st.countAt env.queueName id .delayed ∨ 0 < st.countAt env.queueName id .dead

section Run

variable {env : Env T} {s s' s₁ s₂ s₃ : Config T} {a : Action T} {w draw now : Nat} {id : JobId}
  {st st₁ : Store} {completed completed₁ : Nat} {pc : WorkerPc T}

theorem Underway.present (h : Underway env id st₁ completed₁ pc st completed)
    (hpc : pc.stage ≠ .taken) : (st₁.jobs id).isEmpty = false :=
  h.loaded.resolve_left hpc

theorem Underway.begun (h : Underway env id st₁ completed₁ pc st completed)
    (hpc : pc.stage = .begun) :
    (st₁.jobs id).isEmpty = false ∧ completed = completed₁ ∧
      ∀ place, st.countAt env.queueName id place = st₁.countAt env.queueName id place :=
  ⟨h.present (by rw [hpc]; decide), h.unsettled (by rw [hpc]; decide)⟩

theorem isEmpty_hmset_status {status : JobStatus} {attempts : Option String} :
    ((st.hmset id { status := some status.name, attempts := attempts }).jobs id).isEmpty = false :=
  isEmpty_of_status (by simp [JobHash.patch] : _ = some status.name)

/-- A command that neither moves nor settles the job. -/
theorem Underway.goOn {pc' : WorkerPc T} {st' : Store}
    (h : Underway env id st₁ completed₁ pc st completed) (hpc : pc.stage = .begun)
    (hpc' : pc'.stage = .begun) (hjobs : st'.jobs = st.jobs)
    (hcounts : ∀ place, st'.countAt env.queueName id place = st.countAt env.queueName id place) :
    Underway env id st₁ completed₁ pc' st' completed where
  loaded := .inr (h.begun hpc).1
  isEmpty := hjobs ▸ h.isEmpty
  priority := hjobs ▸ h.priority
  processing := (hcounts _).trans h.processing
  unsettled _ := ⟨(h.begun hpc).2.1, fun place => (hcounts place).trans ((h.begun hpc).2.2 place)⟩
  settled hsettled := by simp [hpc'] at hsettled

/-- A command that writes a status, and perhaps attempts. -/
theorem Underway.write {pc' : WorkerPc T} {status : JobStatus} {attempts : Option String}
    (h : Underway env id st₁ completed₁ pc st completed) (hpc : pc.stage = .begun)
    (hpc' : pc'.stage = .begun) :
    Underway env id st₁ completed₁ pc'
      (st.hmset id { status := some status.name, attempts := attempts }) completed where
  loaded := .inr (h.begun hpc).1
  isEmpty := isEmpty_hmset_status.trans (h.begun hpc).1.symm
  priority := by simpa [JobHash.patch] using h.priority
  processing := Store.countAt_hmset.trans h.processing
  unsettled _ := ⟨(h.begun hpc).2.1,
    fun place => Store.countAt_hmset.trans ((h.begun hpc).2.2 place)⟩
  settled hsettled := by simp [hpc'] at hsettled

/-- A command that settles the job; the clean-up is next. -/
theorem Underway.settle {pc' : WorkerPc T} {st' : Store} {completed' : Nat}
    (h : Underway env id st₁ completed₁ pc st completed) (hpc : pc.stage = .begun)
    (hpc' : pc'.stage = .settled) (hempty : (st'.jobs id).isEmpty = (st.jobs id).isEmpty)
    (hpriority : (st'.jobs id).priority = (st.jobs id).priority)
    (hprocessing : st'.countAt env.queueName id .processing =
      st.countAt env.queueName id .processing)
    (hsettled : completed₁ < completed' ∨ 0 < st'.countAt env.queueName id .delayed ∨
      0 < st'.countAt env.queueName id .dead) :
    Underway env id st₁ completed₁ pc' st' completed' where
  loaded := .inr (h.begun hpc).1
  isEmpty := hempty.trans h.isEmpty
  priority := hpriority.trans h.priority
  processing := hprocessing.trans h.processing
  unsettled hopen := absurd hpc' hopen
  settled _ := hsettled

theorem underway_workerStep {handlers : List String} {e : Effect (WorkerPc T)}
    (h : Underway env id st₁ completed₁ pc st completed) (hid : pc.jobId? = some id)
    (he : workerStep env now w draw handlers st pc = some e) (hid' : e.pc.jobId? = some id) :
    Underway env id st₁ completed₁ e.pc e.store (completed + e.events.count (.completed id)) := by
  cases pc with
  | poll p => cases hid
  | fetch jobId =>
    cases hid
    simp only [workerStep] at he
    split at he
    · cases he
      cases hid'
    -- the record is there, and so it was when the job was taken
    · next hpresent =>
      split at he
      · cases he
        cases hid'
      · cases he
        have hloaded : (st₁.jobs id).isEmpty = false := by simpa [← h.isEmpty] using hpresent
        exact ⟨.inr hloaded, h.isEmpty, h.priority, h.processing,
          fun _ => h.unsettled (by rintro ⟨⟩), by rintro ⟨⟩⟩
  -- a status is no matter for the pass
  | markActive jobId job =>
    cases hid
    cases he
    refine h.write rfl ?_
    split <;> rfl
  | markFailed jobId =>
    cases he
    cases hid'
  | register jobId job startedAt =>
    cases hid
    cases he
    exact h.goOn rfl rfl rfl fun _ => rfl
  | beat jobId job =>
    cases hid
    cases he
    exact h.goOn rfl rfl rfl fun _ => rfl
  | running => cases he
  -- the three commands that settle the job
  | complete jobId elapsed =>
    cases hid
    cases he
    have hempty : (st.jobs id).isEmpty = false := h.isEmpty.trans (h.begun rfl).1
    refine h.settle rfl rfl (isEmpty_hmset_status.trans hempty.symm) (by simp [JobHash.patch])
      rfl (.inl ?_)
    rw [(h.begun rfl).2.1]
    simp
  | countFailure jobId job =>
    cases hid
    cases he
    refine h.goOn rfl ?_ rfl fun _ => rfl
    dsimp only [retryOrBury]
    split <;> rfl
  | writeDelayed jobId nextAttempt delay =>
    cases hid
    cases he
    exact h.write rfl rfl
  | writeDead jobId nextAttempt =>
    cases hid
    cases he
    exact h.write rfl rfl
  | zaddDelayed jobId score =>
    cases hid
    cases he
    exact h.settle rfl rfl rfl rfl (by simp) (.inr (.inl (by simp)))
  | lpushDead jobId =>
    cases hid
    cases he
    exact h.settle rfl rfl rfl rfl (by simp) (.inr (.inr (by simp)))
  | cleanup jobId =>
    cases he
    cases hid'
  | crashed => cases he

theorem underway_settleStep {outcome : HandlerOutcome} {pc' : WorkerPc T} {events : List Event}
    (h : Underway env id st₁ completed₁ pc st completed) (hid : pc.jobId? = some id)
    (he : settleStep now outcome pc = some (pc', events)) :
    Underway env id st₁ completed₁ pc' st (completed + events.count (.completed id)) := by
  cases pc with
  | running jobId job startTime =>
    cases hid
    cases outcome with
    | resolve =>
      cases he
      exact h.goOn rfl rfl rfl fun _ => rfl
    | reject =>
      cases he
      exact h.goOn rfl rfl rfl fun _ => rfl
  | _ => cases he

/-- While worker `w` is in the call that began in `s₁`, it is somewhere in it. -/
def CallUnderway (env : Env T) (w : Nat) (id : JobId) (s₁ s : Config T) : Prop :=
  ∀ wk, s.workers[w]? = some wk → wk.pc.jobId? = some id →
    Underway env id s₁.store (s₁.log.count (.completed id)) wk.pc s.store
      (s.log.count (.completed id))

theorem callUnderway_step (h : CallUnderway env w id s₁ s) (hcall : s.InCall w id)
    (ha : a.ofWorker w) (hs : step env s a = some s') : CallUnderway env w id s₁ s' := by
  obtain ⟨wk, hw, hid⟩ := Option.bind_eq_some_iff.mp hcall
  have hunderway := h wk hw hid
  have hlt : w < s.workers.length := (List.getElem?_eq_some_iff.mp hw).1
  cases stepped hs with
  | tick ms => exact h
  | work hw' he =>
    obtain rfl : _ = w := of_decide_eq_true ha
    cases hw.symm.trans hw'
    intro wk' hwk' hid'
    rw [List.getElem?_set_self hlt] at hwk'
    cases hwk'
    rw [List.count_append]
    exact underway_workerStep hunderway hid he hid'
  | settle hw' he =>
    obtain rfl : _ = w := of_decide_eq_true ha
    cases hw.symm.trans hw'
    intro wk' hwk' hid'
    rw [List.getElem?_set_self hlt] at hwk'
    cases hwk'
    rw [List.count_append]
    exact underway_settleStep hunderway hid he
  -- a renewed heartbeat changes none of what is followed
  | renew hw' hrenews =>
    intro wk' hwk' hid'
    obtain ⟨hloaded, hempty, hpriority, hprocessing, hunsettled, hsettled⟩ := h wk' hwk' hid'
    exact ⟨hloaded, hempty, hpriority, hprocessing, hunsettled, hsettled⟩
  | _ => cases ha

theorem callUnderway_run (h₁ : ∀ wk, s₁.workers[w]? = some wk → wk.pc = .fetch id)
    (h : Reach (step env) (fun s a => s.InCall w id ∧ a.ofWorker w) s₁ s) :
    CallUnderway env w id s₁ s := by
  refine h.invariant (fun wk hw _ => ?_) fun _ _ _ hU ha hs => callUnderway_step hU ha.1 ha.2 hs
  rw [h₁ wk hw]
  exact ⟨.inl rfl, rfl, rfl, rfl, fun _ => ⟨rfl, fun _ => rfl⟩, by rintro ⟨⟩⟩

/-! ## The beginning of the call -/

/-- The poll that hands `id` to worker `w`. -/
theorem dequeued_of_inCall {handlers : List String} {p : JobPriority}
    (hpoll : s.workers[w]? = some ⟨handlers, .poll p⟩)
    (hs : step env s (.work w draw) = some s₁) (hcall : s₁.InCall w id) :
    (∀ wk, s₁.workers[w]? = some wk → wk.pc = .fetch id) ∧ s₁.store.jobs = s.store.jobs ∧
      ∀ place, s.store.countAt env.queueName id place + (if place = .processing then 1 else 0) =
        s₁.store.countAt env.queueName id place + (if place = .waiting p then 1 else 0) := by
  have hlt : w < s.workers.length := (List.getElem?_eq_some_iff.mp hpoll).1
  cases stepped hs with
  | work hw he =>
    cases hpoll.symm.trans hw
    simp only [workerStep] at he
    split at he
    · next jobId st' hpop =>
      cases he
      -- the poll has taken this job
      obtain rfl : jobId = id := by simpa [Config.InCall, hlt, WorkerPc.jobId?] using hcall
      refine ⟨?_, Store.jobs_rpoplpush hpop, Store.countAt_rpoplpush hpop⟩
      intro wk hwk
      rw [List.getElem?_set_self hlt] at hwk
      cases hwk
      rfl
    · cases he
      simp [Config.InCall, hlt, WorkerPc.jobId?] at hcall

/-! ## The pass -/

section Pass

variable {done : Prop}

/-- A place that fits a waiting job is a waiting list. -/
theorem Place.Fits.waiting {record : JobHash} {place : Place} (h : place.Fits record)
    (hstatus : record.status = some JobStatus.waiting.name) :
    ∃ q, place = .waiting q ∧ orNormal record.priority = q.name := by
  cases place with
  | waiting q => exact ⟨q, rfl, h.2⟩
  | processing => exact absurd (hstatus.symm.trans h) (by decide)
  | delayed => exact absurd (hstatus.symm.trans h) (by decide)
  | dead => exact absurd (hstatus.symm.trans h) (by decide)

/-- The pass revives a job that was settled already. -/
theorem not_recoveredOnce_of_settled (hstalled : id ∈ stalledIds env now st)
    (hrecord : (st.jobs id).isEmpty = false)
    (hsettled : done ∨ 0 < st.countAt env.queueName id .delayed ∨
      0 < st.countAt env.queueName id .dead) :
    ¬ RecoveredOnce env.queueName id done (checkStalledJobs env now st) := by
  obtain ⟨hstatus, -, hcounts⟩ := requeued_checkStalledJobs hstalled hrecord
  intro h
  by_cases hdone : done
  · exact absurd (hstatus.symm.trans (h.1 hdone).2) (by decide)
  · obtain ⟨place, honly, hfits⟩ := h.2 hdone
    obtain ⟨q, rfl, -⟩ := hfits.waiting hstatus
    have hdelayed := (hcounts .delayed).symm.trans (honly .delayed)
    have hdead := (hcounts .dead).symm.trans (honly .dead)
    simp [Place.Receives] at hdelayed hdead
    obtain h | h | h := hsettled
    · exact hdone h
    · omega
    · omega

/-- The pass recovers a job that is not settled yet if the processing list is the
only place it is in, and its record says where it belongs. -/
theorem recoveredOnce_iff_of_unsettled (hstalled : id ∈ stalledIds env now st)
    (hprocessing : 0 < st.countAt env.queueName id .processing) (hopen : ¬ done) :
    RecoveredOnce env.queueName id done (checkStalledJobs env now st) ↔
      (st.jobs id).isEmpty = false ∧ (∃ q : JobPriority, orNormal (st.jobs id).priority = q.name) ∧
        st.OnlyAt env.queueName id (some .processing) := by
  cases hrecord : (st.jobs id).isEmpty with
  | true =>
    -- without a record the pass drops the entry, and the job is nowhere
    refine iff_of_false (fun h => ?_) (by simp)
    obtain ⟨place, -, hfits⟩ := h.2 hopen
    rw [dropped_checkStalledJobs hstalled (of_decide_eq_true hrecord)] at hfits
    cases place with
    | waiting => exact absurd hfits.1 nofun
    | _ => exact absurd hfits nofun
  | false =>
    obtain ⟨hstatus, hpriority, hcounts⟩ := requeued_checkStalledJobs hstalled hrecord
    constructor
    · intro h
      -- it is on the list of its priority, so that list is one the workers poll, and it came from
      -- the processing list only
      obtain ⟨place, honly, hfits⟩ := h.2 hopen
      obtain ⟨q, rfl, hq⟩ := hfits.waiting hstatus
      rw [hpriority] at hq
      refine ⟨rfl, ⟨q, hq⟩, ?_⟩
      intro place
      have hplace := (hcounts place).symm.trans (honly place)
      simp only [hq, Place.receives_name, Option.some.injEq,
        eq_comm (a := Place.waiting q)] at hplace ⊢
      split at hplace
      · next h =>
        subst h
        simp at hplace ⊢
        omega
      · next h =>
        simp [Ne.symm h] at hplace ⊢
        omega
    · rintro ⟨-, ⟨q, hq⟩, honly⟩
      refine ⟨fun hdone => absurd hdone hopen, fun _ => ⟨.waiting q, ?_, ?_⟩⟩
      · intro place
        rw [hcounts, honly]
        simp only [hq, Place.receives_name, Option.some.injEq]
        cases place <;> simp [eq_comm]
      · exact ⟨hstatus, hpriority ▸ hq⟩

end Pass

/-- **When a crash is recovered from.** Worker `w` takes `id` off the waiting list of
priority `p` and dies before it has finished. After the heartbeat has expired, a
watchdog pass leaves exactly one copy of the job, where its record says, or
none if it is completed, if and only if the worker died before the clean-up and
the job had a record with a proper priority and lay in that list once and nowhere
else. -/
theorem crash_recovered {handlers : List String} {p : JobPriority}
    (hpoll : s.workers[w]? = some ⟨handlers, .poll p⟩) (htake : step env s (.work w draw) = some s₁)
    (htaken : s₁.InCall w id)
    (hrun : Reach (step env) (fun s a => s.InCall w id ∧ a.ofWorker w) s₁ s₂)
    (hcall : s₂.InCall w id) (hdies : step env s₂ (.crash (.worker w)) = some s₃)
    (hexpired : s₃.store.alive now id = false) :
    RecoveredOnce env.queueName id (s₁.log.count (.completed id) < s₃.log.count (.completed id))
        (checkStalledJobs env now s₃.store) ↔
      ¬ s₂.AtCleanup w ∧ (s.store.jobs id).isEmpty = false ∧
        (∃ q : JobPriority, orNormal (s.store.jobs id).priority = q.name) ∧
        s.store.OnlyAt env.queueName id (some (.waiting p)) := by
  obtain ⟨hfetch, hjobs, hmoved⟩ := dequeued_of_inCall hpoll htake htaken
  obtain ⟨wk, hw, hid⟩ := Option.bind_eq_some_iff.mp hcall
  have hunderway := callUnderway_run hfetch hrun wk hw hid
  obtain ⟨hstore, hlog⟩ : s₃.store = s₂.store ∧ s₃.log = s₂.log := by
    cases stepped hdies
    exact ⟨rfl, rfl⟩
  rw [hstore] at hexpired ⊢
  rw [hlog]
  have hcleanup : s₂.AtCleanup w ↔ wk.pc.stage = .settled := by
    simp [Config.AtCleanup, hw]
  have hprocessing : 0 < s₂.store.countAt env.queueName id .processing := by
    have := hmoved .processing
    simp at this
    rw [hunderway.processing, ← this]
    exact Nat.succ_pos _
  have hstalled : id ∈ stalledIds env now s₂.store :=
    mem_stalledIds.mpr ⟨.inr (List.count_pos_iff.mp hprocessing), hexpired⟩
  -- the call has settled the job, or left it as it found it
  by_cases hclosing : wk.pc.stage = .settled
  · refine iff_of_false ?_ fun h => h.1 (hcleanup.mpr hclosing)
    have hloaded : (s₁.store.jobs id).isEmpty = false :=
      hunderway.present (by rw [hclosing]; decide)
    exact not_recoveredOnce_of_settled hstalled (hunderway.isEmpty.trans hloaded)
      (hunderway.settled hclosing)
  · obtain ⟨hsame, hcounts⟩ := hunderway.unsettled hclosing
    rw [recoveredOnce_iff_of_unsettled hstalled hprocessing (by omega), hunderway.isEmpty,
      hunderway.priority, hjobs]
    refine Iff.trans ?_ (and_iff_right (mt hcleanup.mp hclosing)).symm
    have honly : s₂.store.OnlyAt env.queueName id (some .processing) ↔
        s.store.OnlyAt env.queueName id (some (.waiting p)) := by
      refine forall_congr' fun place => ?_
      have hplace := hmoved place
      rw [hcounts place]
      simp only [Option.some.injEq, eq_comm (b := place)]
      split_ifs at hplace ⊢ <;> omega
    rw [honly]

end Run

/-! ## Concrete crashes -/

/-- Every job that has a record and is not completed lies, once, on a waiting list, in
the delayed set or on the dead list. -/
def Store.UnfinishedOnce (st : Store) (queue : QueueName) : Prop :=
  ∀ id, (st.jobs id).isEmpty = false → (st.jobs id).status ≠ some JobStatus.completed.name →
    st.waiting queue id + st.countAt queue id .delayed + st.countAt queue id .dead = 1

/-- One waiting job, and a worker that is about to take it. -/
def aboutToTake : Config Unit :=
  { init ⟨0, [], 0, 0, 0⟩ with
    store := (saveJob .empty "a" ((.core "mail" () .absent none : EnqueueCall Unit).record
      mainQueue.json "a" 0)).lpush (.waitingList "main_queue" "normal") "a"
    workers := [⟨["mail"], .poll .normal⟩] }

theorem unfinishedOnce_aboutToTake : aboutToTake.store.UnfinishedOnce "main_queue" := by
  intro id hrecord _
  by_cases hid : id = "a"
  · subst hid
    decide +kernel
  · simp [aboutToTake, saveJob, hid, Store.empty, JobHash.isEmpty] at hrecord

/-- The worker takes the job, goes on as given, and dies. -/
def crashAfter (as : List (Action Unit)) : Option (Config Unit × Config Unit × Config Unit) := do
  let s₁ ← step mainQueue aboutToTake (.work 0 0)
  let s₂ ← runGuarded (step mainQueue) (fun s a => s.InCall 0 "a" ∧ a.ofWorker 0) s₁ as
  let s₃ ← step mainQueue s₂ (.crash (.worker 0))
  some (s₁, s₂, s₃)

theorem exists_crash (as : List (Action Unit)) (P : Config Unit → Config Unit → Config Unit → Prop)
    [∀ s₁ s₂ s₃, Decidable (P s₁ s₂ s₃)]
    (h : (crashAfter as).any (fun s => decide (P s.1 s.2.1 s.2.2)) = true) :
    ∃ s₁ s₂ s₃, step mainQueue aboutToTake (.work 0 0) = some s₁ ∧
      Reach (step mainQueue) (fun s a => s.InCall 0 "a" ∧ a.ofWorker 0) s₁ s₂ ∧
      step mainQueue s₂ (.crash (.worker 0)) = some s₃ ∧ P s₁ s₂ s₃ := by
  obtain ⟨⟨s₁, s₂, s₃⟩, hcrash, hP⟩ := (Option.any_eq_true _ _).mp h
  simp only [crashAfter] at hcrash
  obtain ⟨t₁, htake, hcrash⟩ := Option.bind_eq_some_iff.mp hcrash
  obtain ⟨t₂, hrun, hcrash⟩ := Option.bind_eq_some_iff.mp hcrash
  obtain ⟨t₃, hdies, hcrash⟩ := Option.bind_eq_some_iff.mp hcrash
  cases hcrash
  exact ⟨s₁, s₂, s₃, htake, reach_of_runGuarded hrun, hdies, of_decide_eq_true hP⟩

/-- The worker dies in its handler. -/
theorem crash_recovered_in_handler :
    ∃ s : Config Unit, s.workers.map (·.pc.custody) = [none] ∧
      RecoveredOnce "main_queue" "a" False (checkStalledJobs mainQueue 15001 s.store) := by
  obtain ⟨s₁, s₂, s₃, htake, hrun, hdies, htaken, hcall, hopen, hexpired, hdead, hnone⟩ :=
    exists_crash [.work 0 0, .work 0 0, .work 0 0, .work 0 0]
      (fun s₁ s₂ s₃ => s₁.InCall 0 "a" ∧ s₂.InCall 0 "a" ∧ ¬ s₂.AtCleanup 0 ∧
        s₃.store.alive 15001 "a" = false ∧ s₃.workers.map (·.pc.custody) = [none] ∧
        s₃.log.count (.completed "a") = 0)
      (by decide +kernel)
  have hrecovered := (crash_recovered rfl htake htaken hrun hcall hdies hexpired).mpr
    ⟨hopen, by decide +kernel, ⟨.normal, rfl⟩, by rintro ⟨⟨⟩⟩ <;> decide +kernel⟩
  simp only [hnone, Nat.not_lt_zero] at hrecovered
  exact ⟨s₃, hdead, hrecovered⟩

/-- **A crash before the clean-up makes a second copy**: the failed job is in the
delayed set already, and the watchdog pushes it on its waiting list as well. -/
theorem crash_before_cleanup_duplicates :
    ¬ ∀ (s s₁ s₂ s₃ : Config Unit) (w draw : Nat) (handlers : List String) (p : JobPriority)
        (id : JobId) (now : Nat),
      s.store.UnfinishedOnce "main_queue" → s.workers[w]? = some ⟨handlers, .poll p⟩ →
      step mainQueue s (.work w draw) = some s₁ → s₁.InCall w id →
      Reach (step mainQueue) (fun s a => s.InCall w id ∧ a.ofWorker w) s₁ s₂ → s₂.InCall w id →
      step mainQueue s₂ (.crash (.worker w)) = some s₃ → s₃.store.alive now id = false →
        RecoveredOnce "main_queue" id (s₁.log.count (.completed id) < s₃.log.count (.completed id))
          (checkStalledJobs mainQueue now s₃.store) := by
  intro h
  obtain ⟨s₁, s₂, s₃, htake, hrun, hdies, htaken, hcall, hexpired, hnone, hwaiting, hdelayed⟩ :=
    exists_crash [.work 0 0, .work 0 0, .work 0 0, .work 0 0, .settle 0 .reject, .work 0 0,
        .work 0 0, .work 0 0]
      (fun s₁ s₂ s₃ => s₁.InCall 0 "a" ∧ s₂.InCall 0 "a" ∧ s₃.store.alive 15001 "a" = false ∧
        s₃.log.count (.completed "a") = 0 ∧
        (checkStalledJobs mainQueue 15001 s₃.store).countAt "main_queue" "a" (.waiting .normal) = 1 ∧
        (checkStalledJobs mainQueue 15001 s₃.store).countAt "main_queue" "a" .delayed = 1)
      (by decide +kernel)
  obtain ⟨place, honly, -⟩ := (h aboutToTake s₁ s₂ s₃ 0 0 ["mail"] .normal "a" 15001
    unfinishedOnce_aboutToTake rfl htake htaken hrun hcall hdies hexpired).2 (by omega)
  have hatWaiting := hwaiting.symm.trans (honly (.waiting .normal))
  have hatDelayed := hdelayed.symm.trans (honly .delayed)
  cases place <;> simp at hatWaiting hatDelayed

end DistriSys
