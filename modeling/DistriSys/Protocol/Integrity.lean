import DistriSys.Protocol.Mentions
import DistriSys.Transition.Reach

/-!
# Referential integrity of the store

Every id the store mentions belongs to a job whose record is complete
(`store_refers`). Producers write the record before they publish the id, and
delete it only while the id is unpublished; everybody else writes single fields
of published jobs. The invariant `Integrity` says so for a whole state,
including what the components remember from earlier reads:

- an id in the store or in the hands of a consumer has been pushed, an id in
  the hands of a producer has not;
- the record of a pushed id is there; a record that is there describes the
  `enqueue` call of its id (`Describes`); until the push its status is `waiting`;
- jobs and priorities read from records are those of the call (`Fine`).

`Integrity.consume` carries all of it over any step of a consumer, so what is
left for each of them is one lemma about its own next state (`workerStep_fine`,
`schedulerStep_fine`, …). Crashes lose what a component remembers and nothing else.
-/

namespace DistriSys

open Js Redis Transition

variable {T : Type}

/-! ## Ids and the calls that drew them

Ids are fresh, so an id determines the `enqueue` call that drew it, and what holds of that
call can be said of the id. Later calls are about other ids. -/

/-- The call that drew the id has the property. -/
def Called (calls : List (Call T)) (P : Call T → Prop) (id : JobId) : Prop :=
  ∃ c ∈ calls, c.id = id ∧ P c

instance (calls : List (Call T)) (P : Call T → Prop) [DecidablePred P] (id : JobId) :
    Decidable (Called calls P id) :=
  inferInstanceAs (Decidable (∃ c ∈ calls, c.id = id ∧ P c))

section Called

variable {calls calls' : List (Call T)} {c : Call T} {P : Call T → Prop} {id : JobId}

theorem called_iff (hnodup : (calls.map Call.id).Nodup) (hc : c ∈ calls) :
    Called calls P c.id ↔ P c := by
  constructor
  · rintro ⟨c', hc', hid, hP⟩
    rwa [List.inj_on_of_nodup_map hnodup hc' hc hid] at hP
  · intro hP
    exact ⟨c, hc, rfl, hP⟩

/-- Calls made later do not change what a job was asked for. -/
theorem called_append (hnodup : ((calls ++ calls').map Call.id).Nodup)
    (hid : id ∈ calls.map Call.id) : Called (calls ++ calls') P id ↔ Called calls P id := by
  obtain ⟨c, hc, rfl⟩ := List.mem_map.mp hid
  have hold : (calls.map Call.id).Nodup := by
    rw [List.map_append] at hnodup
    exact (List.nodup_append.mp hnodup).1
  rw [called_iff hnodup (List.mem_append_left _ hc), called_iff hold hc]

end Called

/-! ## Records and the calls they come from -/

/-- `h` is a complete record of the job of call `c`: the eight fields, all but
status and attempts as `enqueue` wrote them. -/
structure Describes (json : Json T) (c : Call T) (h : JobHash) : Prop where
  id : h.id = some c.id
  type : h.type = some c.request.type
  data : h.data = some ((json.stringify c.request.data).getD "")
  status : ∃ status : JobStatus, h.status = some status.name
  priority : h.priority = some c.request.priority.name
  attempts : ∃ n : Nat, h.attempts = some (Nat.repr n)
  maxAttempts : h.maxAttempts = some c.request.maxAttempts.toString
  createdAt : h.createdAt = some (Nat.repr c.time)

/-- The job decoded from a record is that of the call, but for the status and the attempts. -/
structure Decoded (json : Json T) (c : Call T) (job : Job T) : Prop where
  id : job.id = some c.id
  type : job.type = some c.request.type
  /-- as JSON brings it back -/
  data : json.parse ((json.stringify c.request.data).getD "") = some job.data
  status : ∃ status : JobStatus, job.status = some status.name
  priority : job.priority = c.request.priority.name
  attempts : ∃ n : Nat, job.attempts = .int n
  maxAttempts : job.maxAttempts = parseInt c.request.maxAttempts.toString
  createdAt : job.createdAt = .int c.time

section Records

variable {json : Json T} {c : Call T} {h fields : JobHash}

theorem Describes.ne_absent (hd : Describes json c h) : h ≠ .absent := by
  rintro rfl
  cases hd.id

theorem Describes.isEmpty (hd : Describes json c h) : h.isEmpty = false :=
  decide_eq_false hd.ne_absent

theorem Describes.patch (hd : Describes json c h) (hf : fields.IsUpdate) :
    Describes json c (h.patch fields) := by
  cases hf with
  | status status =>
    exact { hd with status := ⟨status, rfl⟩ }
  | attempts status n =>
    exact { hd with status := ⟨status, rfl⟩, attempts := ⟨n, rfl⟩ }

/-- `saveJob` leaves the complete record, whatever was there. -/
theorem describes_patch_serializeJob (h : JobHash) :
    Describes json c (h.patch (serializeJob json c.job)) where
  id := rfl
  type := rfl
  data := rfl
  status := ⟨.waiting, rfl⟩
  priority := rfl
  attempts := ⟨0, rfl⟩
  maxAttempts := rfl
  createdAt := rfl

theorem Describes.decoded {job : Job T} (hd : Describes json c h)
    (hjob : deserializeJob json h = .ok job) : Decoded json c job := by
  obtain ⟨htype, hpriority, hstatus, hattempts, hmax⟩ := deserializeJob_eq_ok hjob
  obtain ⟨hid, hdata, hcreated⟩ := deserializeJob_carries hjob
  obtain ⟨n, hn⟩ := hd.attempts
  rw [hd.data] at hdata
  exact
    { id := hid.trans hd.id
      type := htype.trans hd.type
      data := hdata
      status := by rw [hstatus]; exact hd.status
      priority := by rw [hpriority, hd.priority, orNormal_name]
      attempts := ⟨n, by rw [hattempts, hn, parseIntField_repr]⟩
      maxAttempts := by rw [hmax, hd.maxAttempts]; rfl
      createdAt := by rw [hcreated, hd.createdAt, parseIntField_repr] }

end Records

/-! ## What components remember -/

/-- The job a producer is about to announce. -/
def ProducerPc.Fine (calls : List (Call T)) (log : List Event) (jobs : JobId → JobHash) :
    ProducerPc T → Prop
  | idle => True
  | save id job key =>
    .pushed id ∉ log ∧ ∃ c ∈ calls, c.id = id ∧ c.job = job ∧ c.key = key
  | claim id job key =>
    .pushed id ∉ log ∧ jobs id ≠ .absent ∧ ∃ c ∈ calls, c.id = id ∧ c.job = job ∧ c.key = some key
  | push id job =>
    .pushed id ∉ log ∧ jobs id ≠ .absent ∧ ∃ c ∈ calls, c.id = id ∧ c.job = job ∧ c.key = none
  | discard id _ =>
    .pushed id ∉ log ∧ ∃ c ∈ calls, c.id = id

/-- The job a worker decoded. -/
def WorkerPc.job? : WorkerPc T → Option (JobId × Job T)
  | markActive jobId job => some (jobId, job)
  | register jobId job _ => some (jobId, job)
  | beat jobId job => some (jobId, job)
  | running jobId job _ => some (jobId, job)
  | countFailure jobId job => some (jobId, job)
  | _ => none

/-- The attempts count a worker is about to write. -/
def WorkerPc.nextAttempt? : WorkerPc T → Option JsNumber
  | writeDelayed _ nextAttempt _ => some nextAttempt
  | writeDead _ nextAttempt => some nextAttempt
  | _ => none

/-- A worker's job has been pushed; what it has decoded is the job of its call, and what it is
about to write is a number. -/
structure WorkerPc.Fine (json : Json T) (calls : List (Call T)) (log : List Event)
    (pc : WorkerPc T) : Prop where
  pushed : ∀ id, pc.jobId? = some id → .pushed id ∈ log
  decoded : ∀ id job, pc.job? = some (id, job) → ∃ c ∈ calls, c.id = id ∧ Decoded json c job
  counted : ∀ nextAttempt, pc.nextAttempt? = some nextAttempt → ∃ n : Nat, nextAttempt = .int n

/-- The jobs of a pass have been pushed, and the priority it has read is the one asked for. -/
structure SchedulerPc.Fine (calls : List (Call T)) (log : List Event) (pc : SchedulerPc) : Prop where
  pushed : ∀ id ∈ pc.pending, .pushed id ∈ log
  priority : ∀ id priority rest, pc = .move id priority rest →
    ∃ c ∈ calls, c.id = id ∧ priority = c.request.priority.name

/-- The jobs of a pass have been pushed, and the record it has read is that of its call. -/
structure WatchdogPc.Fine (json : Json T) (calls : List (Call T)) (log : List Event)
    (pc : WatchdogPc) : Prop where
  pushed : ∀ id ∈ pc.pending, .pushed id ∈ log
  record : ∀ id jobHash rest, pc = .requeue id jobHash rest →
    ∃ c ∈ calls, c.id = id ∧ Describes json c jobHash

/-- The job of a retry has been pushed, and the priority it has read is the one asked for. -/
structure RetryPc.Fine (calls : List (Call T)) (log : List Event) (pc : RetryPc) : Prop where
  pushed : ∀ id, pc.jobId? = some id → .pushed id ∈ log
  priority : ∀ id priority, pc = .requeue id priority →
    ∃ c ∈ calls, c.id = id ∧ priority = c.request.priority.name

/-! ## The invariant -/

/-- **The store is in order.** What it mentions has been pushed, what has been pushed has a
record, and every record is that of one of the calls; the components have in hand only what
fits this. -/
structure Integrity (env : Env T) (s : Config T) : Prop where
  calls_nodup : (s.calls.map Call.id).Nodup
  pushed_called : ∀ id, .pushed id ∈ s.log → id ∈ s.calls.map Call.id
  mentioned : ∀ id, s.store.Mentions id → .pushed id ∈ s.log
  present : ∀ id, .pushed id ∈ s.log → s.store.jobs id ≠ .absent
  records : ∀ id, s.store.jobs id = .absent ∨
    ∃ c ∈ s.calls, c.id = id ∧ Describes env.json c (s.store.jobs id)
  unpushed : ∀ id, .pushed id ∉ s.log →
    (s.store.jobs id).status = none ∨ (s.store.jobs id).status = some JobStatus.waiting.name
  undropped : ∀ id, .dropped id ∉ s.log
  producers : ∀ pc ∈ s.producers, pc.Fine s.calls s.log s.store.jobs
  /-- No two producers work on one id. -/
  distinct : ∀ (i j : Nat) (pc pc' : ProducerPc T) (id : JobId),
    s.producers[i]? = some pc → s.producers[j]? = some pc' → pc.jobId? = some id → pc'.jobId? = some id → i = j
  workers : ∀ wk ∈ s.workers, wk.pc.Fine env.json s.calls s.log
  schedulers : ∀ pc ∈ s.schedulers, pc.Fine s.calls s.log
  watchdogs : ∀ pc ∈ s.watchdogs, pc.Fine env.json s.calls s.log
  retries : ∀ pc ∈ s.retries, pc.Fine s.calls s.log

/-- An event that is neither part of an `enqueue` call nor a job without a record. -/
def Event.IsQuiet : Event → Prop
  | pushed _ => False
  | returnedJob _ => False
  | returnedId _ _ => False
  | dropped _ => False
  | _ => True

/-- The events of a step that publishes, drops and returns nothing. -/
def Quiet (events : List Event) : Prop := ∀ event ∈ events, event.IsQuiet

theorem integrity_init (env : Env T) (topology : Topology) :
    Integrity env (init topology : Config T) where
  calls_nodup := .nil
  pushed_called _ h := absurd h List.not_mem_nil
  mentioned _ h := absurd h Store.not_mentions_empty
  present _ h := absurd h List.not_mem_nil
  records _ := .inl rfl
  unpushed _ _ := .inl rfl
  undropped _ := List.not_mem_nil
  producers pc h := by
    obtain rfl : pc = .idle := List.eq_of_mem_replicate h
    trivial
  distinct i j pc pc' id hi _ hid _ := by
    obtain rfl : pc = .idle := List.eq_of_mem_replicate (List.mem_of_getElem? hi)
    cases hid
  workers wk h := by
    obtain ⟨handlers, -, rfl⟩ := List.mem_map.mp h
    exact ⟨by rintro _ ⟨⟩, by rintro _ _ ⟨⟩, by rintro _ ⟨⟩⟩
  schedulers pc h := by
    obtain rfl : pc = .idle := List.eq_of_mem_replicate h
    exact ⟨nofun, nofun⟩
  watchdogs pc h := by
    obtain rfl : pc = .idle := List.eq_of_mem_replicate h
    exact ⟨nofun, by rintro _ _ _ ⟨⟩⟩
  retries pc h := by
    obtain rfl : pc = .idle := List.eq_of_mem_replicate h
    exact ⟨nofun, nofun⟩

/-! ## Steps of consumers -/

section Monotone

variable {calls : List (Call T)} {log events : List Event}

theorem Quiet.mem_append (h : Quiet events) {event : Event} (hevent : ¬ event.IsQuiet) :
    event ∈ log ++ events ↔ event ∈ log := by
  rw [List.mem_append, or_iff_left fun hmem => hevent (h event hmem)]

theorem Quiet.pushed_append (h : Quiet events) {id : JobId} :
    .pushed id ∈ log ++ events ↔ .pushed id ∈ log := h.mem_append fun hquiet => hquiet

theorem Quiet.dropped_append (h : Quiet events) {id : JobId} :
    .dropped id ∈ log ++ events ↔ .dropped id ∈ log := h.mem_append fun hquiet => hquiet

theorem ProducerPc.Fine.quiet {jobs jobs' : JobId → JobHash} {pc : ProducerPc T}
    (h : pc.Fine calls log jobs) (hev : Quiet events)
    (hjobs : ∀ id, .pushed id ∉ log → jobs' id = jobs id) : pc.Fine calls (log ++ events) jobs' := by
  cases pc with
  | idle => trivial
  | save id job key => exact ⟨mt hev.pushed_append.mp h.1, h.2⟩
  | claim id job key => exact ⟨mt hev.pushed_append.mp h.1, hjobs id h.1 ▸ h.2.1, h.2.2⟩
  | push id job => exact ⟨mt hev.pushed_append.mp h.1, hjobs id h.1 ▸ h.2.1, h.2.2⟩
  | discard id claimedId => exact ⟨mt hev.pushed_append.mp h.1, h.2⟩

/-- What consumers remember stays right as calls and events are added. -/
theorem WorkerPc.Fine.mono {json : Json T} {calls' : List (Call T)} {log' : List Event}
    {pc : WorkerPc T} (h : pc.Fine json calls log) (hcalls : calls ⊆ calls') (hlog : log ⊆ log') :
    pc.Fine json calls' log' where
  pushed id hid := hlog (h.pushed id hid)
  decoded id job hjob :=
    have ⟨c, hc, hid, hd⟩ := h.decoded id job hjob
    ⟨c, hcalls hc, hid, hd⟩
  counted := h.counted

theorem SchedulerPc.Fine.mono {calls' : List (Call T)} {log' : List Event} {pc : SchedulerPc}
    (h : pc.Fine calls log) (hcalls : calls ⊆ calls') (hlog : log ⊆ log') : pc.Fine calls' log' where
  pushed id hid := hlog (h.pushed id hid)
  priority id priority rest hpc :=
    have ⟨c, hc, hid, hp⟩ := h.priority id priority rest hpc
    ⟨c, hcalls hc, hid, hp⟩

theorem WatchdogPc.Fine.mono {json : Json T} {calls' : List (Call T)} {log' : List Event}
    {pc : WatchdogPc} (h : pc.Fine json calls log) (hcalls : calls ⊆ calls') (hlog : log ⊆ log') :
    pc.Fine json calls' log' where
  pushed id hid := hlog (h.pushed id hid)
  record id jobHash rest hpc :=
    have ⟨c, hc, hid, hd⟩ := h.record id jobHash rest hpc
    ⟨c, hcalls hc, hid, hd⟩

theorem RetryPc.Fine.mono {calls' : List (Call T)} {log' : List Event} {pc : RetryPc}
    (h : pc.Fine calls log) (hcalls : calls ⊆ calls') (hlog : log ⊆ log') : pc.Fine calls' log' where
  pushed id hid := hlog (h.pushed id hid)
  priority id priority hpc :=
    have ⟨c, hc, hid, hp⟩ := h.priority id priority hpc
    ⟨c, hcalls hc, hid, hp⟩

end Monotone

section Consumers

variable {env : Env T} {s : Config T} {st : Store} {events : List Event}

/-- **Consumers keep the store in order**: commands about pushed ids only. -/
theorem Integrity.consume (h : Integrity env s)
    (hst : Consumes (fun id => .pushed id ∈ s.log) s.store st) (hev : Quiet events) :
    Integrity env { s with store := st, log := s.log ++ events } := by
  have hlog : s.log ⊆ s.log ++ events := List.subset_append_left _ _
  have hcalls : s.calls ⊆ s.calls := List.Subset.refl _
  refine
    { calls_nodup := h.calls_nodup
      pushed_called := fun id hid => h.pushed_called id (hev.pushed_append.mp hid)
      mentioned := fun id hid => hlog ((hst.mentions hid).elim (fun h => h) (h.mentioned id))
      present := ?_
      records := ?_
      unpushed := ?_
      undropped := fun id hid => h.undropped id (hev.dropped_append.mp hid)
      producers := fun pc hpc => (h.producers pc hpc).quiet hev fun id hid => hst.jobs_eq hid
      distinct := h.distinct
      workers := fun wk hwk => (h.workers wk hwk).mono hcalls hlog
      schedulers := fun pc hpc => (h.schedulers pc hpc).mono hcalls hlog
      watchdogs := fun pc hpc => (h.watchdogs pc hpc).mono hcalls hlog
      retries := fun pc hpc => (h.retries pc hpc).mono hcalls hlog }
  · intro id hid
    refine hst.record (P := (· ≠ .absent)) (fun _ _ _ hf hne => ?_)
      (h.present id (hev.pushed_append.mp hid))
    cases hf <;> simp [JobHash.patch, JobHash.absent]
  · intro id
    -- a consumer touches only the records of pushed jobs
    by_cases hid : .pushed id ∈ s.log
    · obtain ⟨c, hc, hcid, hd⟩ := (h.records id).resolve_left (h.present id hid)
      exact .inr ⟨c, hc, hcid, hst.record (P := Describes env.json c) (fun _ _ _ hf hd => hd.patch hf) hd⟩
    · show st.jobs id = .absent ∨ ∃ c ∈ s.calls, c.id = id ∧ Describes env.json c (st.jobs id)
      rw [hst.jobs_eq hid]
      exact h.records id
  · intro id hid
    have hid : .pushed id ∉ s.log := mt hev.pushed_append.mpr hid
    show (st.jobs id).status = none ∨ _
    rw [hst.jobs_eq hid]
    exact h.unpushed id hid

theorem Integrity.setWorker (h : Integrity env s) {w : Nat} {wk : Worker T}
    (hwk : wk.pc.Fine env.json s.calls s.log) : Integrity env { s with workers := s.workers.set w wk } :=
  { h with
    workers := fun wk' hwk' =>
      (List.mem_or_eq_of_mem_set hwk').elim (h.workers wk') fun heq => heq ▸ hwk }

theorem Integrity.setScheduler (h : Integrity env s) {i : Nat} {pc : SchedulerPc}
    (hpc : pc.Fine s.calls s.log) : Integrity env { s with schedulers := s.schedulers.set i pc } :=
  { h with
    schedulers := fun pc' hpc' =>
      (List.mem_or_eq_of_mem_set hpc').elim (h.schedulers pc') fun heq => heq ▸ hpc }

theorem Integrity.setWatchdog (h : Integrity env s) {i : Nat} {pc : WatchdogPc}
    (hpc : pc.Fine env.json s.calls s.log) :
    Integrity env { s with watchdogs := s.watchdogs.set i pc } :=
  { h with
    watchdogs := fun pc' hpc' =>
      (List.mem_or_eq_of_mem_set hpc').elim (h.watchdogs pc') fun heq => heq ▸ hpc }

theorem Integrity.setRetry (h : Integrity env s) {i : Nat} {pc : RetryPc}
    (hpc : pc.Fine s.calls s.log) : Integrity env { s with retries := s.retries.set i pc } :=
  { h with
    retries := fun pc' hpc' =>
      (List.mem_or_eq_of_mem_set hpc').elim (h.retries pc') fun heq => heq ▸ hpc }

/-- The record of a pushed id. -/
theorem Integrity.describes (h : Integrity env s) {id : JobId} (hid : .pushed id ∈ s.log) :
    ∃ c ∈ s.calls, c.id = id ∧ Describes env.json c (s.store.jobs id) :=
  (h.records id).resolve_left (h.present id hid)

theorem quiet_nil : Quiet [] := nofun

theorem quiet_singleton {event : Event} (h : event.IsQuiet) : Quiet [event] := by
  intro event' hmem
  rwa [List.mem_singleton.mp hmem]

/-- A worker without a decoded job and without an attempts count to write. -/
theorem WorkerPc.Fine.of_pushed {json : Json T} {calls : List (Call T)} {log : List Event}
    {pc : WorkerPc T} (h : ∀ id, pc.jobId? = some id → .pushed id ∈ log) (hjob : pc.job? = none)
    (hnext : pc.nextAttempt? = none) : pc.Fine json calls log where
  pushed := h
  decoded id job h := by
    rw [hjob] at h
    cases h
  counted n h := by
    rw [hnext] at h
    cases h

/-- **A worker's command**: it is about pushed ids, and what the worker
remembers afterwards comes from a complete record. -/
theorem workerStep_fine (h : Integrity env s) {now w draw : Nat} {handlers : List String}
    {pc : WorkerPc T} {e : Effect (WorkerPc T)} (hpc : pc.Fine env.json s.calls s.log)
    (he : workerStep env now w draw handlers s.store pc = some e) :
    Consumes (fun id => .pushed id ∈ s.log) s.store e.store ∧ e.pc.Fine env.json s.calls s.log ∧
      Quiet e.events := by
  have hheld : ∀ id, pc.jobId? = some id → .pushed id ∈ s.log := hpc.pushed
  cases pc with
  | poll p =>
    rw [workerStep] at he
    split at he
    · next jobId st' hpop =>
      cases he
      have hid : .pushed jobId ∈ s.log := h.mentioned jobId (Store.mentions_of_rpoplpush hpop)
      exact ⟨.rpoplpush .refl hpop, .of_pushed (by rintro _ ⟨⟩; exact hid) rfl rfl,
        quiet_singleton trivial⟩
    · cases he
      exact ⟨.refl, .of_pushed nofun rfl rfl, quiet_nil⟩
  | fetch jobId =>
    have hid := hheld jobId rfl
    simp only [workerStep] at he
    split at he
    · cases he
      exact ⟨.refl, .of_pushed nofun rfl rfl, quiet_nil⟩
    · split at he
      · cases he
        exact ⟨.refl, .of_pushed nofun rfl rfl, quiet_nil⟩
      · next job hjob =>
        cases he
        obtain ⟨c, hc, hcid, hd⟩ := h.describes hid
        refine ⟨.refl, ⟨by rintro _ ⟨⟩; exact hid, ?_, nofun⟩, quiet_nil⟩
        rintro _ _ ⟨⟩
        exact ⟨c, hc, hcid, hd.decoded hjob⟩
  | markActive jobId job =>
    have hid := hheld jobId rfl
    cases he
    refine ⟨.hmset .refl hid (.status .active), ?_, quiet_nil⟩
    dsimp only
    split
    · exact ⟨hpc.pushed, hpc.decoded, nofun⟩
    · exact .of_pushed hpc.pushed rfl rfl
  | markFailed jobId =>
    have hid := hheld jobId rfl
    cases he
    exact ⟨.hmset .refl hid (.status .failed), .of_pushed nofun rfl rfl, quiet_nil⟩
  | register jobId job startedAt =>
    have hid := hheld jobId rfl
    cases he
    exact ⟨.hsetActive .refl hid, ⟨hpc.pushed, hpc.decoded, nofun⟩, quiet_singleton trivial⟩
  | beat jobId job =>
    cases he
    exact ⟨.setHeartbeat .refl, ⟨hpc.pushed, hpc.decoded, nofun⟩, quiet_singleton trivial⟩
  | running jobId job startTime => cases he
  | complete jobId elapsed =>
    have hid := hheld jobId rfl
    cases he
    exact ⟨.counters _ _ _ (.hmset .refl hid (.status .completed)), .of_pushed hpc.pushed rfl rfl,
      quiet_singleton trivial⟩
  | countFailure jobId job =>
    cases he
    refine ⟨.counters _ _ _ .refl, ?_, quiet_nil⟩
    -- `job.attempts + 1` is the successor of a decoded count
    obtain ⟨c, -, -, hd⟩ := hpc.decoded jobId job rfl
    obtain ⟨n, hn⟩ := hd.attempts
    have hnext : job.attempts.addOne = .int (n + 1 : Nat) := by rw [hn]; rfl
    dsimp only [retryOrBury]
    split
    · exact ⟨hpc.pushed, by rintro _ _ ⟨⟩, by rintro _ ⟨⟩; exact ⟨_, hnext⟩⟩
    · exact ⟨hpc.pushed, by rintro _ _ ⟨⟩, by rintro _ ⟨⟩; exact ⟨_, hnext⟩⟩
  | writeDelayed jobId nextAttempt delay =>
    have hid := hheld jobId rfl
    obtain ⟨n, rfl⟩ := hpc.counted nextAttempt rfl
    cases he
    refine ⟨?_, .of_pushed hpc.pushed rfl rfl, quiet_singleton trivial⟩
    rw [JsNumber.toString_natCast]
    exact .hmset .refl hid (.attempts .delayed n)
  | writeDead jobId nextAttempt =>
    have hid := hheld jobId rfl
    obtain ⟨n, rfl⟩ := hpc.counted nextAttempt rfl
    cases he
    refine ⟨?_, .of_pushed hpc.pushed rfl rfl, quiet_singleton trivial⟩
    rw [JsNumber.toString_natCast]
    exact .hmset .refl hid (.attempts .dead n)
  | zaddDelayed jobId score =>
    have hid := hheld jobId rfl
    cases he
    exact ⟨.zadd .refl hid, .of_pushed hpc.pushed rfl rfl, quiet_singleton trivial⟩
  | lpushDead jobId =>
    have hid := hheld jobId rfl
    cases he
    exact ⟨.lpush .refl hid, .of_pushed hpc.pushed rfl rfl, quiet_singleton trivial⟩
  | cleanup jobId =>
    cases he
    exact ⟨.lrem (.delHeartbeat (.hdelActive .refl)), .of_pushed nofun rfl rfl, quiet_nil⟩
  | crashed => cases he

theorem settleStep_fine {json : Json T} {calls : List (Call T)} {log : List Event} {now : Nat}
    {outcome : HandlerOutcome} {pc pc' : WorkerPc T} {events : List Event}
    (hpc : pc.Fine json calls log) (he : settleStep now outcome pc = some (pc', events)) :
    pc'.Fine json calls log ∧ Quiet events := by
  cases pc with
  | running jobId job startTime =>
    cases outcome with
    | resolve =>
      cases he
      exact ⟨.of_pushed hpc.pushed rfl rfl, quiet_singleton trivial⟩
    | reject =>
      cases he
      exact ⟨⟨hpc.pushed, hpc.decoded, nofun⟩, quiet_singleton trivial⟩
  | _ => cases he

theorem SchedulerPc.Fine.next {calls : List (Call T)} {log : List Event} {ids : List JobId}
    (h : ∀ id ∈ ids, .pushed id ∈ log) : (SchedulerPc.next ids).Fine calls log where
  pushed := by rwa [SchedulerPc.pending_next]
  priority id priority rest hpc := by cases ids <;> cases hpc

theorem WatchdogPc.Fine.next {json : Json T} {calls : List (Call T)} {log : List Event}
    {ids : List JobId} (h : ∀ id ∈ ids, .pushed id ∈ log) :
    (WatchdogPc.next ids).Fine json calls log where
  pushed := by rwa [WatchdogPc.pending_next]
  record id jobHash rest hpc := by cases ids <;> cases hpc

/-- **A scheduler pass**: the ids it reads are in the delayed set, the priority
it looks up is the one of the call. -/
theorem schedulerStep_fine (h : Integrity env s) (now : Nat) {pc : SchedulerPc}
    (hpc : pc.Fine s.calls s.log) :
    Consumes (fun id => .pushed id ∈ s.log) s.store (schedulerStep env now s.store pc).store ∧
      (schedulerStep env now s.store pc).pc.Fine s.calls s.log ∧
      Quiet (schedulerStep env now s.store pc).events := by
  cases pc with
  | idle =>
    refine ⟨.refl, .next fun id hid => ?_, quiet_nil⟩
    obtain ⟨score, hentry, -⟩ := ZSet.mem_zrangebyscore.mp hid
    exact h.mentioned id (.delayed _ (ZSet.mem_members.mpr ⟨score, hentry⟩))
  | lookup jobId rest =>
    obtain ⟨c, hc, hcid, hd⟩ := h.describes (hpc.pushed jobId List.mem_cons_self)
    refine ⟨.refl, ⟨hpc.pushed, ?_⟩, quiet_nil⟩
    rintro _ _ _ ⟨⟩
    exact ⟨c, hc, hcid, by rw [hd.priority, orNormal_name]⟩
  | move jobId priority rest =>
    have hid := hpc.pushed jobId List.mem_cons_self
    exact ⟨.hmset (.lpush (.zrem .refl) hid) hid (.status .waiting),
      .next fun id h => hpc.pushed id (List.mem_cons_of_mem _ h), quiet_singleton trivial⟩

/-- **A watchdog pass**: the record it reads before a transaction is complete,
so the transaction is always a requeue. -/
theorem watchdogStep_fine (h : Integrity env s) (now : Nat) {pc : WatchdogPc}
    (hpc : pc.Fine env.json s.calls s.log) :
    Consumes (fun id => .pushed id ∈ s.log) s.store (watchdogStep env now s.store pc).store ∧
      (watchdogStep env now s.store pc).pc.Fine env.json s.calls s.log ∧
      Quiet (watchdogStep env now s.store pc).events := by
  cases pc with
  | idle =>
    exact ⟨.refl, ⟨fun id hid => h.mentioned id (.active _ hid), by rintro _ _ _ ⟨⟩⟩, quiet_nil⟩
  | readProcessing activeIds =>
    refine ⟨.refl, ?_, quiet_nil⟩
    dsimp only [watchdogStep]
    split
    · exact ⟨nofun, by rintro _ _ _ ⟨⟩⟩
    · refine ⟨fun id hid => ?_, by rintro _ _ _ ⟨⟩⟩
      -- from the active jobs or from the processing list
      rcases List.mem_append.mp (mem_distinct.mp hid) with hid | hid
      · exact hpc.pushed id hid
      · exact h.mentioned id (.listed _ hid)
  | readHeartbeats jobIds =>
    exact ⟨.refl, .next fun id hid => hpc.pushed id (List.mem_filter.mp hid).1, quiet_nil⟩
  | inspect jobId rest =>
    obtain ⟨c, hc, hcid, hd⟩ := h.describes (hpc.pushed jobId List.mem_cons_self)
    refine ⟨.refl, ⟨hpc.pushed, ?_⟩, quiet_nil⟩
    rintro _ _ _ ⟨⟩
    exact ⟨c, hc, hcid, hd⟩
  | requeue jobId jobHash rest =>
    have hid := hpc.pushed jobId List.mem_cons_self
    obtain ⟨c, -, -, hd⟩ := hpc.record jobId jobHash rest rfl
    obtain ⟨n, hn⟩ := hd.attempts
    -- the count it writes is again a number in decimal
    have hattempts : (requeueAttempts jobHash).toString = Nat.repr (n + 1) := by
      rw [requeueAttempts, hn, parseIntField_repr]
      rfl
    refine ⟨?_, .next fun id h => hpc.pushed id (List.mem_cons_of_mem _ h), ?_⟩
    · rw [watchdogStep, requeueTransaction, hd.isEmpty, hattempts]
      exact .lpush (.hmset (.lrem (.hdelActive .refl)) hid (.attempts .waiting (n + 1))) hid
    · rw [watchdogStep, hd.isEmpty]
      exact quiet_singleton trivial

/-- **The read of a retry request**: a job with status `dead` or `failed` has been pushed. -/
theorem retryRequest_fine (h : Integrity env s) (id : JobId) :
    (retryRequest env s.store id).Fine s.calls s.log := by
  cases hpc : retryRequest env s.store id with
  | idle => exact ⟨nofun, nofun⟩
  | requeue id' priority =>
    obtain ⟨rfl, job, hjob, rfl, hstatus⟩ := retryRequest_eq_requeue hpc
    have hid : .pushed id' ∈ s.log := by
      by_contra hid
      have hjs := (deserializeJob_eq_ok hjob).2.2.1
      rcases h.unpushed id' hid with hs | hs <;> simp [hjs, hs] at hstatus
    obtain ⟨c, hc, hcid, hd⟩ := h.describes hid
    refine ⟨by rintro _ ⟨⟩; exact hid, ?_⟩
    rintro _ _ ⟨⟩
    exact ⟨c, hc, hcid, (hd.decoded hjob).priority⟩

theorem retryStep_fine {pc : RetryPc} {e : Effect RetryPc} (hpc : pc.Fine s.calls s.log)
    (he : retryStep env s.store pc = some e) :
    Consumes (fun id => .pushed id ∈ s.log) s.store e.store ∧ e.pc.Fine s.calls s.log ∧
      Quiet e.events := by
  cases pc with
  | idle => cases he
  | requeue id priority =>
    have hid := hpc.pushed id rfl
    cases he
    exact ⟨.lpush (.hmset (.lrem .refl) hid (.attempts .waiting 0)) hid, ⟨nofun, nofun⟩,
      quiet_singleton trivial⟩

end Consumers

/-! ## Steps of producers -/

section Producers

variable {env : Env T} {s s' : Config T}

/-- A producer that still works on an id has not pushed it. -/
theorem ProducerPc.Fine.not_pushed {calls : List (Call T)} {log : List Event}
    {jobs : JobId → JobHash} {pc : ProducerPc T} (h : pc.Fine calls log jobs) {id : JobId}
    (hid : pc.jobId? = some id) : .pushed id ∉ log := by
  cases pc with
  | idle => cases hid
  | save => cases hid; exact h.1
  | claim => cases hid; exact h.1
  | push => cases hid; exact h.1
  | discard => cases hid; exact h.1

theorem ProducerPc.Fine.called {calls : List (Call T)} {log : List Event}
    {jobs : JobId → JobHash} {pc : ProducerPc T} (h : pc.Fine calls log jobs) {id : JobId}
    (hid : pc.jobId? = some id) : id ∈ calls.map Call.id := by
  rw [List.mem_map]
  cases pc with
  | idle => cases hid
  | save => cases hid; exact h.2.imp fun c hc => ⟨hc.1, hc.2.1⟩
  | claim => cases hid; exact h.2.2.imp fun c hc => ⟨hc.1, hc.2.1⟩
  | push => cases hid; exact h.2.2.imp fun c hc => ⟨hc.1, hc.2.1⟩
  | discard => cases hid; exact h.2

/-- What the other producers rely on: their own ids, unpushed, with the record in place. -/
theorem ProducerPc.Fine.mono {calls calls' : List (Call T)} {log log' : List Event}
    {jobs jobs' : JobId → JobHash} {pc : ProducerPc T} (h : pc.Fine calls log jobs)
    (hcalls : calls ⊆ calls') (hlog : ∀ id, pc.jobId? = some id → .pushed id ∉ log')
    (hjobs : ∀ id, pc.jobId? = some id → jobs' id = jobs id) : pc.Fine calls' log' jobs' := by
  cases pc with
  | idle => trivial
  | save id job key =>
    obtain ⟨-, c, hc, h⟩ := h
    exact ⟨hlog id rfl, c, hcalls hc, h⟩
  | claim id job key =>
    obtain ⟨-, hpresent, c, hc, h⟩ := h
    exact ⟨hlog id rfl, hjobs id rfl ▸ hpresent, c, hcalls hc, h⟩
  | push id job =>
    obtain ⟨-, hpresent, c, hc, h⟩ := h
    exact ⟨hlog id rfl, hjobs id rfl ▸ hpresent, c, hcalls hc, h⟩
  | discard id claimedId =>
    obtain ⟨-, c, hc, h⟩ := h
    exact ⟨hlog id rfl, c, hcalls hc, h⟩

/-- Producers other than `i` work on other ids. -/
theorem Integrity.ne_of_distinct (h : Integrity env s) {i j : Nat} {pc pc' : ProducerPc T}
    {id id' : JobId} (hi : s.producers[i]? = some pc) (hid : pc.jobId? = some id) (hij : j ≠ i)
    (hj : s.producers[j]? = some pc') (hid' : pc'.jobId? = some id') : id' ≠ id := by
  rintro rfl
  exact hij (h.distinct j i pc' pc id' hj hi hid' hid)

/-- A producer's slot changes to a call state on the same id, or on none. -/
theorem Integrity.distinct_set (h : Integrity env s) {i : Nat} {pc pc' : ProducerPc T}
    (hi : s.producers[i]? = some pc) (hpc' : ∀ id, pc'.jobId? = some id → pc.jobId? = some id) :
    ∀ (j k : Nat) (qc qc' : ProducerPc T) (id : JobId), (s.producers.set i pc')[j]? = some qc →
      (s.producers.set i pc')[k]? = some qc' → qc.jobId? = some id → qc'.jobId? = some id →
        j = k := by
  -- the pc a slot had before holds the same id
  have hback : ∀ (j : Nat) (qc : ProducerPc T) (id : JobId),
      (s.producers.set i pc')[j]? = some qc → qc.jobId? = some id →
        ∃ qc₀, s.producers[j]? = some qc₀ ∧ qc₀.jobId? = some id := by
    intro j qc id hj hid
    rw [List.getElem?_set] at hj
    split at hj
    · next hij =>
      subst hij
      split at hj
      · cases hj
        exact ⟨pc, hi, hpc' id hid⟩
      · cases hj
    · exact ⟨qc, hj, hid⟩
  intro j k qc qc' id hj hk hid hid'
  obtain ⟨qc₀, hj₀, hid₀⟩ := hback j qc id hj hid
  obtain ⟨qc₁, hk₀, hid₁⟩ := hback k qc' id hk hid'
  exact h.distinct j k qc₀ qc₁ id hj₀ hk₀ hid₀ hid₁

/-- A producer's command on its id `id`: the record of `id` may appear or go, a
push comes after the record, and nobody else is concerned. -/
theorem Integrity.produce (h : Integrity env s) {i : Nat} {pc : ProducerPc T} {id : JobId}
    (hi : s.producers[i]? = some pc) (hid : pc.jobId? = some id) {e : Effect (ProducerPc T)}
    (hjobs : ∀ j, j ≠ id → e.store.jobs j = s.store.jobs j)
    (hrecord : e.store.jobs id = .absent ∨
      ∃ c ∈ s.calls, c.id = id ∧ Describes env.json c (e.store.jobs id))
    (hstatus : (e.store.jobs id).status = none ∨
      (e.store.jobs id).status = some JobStatus.waiting.name)
    (hpushed : ∀ j, .pushed j ∈ e.events → j = id ∧ e.store.jobs id ≠ .absent)
    (hdropped : ∀ j, .dropped j ∉ e.events)
    (hmentions : ∀ j, e.store.Mentions j → s.store.Mentions j ∨ .pushed j ∈ e.events)
    (hpc : e.pc.Fine s.calls (s.log ++ e.events) e.store.jobs)
    (hpc' : ∀ j, e.pc.jobId? = some j → pc.jobId? = some j) :
    Integrity env
      { s with
        store := e.store, producers := s.producers.set i e.pc, log := s.log ++ e.events } := by
  have hfine := h.producers pc (List.mem_of_getElem? hi)
  have hunpushed : .pushed id ∉ s.log := hfine.not_pushed hid
  have hlog : s.log ⊆ s.log ++ e.events := List.subset_append_left _ _
  have hcalls : s.calls ⊆ s.calls := List.Subset.refl _
  refine
    { calls_nodup := h.calls_nodup
      pushed_called := ?_
      mentioned := fun j hj =>
        List.mem_append.mpr ((hmentions j hj).imp_left (h.mentioned j))
      present := ?_
      records := ?_
      unpushed := ?_
      undropped := fun j hj => (List.mem_append.mp hj).elim (h.undropped j) (hdropped j)
      producers := ?_
      distinct := h.distinct_set hi hpc'
      workers := fun wk hwk => (h.workers wk hwk).mono hcalls hlog
      schedulers := fun pc hpc => (h.schedulers pc hpc).mono hcalls hlog
      watchdogs := fun pc hpc => (h.watchdogs pc hpc).mono hcalls hlog
      retries := fun pc hpc => (h.retries pc hpc).mono hcalls hlog }
  · intro j hj
    rcases List.mem_append.mp hj with hj | hj
    · exact h.pushed_called j hj
    · rw [(hpushed j hj).1]
      exact hfine.called hid
  · intro j hj
    by_cases hne : j = id
    · subst hne
      exact (hpushed j ((List.mem_append.mp hj).resolve_left hunpushed)).2
    · show e.store.jobs j ≠ .absent
      rw [hjobs j hne]
      exact h.present j ((List.mem_append.mp hj).resolve_right fun hj => hne (hpushed j hj).1)
  · intro j
    show e.store.jobs j = .absent ∨ ∃ c ∈ s.calls, c.id = j ∧ Describes env.json c (e.store.jobs j)
    by_cases hne : j = id
    · subst hne
      exact hrecord
    · rw [hjobs j hne]
      exact h.records j
  · intro j hj
    show (e.store.jobs j).status = none ∨ _
    by_cases hne : j = id
    · subst hne
      exact hstatus
    · rw [hjobs j hne]
      exact h.unpushed j fun hj' => hj (hlog hj')
  · intro qc hqc
    obtain ⟨j, hj⟩ := List.mem_iff_getElem?.mp hqc
    rw [List.getElem?_set] at hj
    split at hj
    · next hij =>
      split at hj
      · cases hj
        exact hpc
      · cases hj
    · next hij =>
      -- another producer: its id is another one
      have hqc := h.producers qc (List.mem_of_getElem? hj)
      have hne : ∀ j', qc.jobId? = some j' → j' ≠ id := fun j' hj' =>
        h.ne_of_distinct hi hid (Ne.symm hij) hj hj'
      refine hqc.mono hcalls (fun j' hj' hmem => ?_) fun j' hj' => hjobs j' (hne j' hj')
      rcases List.mem_append.mp hmem with hmem | hmem
      · exact hqc.not_pushed hj' hmem
      · exact hne j' hj' (hpushed j' hmem).1

/-- The script pushes the caller's id when the slot is free; otherwise it
answers with the holder, which has been pushed and is another id. -/
theorem Integrity.holder_ne (h : Integrity env s) {id holder : JobId} {key : String}
    (hid : .pushed id ∉ s.log)
    (hslot : Volatile.get? s.clock (s.store.idempotency key) = some holder) : holder ≠ id := by
  rintro rfl
  cases hv : s.store.idempotency key with
  | none =>
    rw [hv] at hslot
    cases hslot
  | some v =>
    have hvalue : v.value = holder := by
      rw [hv, Volatile.get?] at hslot
      split at hslot
      · exact Option.some.inj hslot
      · cases hslot
    exact hid (h.mentioned holder (.slot key v hv hvalue))

/-- **A producer's command** keeps the store in order. -/
theorem Integrity.producerStep (h : Integrity env s) {i : Nat} {pc : ProducerPc T}
    {e : Effect (ProducerPc T)} (hi : s.producers[i]? = some pc)
    (he : producerStep env s.clock s.store pc = some e) :
    Integrity env
      { s with
        store := e.store, producers := s.producers.set i e.pc, log := s.log ++ e.events } := by
  have hfine := h.producers pc (List.mem_of_getElem? hi)
  cases pc with
  | idle => cases he
  | save id job key =>
    obtain ⟨hid, c, hc, rfl, rfl, rfl⟩ := hfine
    cases he
    have hrecord : (s.store.hmset c.id (serializeJob env.json c.job)).jobs c.id =
        (s.store.jobs c.id).patch (serializeJob env.json c.job) := by simp [Store.hmset]
    have hd : Describes env.json c ((s.store.hmset c.id (serializeJob env.json c.job)).jobs c.id) := by
      rw [hrecord]
      -- `HMSET` writes every field of a job, so it describes it whatever was there
      exact describes_patch_serializeJob _
    refine h.produce hi rfl (fun j hj => by simp [Store.hmset, hj]) (.inr ⟨c, hc, rfl, hd⟩) ?_
      (by simp) (by simp) (fun j hj => .inl hj.of_hmset) ?_ ?_
    · rw [hrecord]
      exact .inr rfl
    · rw [List.append_nil]
      dsimp only
      split
      · next key hkey => exact ⟨hid, hd.ne_absent, c, hc, rfl, rfl, hkey⟩
      · next hkey => exact ⟨hid, hd.ne_absent, c, hc, rfl, rfl, hkey⟩
    · intro j hj
      dsimp only at hj
      split at hj <;> exact hj
  | claim id job key =>
    obtain ⟨hid, hpresent, c, hc, hcid, hjob, hkey⟩ := hfine
    have hrecord := h.records id
    cases hslot : Volatile.get? s.clock (s.store.idempotency key) with
    | none =>
      -- the key is free: the script sets it and pushes
      rw [producerStep_claim_free hslot] at he
      cases he
      refine h.produce hi rfl (fun j _ => ?_) ?_ ?_ ?_ (by simp) ?_ trivial
        (by rintro _ ⟨⟩)
      · rw [Store.jobs_idempotentEnqueue]
      · rw [Store.jobs_idempotentEnqueue]
        exact hrecord
      · rw [Store.jobs_idempotentEnqueue]
        exact h.unpushed id hid
      · intro j hj
        rw [Store.jobs_idempotentEnqueue]
        exact ⟨by simpa using hj, hpresent⟩
      · intro j hj
        exact hj.of_idempotentEnqueue.symm.imp_right fun h => by simp [h]
    | some holder =>
      -- it is held, and by another call: nothing was pushed for this id
      rw [producerStep_claim_held hslot (h.holder_ne hid hslot)] at he
      cases he
      refine h.produce hi rfl (fun j _ => rfl) hrecord (h.unpushed id hid) (by simp) (by simp)
        (fun j hj => .inl hj) ?_ fun j hj => hj
      rw [List.append_nil]
      exact ⟨hid, c, hc, hcid⟩
  | push id job =>
    obtain ⟨hid, hpresent, c, hc, hcid, hjob, hkey⟩ := hfine
    cases he
    refine h.produce hi rfl (fun j _ => rfl) (h.records id) (h.unpushed id hid) ?_ (by simp) ?_
      trivial (by rintro _ ⟨⟩)
    · intro j hj
      exact ⟨by simpa using hj, hpresent⟩
    · intro j hj
      exact hj.of_lpush.symm.imp_right fun h => by simp [h]
  | discard id claimedId =>
    obtain ⟨hid, c, hc, hcid⟩ := hfine
    cases he
    -- a losing call takes its record back, and nothing mentions it
    have habsent : (s.store.delJob id).jobs id = .absent := by simp [Store.delJob]
    refine h.produce hi rfl (fun j hj => by simp [Store.delJob, hj]) (.inl habsent) ?_ (by simp)
      (by simp) (fun j hj => .inl hj.of_delJob) trivial (by rintro _ ⟨⟩)
    rw [habsent]
    exact .inl rfl

/-- A call starts: its id is new to everybody. -/
theorem Integrity.enqueue (h : Integrity env s) {i : Nat} {id : JobId} {call : EnqueueCall T}
    (hid : id ∉ s.calls.map Call.id) :
    Integrity env
      { s with
        producers := s.producers.set i (.save id (call.job id s.clock) call.idempotencyKey)
        calls := s.calls ++ [⟨id, call, s.clock⟩] } := by
  have hcalls : s.calls ⊆ s.calls ++ [⟨id, call, s.clock⟩] := List.subset_append_left _ _
  have hlog : s.log ⊆ s.log := List.Subset.refl _
  have hunpushed : .pushed id ∉ s.log := mt (h.pushed_called id) hid
  have hnew : (⟨id, call, s.clock⟩ : Call T) ∈ s.calls ++ [⟨id, call, s.clock⟩] := by simp
  refine
    { h with
      calls_nodup := ?_
      pushed_called := fun j hj => ?_
      records := fun j => (h.records j).imp_right fun ⟨c, hc, hd⟩ => ⟨c, hcalls hc, hd⟩
      producers := ?_
      distinct := ?_
      workers := fun wk hwk => (h.workers wk hwk).mono hcalls hlog
      schedulers := fun pc hpc => (h.schedulers pc hpc).mono hcalls hlog
      watchdogs := fun pc hpc => (h.watchdogs pc hpc).mono hcalls hlog
      retries := fun pc hpc => (h.retries pc hpc).mono hcalls hlog }
  · rw [List.map_append]
    exact List.Nodup.append h.calls_nodup (List.nodup_singleton _)
      (List.disjoint_singleton.mpr hid)
  · rw [List.map_append]
    exact List.mem_append_left _ (h.pushed_called j hj)
  · intro qc hqc
    rcases List.mem_or_eq_of_mem_set hqc with hqc | rfl
    · have hqc := h.producers qc hqc
      exact hqc.mono hcalls (fun j hj => hqc.not_pushed hj) fun _ _ => rfl
    · exact ⟨hunpushed, _, hnew, rfl, rfl, rfl⟩
  · -- a producer that was there works on a called id
    have hold : ∀ (j : Nat) (qc : ProducerPc T), s.producers[j]? = some qc → qc.jobId? ≠ some id :=
      fun j qc hj heq => hid ((h.producers qc (List.mem_of_getElem? hj)).called heq)
    intro j k qc qc' id' hj hk hid₁ hid₂
    rw [List.getElem?_set] at hj hk
    by_cases hij : i = j
    · by_cases hik : i = k
      · rw [← hij, ← hik]
      · rw [if_neg hik] at hk
        rw [if_pos hij] at hj
        split at hj
        · cases hj
          cases hid₁
          exact absurd hid₂ (hold k qc' hk)
        · cases hj
    · rw [if_neg hij] at hj
      by_cases hik : i = k
      · rw [if_pos hik] at hk
        split at hk
        · cases hk
          cases hid₂
          exact absurd hid₁ (hold j qc hj)
        · cases hk
      · rw [if_neg hik] at hk
        exact h.distinct j k qc qc' id' hj hk hid₁ hid₂

/-- A producer dies: its call is never finished. -/
theorem Integrity.crashProducer (h : Integrity env s) {i : Nat} {pc : ProducerPc T}
    (hi : s.producers[i]? = some pc) :
    Integrity env { s with producers := s.producers.set i .idle } := by
  refine { h with producers := fun qc hqc => ?_, distinct := h.distinct_set hi nofun }
  rcases List.mem_or_eq_of_mem_set hqc with hqc | rfl
  · exact h.producers qc hqc
  · trivial

end Producers

/-! ## All runs -/

section Runs

variable {env : Env T} {s s' : Config T}

/-- What a step of anybody but a producer is: commands about pushed jobs. -/
structure ConsumerStep (s s' : Config T) : Prop where
  producers : s'.producers = s.producers
  calls : s'.calls = s.calls
  store : Consumes (fun id => .pushed id ∈ s.log) s.store s'.store
  log : ∃ events, Quiet events ∧ s'.log = s.log ++ events

/-- A step is a producer's, or it is a consumer's. -/
theorem Integrity.consumerStep {a : Action T} (h : Integrity env s) (hs : step env s a = some s')
    (henqueue : ∀ i id call, a ≠ .enqueue i id call) (hproduce : ∀ i, a ≠ .produce i)
    (hcrash : ∀ i, a ≠ .crash (.producer i)) : ConsumerStep s s' := by
  have hsame : ∃ events, Quiet events ∧ s.log = s.log ++ events :=
    ⟨[], quiet_nil, (List.append_nil _).symm⟩
  cases stepped hs with
  | enqueue => exact absurd rfl (henqueue _ _ _)
  | produce => exact absurd rfl (hproduce _)
  | crashProducer => exact absurd rfl (hcrash _)
  | @work w draw wk e hw he =>
    obtain ⟨hst, -, hev⟩ := workerStep_fine h (h.workers wk (List.mem_of_getElem? hw)) he
    exact ⟨rfl, rfl, hst, _, hev, rfl⟩
  | @settle w outcome wk pc events hw he =>
    obtain ⟨-, hev⟩ := settleStep_fine (h.workers wk (List.mem_of_getElem? hw)) he
    exact ⟨rfl, rfl, .refl, _, hev, rfl⟩
  | renew => exact ⟨rfl, rfl, .setHeartbeat .refl, hsame⟩
  | @schedule i pc hi =>
    obtain ⟨hst, -, hev⟩ := schedulerStep_fine h s.clock
      (h.schedulers pc (List.mem_of_getElem? hi))
    exact ⟨rfl, rfl, hst, _, hev, rfl⟩
  | @watch i pc hi =>
    obtain ⟨hst, -, hev⟩ := watchdogStep_fine h s.clock
      (h.watchdogs pc (List.mem_of_getElem? hi))
    exact ⟨rfl, rfl, hst, _, hev, rfl⟩
  | @respond i pc e hi he =>
    obtain ⟨hst, -, hev⟩ := retryStep_fine (h.retries pc (List.mem_of_getElem? hi)) he
    exact ⟨rfl, rfl, hst, _, hev, rfl⟩
  | _ => exact ⟨rfl, rfl, .refl, hsame⟩

/-- **Every step of every component keeps the invariant.** -/
theorem integrity_step {a : Action T} (h : Integrity env s) (hs : step env s a = some s') :
    Integrity env s' := by
  have hlog : ∀ events : List Event, s.log ⊆ s.log ++ events :=
    fun _ => List.subset_append_left _ _
  have hcalls : s.calls ⊆ s.calls := List.Subset.refl _
  cases stepped hs with
  | tick ms => exact { h with }
  | enqueue hi hid => exact h.enqueue hid
  | produce hi he => exact h.producerStep hi he
  | @work w draw wk e hw he =>
    obtain ⟨hst, hpc, hev⟩ := workerStep_fine h (h.workers wk (List.mem_of_getElem? hw)) he
    exact (h.consume hst hev).setWorker (hpc.mono hcalls (hlog _))
  | @settle w outcome wk pc events hw he =>
    obtain ⟨hpc, hev⟩ := settleStep_fine (h.workers wk (List.mem_of_getElem? hw)) he
    exact (h.consume .refl hev).setWorker (hpc.mono hcalls (hlog _))
  | @renew w wk id hw hid =>
    have hst : Consumes (fun id => .pushed id ∈ s.log) s.store
        (s.store.setHeartbeat s.clock env.config.heartbeatTtlSec id) := .setHeartbeat .refl
    have hi := h.consume hst quiet_nil
    rwa [List.append_nil] at hi
  | @process w type wk hw => exact h.setWorker (h.workers wk (List.mem_of_getElem? hw))
  | @schedule i pc hi =>
    obtain ⟨hst, hpc, hev⟩ := schedulerStep_fine h s.clock
      (h.schedulers pc (List.mem_of_getElem? hi))
    exact (h.consume hst hev).setScheduler (hpc.mono hcalls (hlog _))
  | @watch i pc hi =>
    obtain ⟨hst, hpc, hev⟩ := watchdogStep_fine h s.clock
      (h.watchdogs pc (List.mem_of_getElem? hi))
    exact (h.consume hst hev).setWatchdog (hpc.mono hcalls (hlog _))
  | @request i id hi => exact h.setRetry (retryRequest_fine h id)
  | @respond i pc e hi he =>
    obtain ⟨hst, hpc, hev⟩ := retryStep_fine (h.retries pc (List.mem_of_getElem? hi)) he
    exact (h.consume hst hev).setRetry (hpc.mono hcalls (hlog _))
  -- a crash loses what the component remembers, nothing else
  | crashProducer hi => exact h.crashProducer hi
  | crashWorker hw => exact h.setWorker (.of_pushed nofun rfl rfl)
  | crashScheduler hi => exact h.setScheduler ⟨nofun, nofun⟩
  | crashWatchdog hi => exact h.setWatchdog ⟨nofun, by rintro _ _ _ ⟨⟩⟩
  | crashRetry hi => exact h.setRetry ⟨nofun, nofun⟩

/-- The invariant holds in every state of every run. -/
theorem integrity_run {topology : Topology} {ok : Config T → Action T → Prop}
    (h : Reach (step env) ok (init topology) s) : Integrity env s :=
  h.invariant (integrity_init env topology) fun _ _ _ hI _ hs => integrity_step hI hs

/-- What a state owes to readers of the store: records behind every id, and
priorities wherever the code has a default for a missing one. -/
structure Refers (env : Env T) (s : Config T) : Prop where
  described : ∀ id, s.store.Mentions id →
    ∃ c ∈ s.calls, c.id = id ∧ Describes env.json c (s.store.jobs id)
  /-- The record a watchdog requeues by is there, with its priority. -/
  requeue : ∀ id jobHash rest, .requeue id jobHash rest ∈ s.watchdogs →
    jobHash.isEmpty = false ∧ ∃ p : JobPriority, jobHash.priority = some p.name
  undropped : ∀ id, .dropped id ∉ s.log
  /-- `processJob` finds the record it fetches. -/
  fetch : ∀ wk ∈ s.workers, ∀ id, wk.pc = .fetch id → (s.store.jobs id).isEmpty = false
  /-- A scheduler pass finds the priority it looks up. -/
  lookup : ∀ id rest, .lookup id rest ∈ s.schedulers →
    ∃ p : JobPriority, (s.store.jobs id).priority = some p.name
  /-- `deserializeJob` is never given a record without a priority. -/
  decode : ∀ id, (s.store.jobs id).isEmpty = false →
    ∃ p : JobPriority, (s.store.jobs id).priority = some p.name

/-- **Referential integrity.** In every reachable state, whatever the components
do and whichever of them crash, every id the store mentions has the complete
record of an `enqueue` call: eight fields, one of the six statuses, the priority
of the call, a natural number of attempts. -/
theorem store_refers {topology : Topology}
    (h : Reach (step env) (fun _ _ => True) (init topology) s) : Refers env s := by
  have hI := integrity_run h
  refine
    { described := fun id hid => hI.describes (hI.mentioned id hid)
      requeue := fun id jobHash rest hmem => ?_
      undropped := hI.undropped
      fetch := fun wk hwk id hpc => ?_
      lookup := fun id rest hmem => ?_
      decode := fun id hid => ?_ }
  · obtain ⟨c, -, -, hd⟩ := (hI.watchdogs _ hmem).record id jobHash rest rfl
    exact ⟨hd.isEmpty, _, hd.priority⟩
  · have hpushed := (hI.workers wk hwk).pushed id (by rw [hpc]; rfl)
    obtain ⟨c, -, -, hd⟩ := hI.describes hpushed
    exact hd.isEmpty
  · have hpushed := (hI.schedulers _ hmem).pushed id List.mem_cons_self
    obtain ⟨c, -, -, hd⟩ := hI.describes hpushed
    exact ⟨_, hd.priority⟩
  · obtain ⟨c, -, -, hd⟩ := (hI.records id).resolve_left (of_decide_eq_false hid)
    exact ⟨_, hd.priority⟩

end Runs

theorem store_refers_enqueued :
    ∃ s, Refers mainQueue s ∧ s.store.lists (.waitingList "main_queue" "normal") = ["a"] := by
  obtain ⟨s, hs, hlist⟩ := exists_reach_of_run (step mainQueue) (fun _ _ => True)
    (init ⟨1, [["mail"]], 0, 0, 0⟩)
    (fun s => s.store.lists (.waitingList "main_queue" "normal") = ["a"])
    [.enqueue 0 "a" (.core "mail" () .absent none), .produce 0, .produce 0] (by decide +kernel)
  exact ⟨s, store_refers hs, hlist⟩

end DistriSys
