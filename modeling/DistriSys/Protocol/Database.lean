import DistriSys.Protocol.Listing
import DistriSys.Protocol.Raw

/-!
# The database in every run

Two consequences of `raw_runs`. **`database_typed`**: in every run, whatever crashes and
whichever commands are rejected, the database holds nothing but the keys of `RedisKeys`, each
with a value of its type, and Redis never answers the next request of anybody with an error.
**`routes_agree`**: the routes that read answer over the database what they answer over the
store, and write nothing.

The one error Redis can give is on a range of `GET /jobs` whose bounds are no integers of 64
bits: the query parameters are the client's. It changes nothing, and the route answers 500
(`RefusedPage`). Everybody else sends positions the code itself has written.

- `Encodes.permits`: what encodes a store has the types;
- `answers_of_rel`: a request that follows the typed model has a reply;
- `readOnly_…`, `completes_…`: each route writes nothing and answers as it should.
-/

namespace DistriSys

open Js Redis Redis.Request Transition

variable {T : Type}

/-! ## Types -/

/-- What may stand under a key. Only heartbeats and idempotency keys expire. -/
def RedisKey.Permits : RedisKey → Value → Prop
  | jobHash _, .hash fields =>
    fields.entries ≠ [] ∧ ∀ key ∈ fields.keys, ∃ field : JobField, field.name = key
  | waitingList _ _, .list ids => ids ≠ []
  | processingList _, .list ids => ids ≠ []
  | deadList _, .list ids => ids ≠ []
  | delayedSet _, .zset members => members.entries ≠ []
  | activeJobsHash _, .hash fields => fields.entries ≠ []
  | heartbeat _, .string value (some _) => value = "1"
  | idempotency _, .string _ (some _) => True
  | jobsProcessedTotal, .string value none => ∃ n : Nat, value = n.repr
  | jobsFailedTotal, .string value none => ∃ n : Nat, value = n.repr
  | processingTimeSum, .string value none => ∃ n : Nat, value = n.repr
  | _, _ => False

section Permits

variable {k : RedisKey} {v : Value}

theorem permits_of_counter {n : Nat} (h : IsCounter (some v) n) : v = .string n.repr none := by
  rcases h with ⟨hv, -⟩ | hv
  · cases hv
  · exact Option.some.inj hv

theorem RedisKey.permits_of_holds {st : Store} (h : k.Holds st (some v)) : k.Permits v := by
  cases k with
  | jobHash id =>
    obtain ⟨fields, hv, hr⟩ := h
    obtain ⟨hne, rfl⟩ := Collection.hashes_write_eq_some.mp hv.symm
    refine ⟨hne, fun key hkey => ?_⟩
    obtain ⟨⟨key, value⟩, hmem, rfl⟩ := List.mem_map.mp hkey
    obtain ⟨field, hname, -⟩ := (hr key value).mp hmem
    exact ⟨field, hname⟩
  -- a key that exists holds something: Redis deletes empty collections
  | waitingList | processingList | deadList =>
    obtain ⟨hne, rfl⟩ := Collection.lists_write_eq_some.mp h.symm
    exact hne
  | delayedSet =>
    obtain ⟨hne, rfl⟩ := Collection.zsets_write_eq_some.mp h.symm
    exact hne
  | activeJobsHash =>
    obtain ⟨hne, rfl⟩ := Collection.hashes_write_eq_some.mp h.symm
    exact hne
  | heartbeat =>
    obtain ⟨beat, -, rfl⟩ := Option.map_eq_some_iff.mp h.symm
    rfl
  | idempotency =>
    obtain ⟨slot, -, rfl⟩ := Option.map_eq_some_iff.mp h.symm
    trivial
  | jobsProcessedTotal | jobsFailedTotal | processingTimeSum =>
    obtain rfl := permits_of_counter h
    exact ⟨_, rfl⟩

theorem Encodes.permits {db : Database} {st : Store} {key : String} (h : Encodes db st)
    (hv : db key = some v) : ∃ k : RedisKey, k.name = key ∧ k.Permits v := by
  by_cases hkey : ∃ k : RedisKey, k.name = key
  · obtain ⟨k, rfl⟩ := hkey
    exact ⟨k, rfl, RedisKey.permits_of_holds (hv ▸ h.held k)⟩
  · rw [h.known key fun k hk => hkey ⟨k, hk⟩] at hv
    cases hv

end Permits

/-! ## Answers -/

/-- Redis answers every command of the request. -/
def Raw.Config.Answers {α : Type} (f : Raw.Config T) (x : Request α) : Prop :=
  ∃ answer, x f.clock f.db = some answer

section Answers

variable {Pc : Type} {f : Raw.Config T} {st : Store} {x : Request (Pc × List Event)}

/-- A request that follows the model has a reply. -/
theorem answers_of_follows {e : Effect Pc} (h : Encodes f.db st) (hx : Raw.Follows f.clock st x e) :
    f.Answers x := by
  obtain ⟨answer, db', hx, -⟩ := hx f.db h
  exact ⟨_, hx⟩

/-- So has the next request of a component, if it is at one. -/
theorem answers_of_rel {request : Option (Request (Pc × List Event))} {e : Option (Effect Pc)}
    (h : Encodes f.db st) (hrel : Option.Rel (Raw.Follows f.clock st) request e)
    (hx : x ∈ request) : f.Answers x := by
  obtain rfl : request = some x := hx
  obtain ⟨e, -, hfollows⟩ := exists_of_rel hrel
  exact answers_of_follows h hfollows

end Answers

/-- **No command finds a value of the wrong type.** In every run, whatever crashes and whichever
commands are rejected: under every key of the database stands a value that the key permits, so
no list, set or hash is empty and no counter is anything but a number, and Redis can carry out
the next request of every producer, worker, scheduler, watchdog and retry request, and the
first read of any new one. -/
theorem database_typed {env : Env T} {topology : Topology} {f : Raw.Faulty T}
    (h : Reach (Raw.faultyStep env) (fun _ _ => True) (Raw.Faulty.init topology) f) :
    (∀ key v, f.config.db key = some v → ∃ k : RedisKey, k.name = key ∧ k.Permits v) ∧
    (∀ pc ∈ f.config.producers, ∀ x ∈ Raw.producerStep env pc, f.config.Answers x) ∧
    (∀ w draw, ∀ wk ∈ f.config.workers,
      ∀ x ∈ Raw.workerStep env f.config.clock w draw wk.handlers wk.pc, f.config.Answers x) ∧
    (∀ pc ∈ f.config.schedulers, f.config.Answers (Raw.schedulerStep env f.config.clock pc)) ∧
    (∀ pc ∈ f.config.watchdogs, f.config.Answers (Raw.watchdogStep env pc)) ∧
    (∀ pc ∈ f.config.retries, ∀ x ∈ Raw.retryStep env pc, f.config.Answers x) ∧
    ∀ id, f.config.Answers (Raw.retryRequest env id) := by
  obtain ⟨_, -, ⟨st, hdb, rfl⟩, hsound⟩ := Raw.raw_reach h
  have hI := hsound.integrity
  -- each component's next request is the one of the typed model
  refine ⟨fun key v hv => hdb.permits hv, ?_, ?_, ?_, ?_, ?_, ?_⟩
  · intro pc hpc x hx
    exact answers_of_rel hdb (Raw.producer_follows (hI.producers pc hpc)) hx
  · intro w draw wk _ x hx
    exact answers_of_rel hdb (Raw.worker_follows env _ w draw wk.handlers st wk.pc) hx
  · intro pc hpc
    exact answers_of_follows hdb (Raw.scheduler_follows (hI.schedulers pc hpc))
  · intro pc hpc
    exact answers_of_follows hdb (Raw.watchdog_follows (hI.watchdogs pc hpc))
  · intro pc hpc x hx
    exact answers_of_rel hdb (Raw.retry_follows (hI.retries pc hpc)) hx
  · intro id
    obtain ⟨pc, db, hx, -⟩ := Raw.completes_retryRequest env id _ hdb
    exact ⟨_, hx⟩

/-- After `rejectSuccess` the delayed set and the processing list are there, with one job. -/
theorem database_typed_success : ∃ f : Raw.Faulty Unit,
    (f.config.db "queue:main_queue:delayed").isSome ∧
      (∀ v, f.config.db "queue:main_queue:delayed" = some v →
        ∃ k : RedisKey, k.name = "queue:main_queue:delayed" ∧ k.Permits v) ∧
      ∀ pc ∈ f.config.schedulers, f.config.Answers (Raw.schedulerStep mainQueue f.config.clock pc) := by
  obtain ⟨f, hf, hdelayed⟩ :=
    exists_reach_of_run (Raw.faultyStep mainQueue) (fun _ _ => True)
      (Raw.Faulty.init ⟨1, [["mail"]], 1, 1, 0⟩)
      (fun f => (f.config.db "queue:main_queue:delayed").isSome)
      rejectSuccess (by decide +kernel)
  have htyped := database_typed hf
  exact ⟨f, hdelayed, htyped.1 _, htyped.2.2.2.1⟩

/-! ## Routes -/

section Routes

variable {env : Env T} {now : Nat} {st : Store}

/-- `GET /jobs/:id` only reads. -/
theorem readOnly_getJob (json : Json T) (id : JobId) : ReadOnly (Raw.getJob json id) := by
  refine (ReadOnly.view _ _ _).bind fun hash => ?_
  split
  · exact .pure _
  · exact .pure _

/-- A counter is read back as the number it is; absent, it reads as zero. -/
theorem completes_counter {key : String} {n : Nat}
    (h : ∀ db, Encodes db st → IsCounter (db key) n) :
    Completes now (Encodes · st) (Request.get key) fun answer db =>
      Encodes db st ∧ (parseInt (Raw.orZero answer)).toNat = n := by
  intro db hdb
  obtain ⟨answer, hget, hn⟩ := get_counter (h db hdb)
  exact ⟨answer, db, hget, hdb, hn⟩

theorem readOnly_stats (env : Env T) : ReadOnly (Raw.stats env) :=
  (ReadOnly.view _ _ _).bind fun _ => (ReadOnly.view _ _ _).bind fun _ =>
    (ReadOnly.view _ _ _).bind fun _ => (ReadOnly.view _ _ _).bind fun _ =>
      (ReadOnly.view _ _ _).bind fun _ => (ReadOnly.get _).bind fun _ =>
        (ReadOnly.get _).bind fun _ => (ReadOnly.get _).bind fun _ => .pure _

/-- `GET /stats`, command by command. -/
theorem completes_stats (env : Env T) :
    Completes now (Encodes · st) (Raw.stats env) fun answer db =>
      Encodes db st ∧ answer = stats env st := by
  have hllen : ∀ p : JobPriority, Completes now (Encodes · st)
      (Request.llen (RedisKeys.waitingList env.queueName p.name)) _ :=
    fun p => completes_llen (l := .waitingList env.queueName p.name) ⟨p, rfl⟩
  have hdead : Completes now (Encodes · st) (Request.llen (RedisKeys.deadList env.queueName)) _ :=
    completes_llen (l := .deadList env.queueName) trivial
  -- the nine commands of the transaction, none of which writes
  refine (hllen .high).bind fun high => ?_
  rintro db ⟨h, rfl⟩
  refine ((hllen .normal).bind fun normal => ?_) db h
  rintro db ⟨h, rfl⟩
  refine ((hllen .low).bind fun low => ?_) db h
  rintro db ⟨h, rfl⟩
  refine (completes_zcard.bind fun delayed => ?_) db h
  rintro db ⟨h, rfl⟩
  refine (hdead.bind fun dead => ?_) db h
  rintro db ⟨h, rfl⟩
  refine ((completes_counter fun _ h => h.held .jobsProcessedTotal).bind fun processed => ?_) db h
  rintro db ⟨h, hprocessed⟩
  refine ((completes_counter fun _ h => h.held .jobsFailedTotal).bind fun failed => ?_) db h
  rintro db ⟨h, hfailed⟩
  refine ((completes_counter fun _ h => h.held .processingTimeSum).bind fun timeSum => ?_) db h
  rintro db ⟨h, htimeSum⟩
  refine ⟨_, db, rfl, h, ?_⟩
  simp only [hprocessed, hfailed, htimeSum]
  rfl

/-! ### The listing -/

/-- What the route calls the source. -/
def ListingSource.key : ListingSource → String × Bool
  | list listKey => (listKey.name, false)
  | zset queue => (RedisKeys.delayedSet queue, true)

/-- A waiting list of a priority there is. -/
def ListingSource.Proper : ListingSource → Prop
  | list listKey => listKey.Proper
  | zset _ => True

/-- The route picks the same list in both models. -/
theorem listingKey_eq (queue : QueueName) (status : Option String) :
    Raw.listingKey queue status = (listingSource queue status).map ListingSource.key := by
  unfold Raw.listingKey listingSource
  split_ifs <;> rfl

/-- Its list is one with a key of its own. -/
theorem listingSource_proper {queue : QueueName} {status : Option String} {source : ListingSource}
    (h : listingSource queue status = some source) : source.Proper := by
  unfold listingSource at h
  split_ifs at h <;> cases h
  · trivial
  · trivial
  · trivial
  · exact ⟨.normal, rfl⟩
  · exact ⟨.high, rfl⟩
  · exact ⟨.low, rfl⟩

theorem readOnly_listRecords (json : Json T) (ids : List JobId) :
    ReadOnly (Raw.listRecords json ids) := by
  unfold Raw.listRecords
  split
  · exact .pure _
  · refine (ReadOnly.mapM (fun id => .view _ _ _) ids).bind fun results => ?_
    split
    · exact .pure _
    · exact .pure _

theorem readOnly_listJobs (env : Env T) (status limit offset : Option String) :
    ReadOnly (Raw.listJobs env status limit offset) := by
  unfold Raw.listJobs
  split
  · exact .pure _
  · dsimp only
    split
    · exact (ReadOnly.viewOrError _ _ _).bind fun ids => readOnly_listRecords env.json ids
    · exact (ReadOnly.viewOrError _ _ _).bind fun ids => readOnly_listRecords env.json ids

/-- The records of a page decode the same way. -/
theorem mapM_listedJob (json : Json T) {ids : List JobId} {results : List (Hash String String)}
    (h : List.Forall₂ (fun id hash => IsRecord hash (st.jobs id)) ids results) :
    (results.mapM fun hash =>
      if hash.entries = [] then .ok none else listedJob json (.ofHash hash)) =
      ids.mapM fun id => listedJob json (st.jobs id) := by
  induction h with
  | nil => rfl
  | @cons id hash ids results hr _ ih =>
    rw [List.mapM_cons, List.mapM_cons, ih]
    split
    · next hempty => rw [listedJob, if_pos (hr.isEmpty_iff.mp hempty)]
    · rw [hr.ofHash_eq]

/-- The records of a page, one `HGETALL` after the other. -/
theorem completes_listRecords (json : Json T) (ids : List JobId) :
    Completes now (Encodes · st) (Raw.listRecords json ids) fun answer db =>
      Encodes db st ∧ answer = listRecords json st ids := by
  unfold Raw.listRecords listRecords
  split
  · exact .pure fun _ h => ⟨h, rfl⟩
  · refine (Completes.mapM fun id _ => completes_hgetall).bind fun results => ?_
    rintro db ⟨h, hresults⟩
    dsimp only
    rw [mapM_listedJob json hresults]
    cases ids.mapM fun id => listedJob json (st.jobs id) with
    | error e => exact ⟨_, db, rfl, h, rfl⟩
    | ok jobs => exact ⟨_, db, rfl, h, rfl⟩

/-- The range of a listing, on the key the route reads, and what follows. -/
theorem range_bind {β : Type} {source : ListingSource} (hproper : source.Proper) {db : Database}
    (h : Encodes db st) (start stop : Option Int) (f : List JobId → Request β) :
    (if source.key.2 then zrange source.key.1 start stop >>= f
      else Request.lrange source.key.1 start stop >>= f) now db =
      (Redis.lrange (source.ids st) start stop).bind fun ids => f ids now db := by
  cases source with
  | list listKey =>
    show Option.bind (Request.lrange listKey.name start stop now db) _ = _
    rw [Request.lrange, viewOrError_eq (h.list hproper), Option.bind_map]
    rfl
  | zset queue =>
    have hheld : db (RedisKeys.delayedSet queue) = Collection.zsets.write (st.delayed queue) :=
      h.held (.delayedSet queue)
    show Option.bind (zrange (RedisKeys.delayedSet queue) start stop now db) _ = _
    rw [zrange, viewOrError_eq hheld, Option.bind_map]
    rfl

/-- The listing, command by command. -/
theorem listJobs_agrees (now : Nat) (env : Env T) (status limit offset : Option String)
    {db : Database} (h : Encodes db st) :
    Raw.answered (Raw.listJobs env status limit offset now db) =
        listJobs env st status limit offset ∧
      (Raw.listJobs env status limit offset now db = none ↔
        (listingSource env.queueName status).isSome = true ∧ RefusedPage limit offset) := by
  unfold Raw.listJobs listJobs
  rw [listingKey_eq]
  cases hsource : listingSource env.queueName status with
  | none => exact ⟨rfl, by simp [pure, ReaderT.pure, StateT.pure]⟩
  | some source =>
    rw [← lrange_eq_none_iff (source.ids st) limit offset]
    dsimp only [Option.map_some]
    -- the range is the first command; the records are read only if it has a reply
    rw [range_bind (listingSource_proper hsource) h]
    split
    · next ids hids =>
      obtain ⟨reply, db', hreply, -, rfl⟩ := completes_listRecords env.json ids db h
      rw [hids, Option.bind_some, hreply]
      exact ⟨rfl, by simp⟩
    · next hnone =>
      rw [hnone]
      exact ⟨rfl, by simp⟩

end Routes

/-- **The dashboard reads what is there.** Every state of a run over the database is one of a
run over the store, and there `GET /jobs/:id`, `GET /stats` and `GET /jobs` answer, for every
id and all query parameters, what they answer over the store, and write nothing. Redis answers
with an error only where a listing is asked for with a bound it refuses. -/
theorem routes_agree {env : Env T} {topology : Topology} {f : Raw.Faulty T}
    (h : Reach (Raw.faultyStep env) (fun _ _ => True) (Raw.Faulty.init topology) f) :
    ∃ r, Reach (faultyStep env) (fun _ _ => True) (Faulty.init topology) r ∧
      Raw.Corresponds f r ∧
      (∀ id, Raw.getJob env.json id f.config.clock f.config.db =
        some (getJob env.json r.config.store id, f.config.db)) ∧
      Raw.stats env f.config.clock f.config.db =
        some (stats env r.config.store, f.config.db) ∧
      ∀ status limit offset,
        Raw.answered (Raw.listJobs env status limit offset f.config.clock f.config.db) =
            listJobs env r.config.store status limit offset ∧
          (∀ reply db, Raw.listJobs env status limit offset f.config.clock f.config.db =
            some (reply, db) → db = f.config.db) ∧
          (Raw.listJobs env status limit offset f.config.clock f.config.db = none ↔
            (listingSource env.queueName status).isSome = true ∧ RefusedPage limit offset) := by
  obtain ⟨r, hr, hsame, -⟩ := Raw.raw_reach h
  obtain ⟨st, hdb, rfl⟩ := hsame
  -- a route that only reads answers as on the store and leaves the database it found
  refine ⟨_, hr, ⟨st, hdb, rfl⟩, fun id => ?_, ?_, fun status limit offset => ?_⟩
  · obtain ⟨_, hx, -, rfl⟩ :=
      (readOnly_getJob env.json id).eq_of_completes (Raw.completes_getJob env.json id) hdb
    exact hx
  · obtain ⟨_, hx, -, rfl⟩ := (readOnly_stats env).eq_of_completes (completes_stats env) hdb
    exact hx
  · obtain ⟨hanswer, herror⟩ := listJobs_agrees f.config.clock env status limit offset hdb
    refine ⟨hanswer, fun reply db hreply => ?_, herror⟩
    exact readOnly_listJobs env status limit offset _ _ reply db hreply

/-- After `rejectSuccess` the dashboard counts one delayed job, as the database has it. -/
theorem routes_agree_success : ∃ (f : Raw.Faulty Unit) (r : Faulty Unit), Raw.Corresponds f r ∧
    (stats mainQueue r.config.store).queues.delayed = 1 ∧
      Raw.stats mainQueue f.config.clock f.config.db =
        some (stats mainQueue r.config.store, f.config.db) := by
  obtain ⟨f, hf, hcount⟩ :=
    exists_reach_of_run (Raw.faultyStep mainQueue) (fun _ _ => True)
      (Raw.Faulty.init ⟨1, [["mail"]], 1, 1, 0⟩)
      (fun f => (Raw.stats mainQueue f.config.clock f.config.db).map (·.1.queues.delayed) = some 1)
      rejectSuccess (by decide +kernel)
  obtain ⟨r, -, hsame, -, hstats, -⟩ := routes_agree hf
  rw [hstats] at hcount
  exact ⟨f, r, hsame, Option.some.inj hcount, hstats⟩

end DistriSys
