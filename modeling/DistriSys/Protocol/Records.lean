import DistriSys.Core.Records
import Mathlib.Data.List.Induction

/-!
# Records through their life cycle

A record is written whole by `enqueue` and updated in two fields afterwards.
`Represents` says that a hash spells out a job; a whole write establishes it and
every partial write keeps it, for the job with the fields replaced. Each of the
three decoders inverts it, so they agree (**`records_agree`**).

An update never touches what the caller asked for, so a job is at any time that of its call
with the status and the attempts of the last update that gave them (`Job.afterUpdates`).
Attempts are decimal numbers (`Decimal`), as every writer of the code spells them.
-/

namespace DistriSys

open Js

variable {T : Type}

/-- A partial write, on the job itself. -/
def Job.update (job : Job T) (u : RecordUpdate) : Job T :=
  { job with
    status := some u.status.name
    attempts := u.attempts.elim job.attempts fun n => .int n }

/-- The job after a sequence of partial writes: the last status and the last
attempts count that were written, everything else as before. -/
def Job.afterUpdates (job : Job T) (updates : List RecordUpdate) : Job T :=
  { job with
    status := ((updates.map RecordUpdate.status).getLast?.map JobStatus.name).or job.status
    attempts := (updates.filterMap RecordUpdate.attempts).getLast?.elim job.attempts
      fun n => .int n }

theorem Job.afterUpdates_append (job : Job T) (updates : List RecordUpdate) (u : RecordUpdate) :
    job.afterUpdates (updates ++ [u]) = (job.afterUpdates updates).update u := by
  obtain ⟨status, attempts⟩ := u
  cases attempts with
  | none => simp [afterUpdates, update]
  | some n => simp [afterUpdates, update]

/-! ## Hashes that spell out a job -/

/-- A field that holds a natural number in decimal. -/
def Decimal (field : Option String) (x : JsNumber) : Prop :=
  ∃ n : Nat, field = some (Nat.repr n) ∧ x = .int n

theorem Decimal.parseIntField {field : Option String} {x : JsNumber} (h : Decimal field x) :
    parseIntField field = x := by
  obtain ⟨n, rfl, rfl⟩ := h
  exact parseIntField_repr n

/-- `h` is the hash of `job`: strings as they are, the payload as some text that
parses to it, the numbers in decimal. -/
structure Represents (json : Json T) (job : Job T) (h : JobHash) : Prop where
  id : h.id = job.id
  type : h.type = job.type
  data : h.data.bind json.parse = some job.data
  status : h.status = job.status
  priority : ∃ p : JobPriority, h.priority = some p.name ∧ job.priority = p.name
  attempts : Decimal h.attempts job.attempts
  maxAttempts : Decimal h.maxAttempts job.maxAttempts
  createdAt : Decimal h.createdAt job.createdAt

section Represents

variable {json : Json T} {job : Job T} {h : JobHash}

/-- The two encoders write the same hash. -/
theorem Sdk.serializeJob_eq (json : Json T) (job : Job T) :
    Sdk.serializeJob json job = DistriSys.serializeJob json job := rfl

theorem EnqueueCall.record_eq (json : Json T) (id : JobId) (now : Nat) (call : EnqueueCall T) :
    call.record json id now = serializeJob json (call.job id now) := by
  cases call with
  | core => rfl
  | sdk => exact Sdk.serializeJob_eq json _

/-- A whole write spells out the job it is given, whatever the key held before. -/
theorem represents_record {id : JobId} {now maxAttempts : Nat} {call : EnqueueCall T}
    (hmax : call.maxAttempts = .int maxAttempts)
    (hdata : (json.stringify call.data).bind json.parse = some call.data) (h : JobHash) :
    Represents json (call.job id now) (h.patch (call.record json id now)) := by
  obtain ⟨text, htext, hparse⟩ := Option.bind_eq_some_iff.mp hdata
  rw [call.record_eq]
  refine ⟨rfl, rfl, ?_, rfl, ⟨call.priority, rfl, rfl⟩, ⟨0, rfl, rfl⟩, ⟨maxAttempts, ?_, hmax⟩,
    ⟨now, rfl, rfl⟩⟩
  · show (some ((json.stringify call.data).getD "")).bind json.parse = some call.data
    rw [htext]
    exact hparse
  · show some call.maxAttempts.toString = some (Nat.repr maxAttempts)
    rw [hmax, JsNumber.toString_natCast]

/-- A partial write spells out the job with the same fields replaced. -/
theorem Represents.update (hr : Represents json job h) (u : RecordUpdate) :
    Represents json (job.update u) (h.patch u.fields) := by
  obtain ⟨status, attempts⟩ := u
  cases attempts with
  | none => exact { hr with status := rfl }
  | some n => exact { hr with status := rfl, attempts := ⟨n, rfl, rfl⟩ }

theorem Represents.isEmpty (hr : Represents json job h) : h.isEmpty = false := by
  refine decide_eq_false ?_
  rintro rfl
  cases hr.data

/-! ## Decoders -/

theorem Represents.orNormal (hr : Represents json job h) : orNormal h.priority = job.priority := by
  obtain ⟨p, hpriority, hpriority'⟩ := hr.priority
  rw [hpriority, orNormal_name, hpriority']

/-- `deserializeJob` inverts the encoding. -/
theorem Represents.deserializeJob (hr : Represents json job h) :
    deserializeJob json h = .ok job := by
  simp only [DistriSys.deserializeJob, hr.data, hr.id, hr.type, hr.status, hr.orNormal,
    hr.attempts.parseIntField, hr.maxAttempts.parseIntField, hr.createdAt.parseIntField]

/-- So does the decoder of `GET /jobs`, which takes the priority as it is: the
field is there, so the missing default makes no difference. -/
theorem Represents.listedJob (hr : Represents json job h) :
    listedJob json h = .ok (some job.listed) := by
  obtain ⟨p, hpriority, hpriority'⟩ := hr.priority
  simp only [DistriSys.listedJob, hr.isEmpty, hr.data, hr.id, hr.type, hr.status, hpriority,
    hr.attempts.parseIntField, hr.maxAttempts.parseIntField, hr.createdAt.parseIntField,
    Job.listed, hpriority', Bool.false_eq_true, if_false]

theorem Represents.getJob {st : Store} {id : JobId} (hr : Represents json job (st.jobs id)) :
    getJob json st id = .ok (some job) := by
  rw [DistriSys.getJob, if_neg (by simp [hr.isEmpty]), hr.deserializeJob]
  rfl

end Represents

/-! ## The life cycle -/

section LifeCycle

variable {json : Json T} {st : Store} {id : JobId} {job : Job T}

theorem represents_updates (hr : Represents json job (st.jobs id)) (updates : List RecordUpdate) :
    Represents json (job.afterUpdates updates)
      ((updates.foldl (fun st u => updateJobFields st id u) st).jobs id) := by
  -- on the last write, which `afterUpdates` looks for
  induction updates using List.reverseRecOn with
  | nil => exact hr
  | append_singleton updates u ih =>
    rw [List.foldl_append, Job.afterUpdates_append]
    simpa [updateJobFields, Store.hmset] using ih.update u

/-- **Records survive their life cycle and all readers agree**: after `saveJob` on
any call and any partial writes, `deserializeJob`, `getJob` and the listing
return the enqueued job with the last written status and attempts. -/
theorem records_agree {call : EnqueueCall T} {maxAttempts : Nat}
    (hmax : call.maxAttempts = .int maxAttempts)
    (hdata : (json.stringify call.data).bind json.parse = some call.data)
    (st : Store) (id : JobId) (now : Nat) (updates : List RecordUpdate) :
    let st' := updates.foldl (fun st u => updateJobFields st id u)
      (saveJob st id (call.record json id now))
    let job := (call.job id now).afterUpdates updates
    deserializeJob json (st'.jobs id) = .ok job ∧ getJob json st' id = .ok (some job) ∧
      listedJob json (st'.jobs id) = .ok (some job.listed) := by
  intro st' job
  have hsaved : Represents json (call.job id now)
      ((saveJob st id (call.record json id now)).jobs id) := by
    simpa [saveJob, Store.hmset] using represents_record hmax hdata (st.jobs id)
  have hr : Represents json job (st'.jobs id) := represents_updates hsaved updates
  exact ⟨hr.deserializeJob, hr.getJob, hr.listedJob⟩

/-- A high-priority job of the core that failed once and waits for its second try. -/
theorem records_agree_delayed :
    let call : EnqueueCall Unit := .core "mail" () (.options (some .high) (some 5) none) none
    let updates : List RecordUpdate := [⟨.active, none⟩, ⟨.delayed, some 1⟩, ⟨.waiting, none⟩]
    let st := updates.foldl (fun st u => updateJobFields st "a" u)
      (saveJob .empty "a" (call.record mainQueue.json "a" 1700000000000))
    let job : Job Unit :=
      { id := some "a", type := some "mail", data := (), status := some "waiting"
        priority := "high", attempts := 1, maxAttempts := 5, createdAt := 1700000000000 }
    deserializeJob mainQueue.json (st.jobs "a") = .ok job ∧
      getJob mainQueue.json st "a" = .ok (some job) ∧
      listedJob mainQueue.json (st.jobs "a") = .ok (some job.listed) := by
  intro call updates
  have hmax : call.maxAttempts = .int (5 : Nat) := rfl
  exact records_agree hmax rfl .empty "a" 1700000000000 updates

end LifeCycle

end DistriSys
