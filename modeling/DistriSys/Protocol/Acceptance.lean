import DistriSys.Core.Requests
import DistriSys.Js.Truncation
import DistriSys.Protocol.Records

/-!
# Which jobs run as they were asked for

`enqueue` takes any payload and any number as `maxAttempts`; `serializeJob` makes text
of both, and `deserializeJob` reads it back with `JSON.parse` and `parseInt`. These are
not inverse on everything that is accepted. **`accepted_runs_as_asked`** says on
what: the payload has a JSON text, and the number goes through `toString` and
`parseInt` unharmed (`JsNumber.Survives`). `unlimited_attempts_lost` is a job that was
to be retried for ever and is buried after its first failure.

The runtime's JSON is a parameter. What is used of it is `Json.Lawful`: the empty text does not
parse, and what `stringify` writes does.
-/

namespace DistriSys

open Js Redis

variable {T : Type}

/-- What `JSON` promises: it reads back what it has written, and refuses the empty text. -/
structure Json.Lawful (json : Json T) : Prop where
  parse_empty : json.parse "" = none
  parse_stringify : ∀ data text, json.stringify data = some text → (json.parse text).isSome

/-- The record decodes to the payload of the call, as it comes back from JSON, and to an
attempt limit that decides every retry as the one of the call does. -/
def RunsAsAsked (json : Json T) (call : EnqueueCall T) (record : JobHash) : Prop :=
  ∃ job, deserializeJob json record = .ok job ∧
    (json.stringify call.data).bind json.parse = some job.data ∧
    ∀ k : Nat, (JsNumber.int k).lt job.maxAttempts = (JsNumber.int k).lt call.maxAttempts

section Acceptance

variable {env : Env T} {c : EnqueueCircumstances} {id : JobId} {call : EnqueueCall T}
  {st st' : Store}

/-- A call that resolves with its job has saved it. -/
theorem jobs_of_enqueue (h : (Queue.enqueue env c id call).run st = .ok (.job id) st') :
    st'.jobs id = (st.jobs id).patch (serializeJob env.json (call.job id c.createdAt)) := by
  have hsaved : ∀ st₁ : Store,
      st₁.jobs = (saveJob st id (call.record env.json id c.createdAt)).jobs →
      st₁.jobs id = (st.jobs id).patch (serializeJob env.json (call.job id c.createdAt)) := by
    intro st₁ hjobs
    rw [hjobs, saveJob, Store.hmset_jobs, Function.update_self, EnqueueCall.record_eq]
  rw [Queue.enqueue, Async.run_request_bind] at h
  -- the call would have thrown if a command had been refused
  split at h
  · cases h
  · cases hkey : call.idempotencyKey with
    | none =>
      rw [hkey] at h
      dsimp only at h
      rw [Async.run_request_bind] at h
      split at h
      · cases h
      · cases h
        exact hsaved _ rfl
    | some key =>
      rw [hkey] at h
      dsimp only at h
      rw [Async.run_exchange_bind] at h
      split at h
      · cases h
      · split at h
        · rw [Async.run_request_bind] at h
          split at h <;> cases h
        · cases h
          exact hsaved _ Store.jobs_idempotentEnqueue

/-- What a whole record decodes to. -/
theorem deserializeJob_serializeJob (json : Json T) (job : Job T) (h : JobHash) (data : T)
    (hdata : json.parse ((json.stringify job.data).getD "") = some data) :
    ∃ job', deserializeJob json (h.patch (serializeJob json job)) = .ok job' ∧
      job'.data = data ∧ job'.maxAttempts = parseInt job.maxAttempts.toString := by
  have hparse : (h.patch (serializeJob json job)).data.bind json.parse = some data := hdata
  rw [deserializeJob, hparse]
  exact ⟨_, rfl, rfl, rfl⟩

/-- **When an accepted job runs as asked.** The record of a call that resolves with its
job decodes to the payload and the attempt limit of the call if and only if the
payload has a JSON text, and the limit is an integer below `1e21` or a number below
`1e-6` with a leading one. -/
theorem accepted_runs_as_asked (hjson : env.json.Lawful) (hmax : call.maxAttempts.NonNeg)
    (hresolves : (Queue.enqueue env c id call).run st = .ok (.job id) st') :
    RunsAsAsked env.json call (st'.jobs id) ↔
      (env.json.stringify call.data).isSome ∧ call.maxAttempts.Survives := by
  rw [jobs_of_enqueue hresolves, ← JsNumber.lt_parseInt_toString_iff hmax]
  cases htext : env.json.stringify call.data with
  | none =>
    -- a job that runs has a payload, and that one was to be the one asked for
    refine iff_of_false ?_ (by simp)
    rintro ⟨job, -, hdata, -⟩
    rw [htext] at hdata
    cases hdata
  | some text =>
    obtain ⟨data, hdata⟩ := Option.isSome_iff_exists.mp (hjson.parse_stringify _ _ htext)
    have htext' : env.json.parse ((env.json.stringify call.data).getD "") = some data := by
      rw [htext]
      exact hdata
    obtain ⟨job, hjob, hjobdata, hjobmax⟩ := deserializeJob_serializeJob env.json
      (call.job id c.createdAt) (st.jobs id) data htext'
    constructor
    · rintro ⟨job', hjob', -, hcompare⟩
      obtain rfl : job = job' := Except.ok.inj (hjob.symm.trans hjob')
      rw [hjobmax] at hcompare
      exact ⟨rfl, hcompare⟩
    · rintro ⟨-, hcompare⟩
      refine ⟨job, hjob, ?_, ?_⟩
      · rw [htext, hjobdata]
        exact hdata
      · rw [hjobmax]
        exact hcompare

end Acceptance

/-- Redis carries out every command. -/
def allServed : EnqueueCircumstances := ⟨fun _ => false, 0, 0⟩

theorem lawful_mainQueue : mainQueue.json.Lawful where
  parse_empty := by decide
  parse_stringify := by
    intro data text h
    cases h
    decide

/-- `enqueue('mail', null, { maxAttempts: n })`. -/
def mailWithAttempts (n : JsNumber) : EnqueueCall Unit :=
  .core "mail" () (.options none (some n) none) none

/-- A call that asks for five attempts. -/
theorem accepted_runs_as_asked_five :
    RunsAsAsked mainQueue.json (mailWithAttempts 5)
      (((Queue.enqueue mainQueue allServed "a" (mailWithAttempts 5)).after .empty).jobs "a") := by
  have hmax : (mailWithAttempts 5).maxAttempts.NonNeg :=
    (⟨by decide, by decide⟩ : (0 : Int) ≤ 5 ∧ (5 : Int) < 10 ^ 21)
  have hresolves : (Queue.enqueue mainQueue allServed "a" (mailWithAttempts 5)).run .empty =
        .ok (.job "a") ((Queue.enqueue mainQueue allServed "a" (mailWithAttempts 5)).after
          .empty) := rfl
  exact (accepted_runs_as_asked lawful_mainQueue hmax hresolves).mpr ⟨rfl, trivial⟩

/-- **Unlimited attempts are lost**: the limit `Infinity` comes back as `NaN`, and no
attempt count is less than that. -/
theorem unlimited_attempts_lost :
    ¬ ∀ (call : EnqueueCall Unit) (st' : Store), call.maxAttempts.NonNeg →
      (Queue.enqueue mainQueue allServed "a" call).run .empty = .ok (.job "a") st' →
        RunsAsAsked mainQueue.json call (st'.jobs "a") := by
  intro h
  obtain ⟨job, hjob, -, hcompare⟩ := h (mailWithAttempts .infinity) _ trivial rfl
  cases hjob
  exact absurd (hcompare 0) (by decide)

end DistriSys
