import DistriSys.Protocol.Heartbeats

/-!
# Exclusive execution by heartbeats

What the watchdog requeues decides over exclusive execution. It goes by heartbeats, and
those are there for handlers that run (`heartbeats_kept`) but not yet for a dispatch in its
opening and no more for one in its closing.

- `Supervised`: no dispatch is in its opening or closing at the moment the watchdog reads
  the heartbeats, and nothing else of the watchdog's work is restricted;
- `stale_step`: then what a pass has found stalled is abandoned, and stays so until the
  pass requeues it;
- **`exclusive_by_heartbeats`**: such runs are orderly, so no job has two handler calls
  under way.
-/

namespace DistriSys

open Js Redis Transition

variable {T : Type}

/-- The jobs a watchdog pass has found stalled and not requeued yet. -/
def WatchdogPc.stalled : WatchdogPc → List JobId
  | inspect jobId rest => jobId :: rest
  | requeue jobId _ rest => jobId :: rest
  | _ => []

@[simp] theorem WatchdogPc.stalled_next (ids : List JobId) : (next ids).stalled = ids := by
  cases ids <;> rfl

/-- No worker holds the job, and it has an entry on the processing list. -/
def Abandoned (env : Env T) (s : Config T) (id : JobId) : Prop :=
  s.holders id = 0 ∧ id ∈ s.store.lists (.processingList env.queueName)

instance (env : Env T) (s : Config T) (id : JobId) : Decidable (Abandoned env s id) :=
  inferInstanceAs (Decidable (_ ∧ _))

/-- The jobs whose heartbeats an action reads. -/
def Config.candidates (s : Config T) : Action T → List JobId
  | .watch i =>
    match s.watchdogs[i]? with
    | some (.readHeartbeats jobIds) => jobIds
    | _ => []
  | _ => []

/-- When the watchdog reads the heartbeats, every candidate is abandoned or has a worker
that keeps its heartbeat. -/
def ReadsSettled (env : Env T) (s : Config T) (a : Action T) : Prop :=
  ∀ id ∈ s.candidates a, (∃ wk ∈ s.workers, wk.pc.renews = some id) ∨ Abandoned env s id

/-- No worker dies, heartbeats are kept, the watchdog reads them between the dispatches,
and retry transactions find their jobs on the dead list. -/
structure Supervised (env : Env T) (interval : Nat) (r : Beating T) (a : Action T) : Prop where
  live : a.workerDeath = none
  renews : RenewsInTime interval r a
  cleans : CleansAlone r.state a
  reads : ReadsSettled env r.state a
  retries : ∀ id ∈ r.state.retryTransaction a, id ∈ r.state.store.lists (.deadList env.queueName)

instance (env : Env T) (s : Config T) (a : Action T) : Decidable (ReadsSettled env s a) :=
  inferInstanceAs (Decidable (∀ id ∈ s.candidates a, _ ∨ _))

instance (env : Env T) (interval : Nat) (r : Beating T) (a : Action T) :
    Decidable (Supervised env interval r a) :=
  decidable_of_iff (a.workerDeath = none ∧ RenewsInTime interval r a ∧ CleansAlone r.state a ∧
      ReadsSettled env r.state a ∧ ∀ id ∈ r.state.retryTransaction a,
        id ∈ r.state.store.lists (.deadList env.queueName))
    ⟨fun ⟨h₁, h₂, h₃, h₄, h₅⟩ => ⟨h₁, h₂, h₃, h₄, h₅⟩,
      fun ⟨h₁, h₂, h₃, h₄, h₅⟩ => ⟨h₁, h₂, h₃, h₄, h₅⟩⟩

/-- What a watchdog pass has found stalled is abandoned, and found once. -/
structure Stale (env : Env T) (s : Config T) : Prop where
  abandoned : ∀ pc ∈ s.watchdogs, ∀ id ∈ pc.stalled, Abandoned env s id
  nodup : ∀ pc ∈ s.watchdogs, pc.pending.Nodup

section Supervised

variable {env : Env T} {topology : Topology} {interval : Nat} {r r' : Beating T}
  {s s' : Config T} {a : Action T} {id : JobId}

theorem abandoned_iff :
    Abandoned env s id ↔ (ledger env s id).holders = 0 ∧ 1 ≤ (ledger env s id).processing := by
  rw [Abandoned, ← ledger_holders env s id]
  exact and_congr_right fun _ => List.count_pos_iff.symm

/-- An abandoned job stays so until the watchdog requeues it: the abandoned copy is the only
one. -/
theorem abandoned_step (hI : Integrity env s) (hsingle : (ledger env s id).Single)
    (horderly : ∀ m, Licensed env s a id m → (ledger env s id).Orderly m)
    (hne : s.watchdogTransaction a ≠ some id) (hs : step env s a = some s')
    (h : Abandoned env s id) : Abandoned env s' id := by
  obtain ⟨m, hm, hen, hL⟩ := step_refines hI hs id
  have hmove := horderly m hm
  rw [abandoned_iff] at h ⊢
  rw [hL]
  obtain ⟨hholders, hprocessing⟩ := h
  obtain ⟨-, -, hone, -⟩ := hsingle
  simp only [Ledger.holders] at hholders
  simp only [Ledger.openCopies] at hone
  cases m with
  | die phase => exact hmove.elim
  | requeue attempts => exact absurd hm.watchdogTransaction hne
  | _ =>
    simp only [Ledger.enabled, Ledger.Orderly, Ledger.apply, Ledger.holders] at hen hmove ⊢
    omega

/-- A supervised step is orderly. -/
theorem Supervised.orderly (h : Supervised env interval r a) (hstale : Stale env r.state) :
    Orderly env r.state a := by
  refine ⟨h.live, fun id hid => ?_, h.retries⟩
  cases a with
  | watch i =>
    rw [Option.mem_def, Config.watchdogTransaction] at hid
    split at hid
    · next jobId jobHash rest hi =>
      cases hid
      exact hstale.abandoned _ (List.mem_of_getElem? hi) _ List.mem_cons_self
    · cases hid
  | _ => cases hid

/-- No id is listed twice. -/
theorem nodup_watchdogs_step (h : ∀ pc ∈ s.watchdogs, pc.pending.Nodup)
    (hs : step env s a = some s') {pc' : WatchdogPc} (hpc' : pc' ∈ s'.watchdogs) :
    pc'.pending.Nodup := by
  rcases mem_watchdogs_step hs hpc' with hother | rfl | ⟨i, pc, rfl, hi, rfl⟩
  · exact h pc' (Config.mem_watchdogs_of_mem_others hother)
  · exact List.nodup_nil
  · have hnodup := h pc (List.mem_of_getElem? hi)
    cases pc with
    | idle => exact Hash.nodup_keys _
    | readProcessing activeIds =>
      simp only [watchdogStep]
      split
      · exact List.nodup_nil
      · exact nodup_distinct _
    | readHeartbeats jobIds =>
      rw [watchdogStep, WatchdogPc.pending_next]
      exact hnodup.filter _
    | inspect jobId rest => exact hnodup
    | requeue jobId jobHash rest =>
      rw [watchdogStep, WatchdogPc.pending_next]
      exact (List.nodup_cons.mp hnodup).2

/-- With one watchdog, what a pass has found stalled is not touched by another. -/
theorem stale_step (hwatchdogs : s.watchdogs.length ≤ 1) (hI : Integrity env s)
    (hsingle : ∀ id, (ledger env s id).Single)
    (horderly : ∀ id m, Licensed env s a id m → (ledger env s id).Orderly m)
    (halive : ∀ wk ∈ s.workers, ∀ id, wk.pc.renews = some id → s.store.alive s.clock id = true)
    (hreads : ReadsSettled env s a) (h : Stale env s) (hs : step env s a = some s') :
    Stale env s' := by
  refine ⟨fun pc' hpc' id hid => ?_, fun pc' hpc' => nodup_watchdogs_step h.nodup hs hpc'⟩
  have hkeep : ∀ pc ∈ s.watchdogs, id ∈ pc.stalled → s.watchdogTransaction a ≠ some id →
      Abandoned env s' id := fun pc hpc hmem hne =>
    abandoned_step hI (hsingle id) (horderly id) hne hs (h.abandoned pc hpc id hmem)
  rcases mem_watchdogs_step hs hpc' with hother | rfl | ⟨i, pc, rfl, hi, rfl⟩
  · refine hkeep pc' (Config.mem_watchdogs_of_mem_others hother) hid fun htx => ?_
    -- a requeue is the step of the only watchdog there is
    cases a with
    | watch i =>
      have hlt : i < s.watchdogs.length := by
        cases stepped hs with
        | watch hi => exact (List.getElem?_eq_some_iff.mp hi).1
      have hlength := List.length_pos_of_mem hother
      rw [Config.otherWatchdogs, List.length_eraseIdx_of_lt hlt] at hlength
      omega
    | _ => cases htx
  · cases hid
  · have hpc := List.mem_of_getElem? hi
    cases pc with
    | idle => cases hid
    | readProcessing activeIds =>
      simp only [watchdogStep] at hid
      split at hid <;> cases hid
    | readHeartbeats jobIds =>
      rw [watchdogStep, WatchdogPc.stalled_next, List.mem_filter] at hid
      simp only [ReadsSettled, Config.candidates, hi] at hreads
      rcases hreads id hid.1 with ⟨wk, hwk, hrenews⟩ | habandoned
      · simp [halive wk hwk id hrenews] at hid
      · exact abandoned_step hI (hsingle id) (horderly id)
          (by simp [Config.watchdogTransaction, hi]) hs habandoned
    | inspect jobId rest =>
      exact hkeep _ hpc hid (by simp [Config.watchdogTransaction, hi])
    | requeue jobId jobHash rest =>
      rw [watchdogStep, WatchdogPc.stalled_next] at hid
      have hne : jobId ≠ id := fun heq => (List.nodup_cons.mp (h.nodup _ hpc)).1 (heq ▸ hid)
      exact hkeep _ hpc (List.mem_cons_of_mem _ hid) (by simp [Config.watchdogTransaction, hi, hne])

theorem stale_init (env : Env T) (topology : Topology) : Stale env (init topology : Config T) where
  abandoned pc hpc id hid := by
    obtain rfl := List.eq_of_mem_replicate hpc
    cases hid
  nodup pc hpc := by
    obtain rfl := List.eq_of_mem_replicate hpc
    exact List.nodup_nil

/-- Supervised runs are orderly. -/
theorem supervised_run (hinterval : interval ≤ env.config.heartbeatTtlSec * 1000)
    (hsole : topology.schedulers ≤ 1) (hwatchdogs : topology.watchdogs ≤ 1)
    (h : Reach (recording (step env) noteBeat) (Supervised env interval)
      ⟨init topology, fun _ => 0⟩ r) :
    Reach (step env) (Orderly env) (init topology) r.state ∧ Stale env r.state := by
  induction h with
  | refl => exact ⟨.refl, stale_init env topology⟩
  | @tail t t' a hr hok hs ih =>
    obtain ⟨hreach, hstale⟩ := ih
    obtain ⟨s', hstep, rfl⟩ := recording_eq_some hs
    -- what the pass found stalled is nobody's, so the step is orderly
    have horderly := hok.orderly hstale
    refine ⟨hreach.tail horderly hstep, ?_⟩
    refine stale_step ((components_run hreach).2.1.symm ▸ hwatchdogs) (integrity_run hreach)
      (single_run hsole (fun _ _ h => h) hreach)
      (fun id m hm => orderly_licensed hsole hreach horderly hm) ?_ hok.reads hstale hstep
    intro wk hwk id hid
    obtain ⟨w, hw⟩ := List.mem_iff_getElem?.mp hwk
    exact (kept_run (fun _ _ h => ⟨h.renews, h.cleans⟩) hr hw hid).alive hinterval

/-- **Exclusive execution by heartbeats.** In every supervised run with one scheduler and
one watchdog, no job has two handler calls under way, and the watchdog requeues only what
no worker holds. -/
theorem exclusive_by_heartbeats
    (h : Reach (recording (step env) noteBeat) (Supervised env interval)
      ⟨init topology, fun _ => 0⟩ r)
    (hinterval : interval ≤ env.config.heartbeatTtlSec * 1000)
    (hsole : topology.schedulers ≤ 1) (hwatchdogs : topology.watchdogs ≤ 1) (id : JobId) :
    held r.state.workers id .running ≤ 1 ∧
      ∀ pc ∈ r.state.watchdogs, id ∈ pc.stalled → r.state.holders id = 0 := by
  obtain ⟨hreach, hstale⟩ := supervised_run hinterval hsole hwatchdogs h
  refine ⟨?_, fun pc hpc hid => (hstale.abandoned pc hpc id hid).1⟩
  have hL := single_run hsole (fun _ _ h => h) hreach id
  show (ledger env r.state id).running ≤ 1
  by_cases hrunning : (ledger env r.state id).running = 0
  · omega
  · have := (hL.alone (by omega)).1
    omega

end Supervised

/-- A worker without a handler abandons the job; the watchdog requeues it, and does not
when the next handler is slow. -/
theorem exclusive_by_heartbeats_slow : ∃ r : Beating Unit,
    r.state.clock = 20000 ∧ .requeued "a" ∈ r.state.log ∧
      held r.state.workers "a" .running ≤ 1 := by
  obtain ⟨r, hr, hclock, hrequeued⟩ :=
    exists_reach_of_run (recording (step mainQueue) noteBeat) (Supervised mainQueue 5000)
      ⟨init ⟨1, [["mail"], []], 1, 1, 0⟩, fun _ => 0⟩
      (fun r => r.state.clock = 20000 ∧ .requeued "a" ∈ r.state.log)
      ([.enqueue 0 "a" (.core "mail" () .absent none), .produce 0, .produce 0,
        .work 1 0, .work 1 0, .work 1 0, .work 1 0, .work 1 0,
        .watch 0, .watch 0, .watch 0, .watch 0, .watch 0,
        .work 0 0, .work 0 0, .work 0 0, .work 0 0, .work 0 0, .work 0 0] ++ slowHandler ++
        [.watch 0, .watch 0, .watch 0])
      (by decide +kernel)
  exact ⟨r, hclock, hrequeued,
    (exclusive_by_heartbeats hr (by decide) (Nat.le_refl 1) (Nat.le_refl 1) "a").1⟩

end DistriSys
