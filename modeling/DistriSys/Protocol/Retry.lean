import DistriSys.Protocol.Terminal
import DistriSys.Protocol.Attempts

/-!
# The retry protocol

With the watchdog, manual retries and crashes out of the way, the attempt count
is exact: the `k`-th handler call of a job sees `k - 1`, the calls end with the
first that resolves or with the last that `maxAttempts` allows, and the record
says which (**`retry_protocol_exact`**).

Such runs are both orderly and count-keeping (`undisturbed`), so the invariants
of `Exclusive`, `Terminal` and `Attempts` hold together; `Ledger.Exact` adds the
list of handler calls.

The statement is `Ledger.Protocol`, read off the account of the job and its record; nothing is
assumed about the order in which jobs, workers and the scheduler take turns.

The run up to `s` and the run from `s` to `t` are told apart because the statement has two
moments: what is settled in `s` is still so in `t`. `starts_of_resolved` and `dead_kept` carry it
from one to the other.
-/

namespace DistriSys

open Js Redis Transition

variable {T : Type}

/-! ## The invariant of the life cycle -/

/-- Handler calls are numbered from zero, and each is accounted for by how it ended. -/
structure Ledger.Exact (L : Ledger) : Prop where
  numbered : L.starts = (List.range L.starts.length).map fun k : Nat => .int k
  ended : L.starts.length = L.failed + L.failing + L.running + L.resolved
  rejected : L.rejected = L.failed + L.failing
  requeued : L.requeued = 0

theorem exact_init : Ledger.Exact {} where
  numbered := rfl
  ended := rfl
  rejected := rfl
  requeued := rfl

theorem exact_step {L L' : Ledger} {mv : Move} (hS : L.Single) (h : L.Exact)
    (hdie : ∀ phase, mv ≠ .die phase) (hrequeue : ∀ attempts, mv ≠ .requeue attempts)
    (hstart : ∀ attempts, mv = .start attempts → attempts = .int L.advances) (hs : L.Steps mv L') :
    L'.Exact := by
  obtain ⟨hen, rfl⟩ := hs
  obtain ⟨hnumbered, hended, hrejected, hrequeued⟩ := h
  cases mv with
  | die phase => exact absurd rfl (hdie phase)
  | requeue attempts => exact absurd rfl (hrequeue attempts)
  | start attempts =>
    have hloading : 1 ≤ L.loading := hen
    -- the job is in one worker's hands, so every earlier call has failed
    obtain ⟨hone, -, -, -, -, hresolved⟩ := hS.alone (by omega)
    have hlength : L.starts.length = L.advances := by
      simp only [Ledger.advances]
      omega
    obtain rfl := hstart attempts rfl
    refine ⟨?_, ?_, hrejected, hrequeued⟩
    · simp only [Ledger.apply, List.length_append, List.length_singleton, List.range_succ,
        List.map_append, List.map_singleton]
      rw [← hnumbered, hlength]
    · simp only [Ledger.apply, List.length_append, List.length_singleton]
      omega
  | _ =>
    simp only [Ledger.enabled] at hen
    refine ⟨hnumbered, ?_, ?_, hrequeued⟩ <;> simp only [Ledger.apply] <;> omega

/-! ## Undisturbed runs -/

section Runs

variable {env : Env T} {topology : Topology} {m : Nat} {s t : Config T} {a : Action T} {id : JobId}

/-- With one scheduler and neither watchdog nor retry requests, a run in which no
worker dies is orderly and keeps the count of every job. -/
theorem undisturbed {ok : Config T → Action T → Prop} (h : Reach (step env) ok (init topology) s)
    (hschedulers : topology.schedulers ≤ 1) (hwatchdogs : topology.watchdogs = 0)
    (hretries : topology.retries = 0) (hdeath : a.workerDeath = none) (m : Nat) (id : JobId) :
    Orderly env s a ∧ RecoversDead id s a ∧ CountKept env m id s a := by
  obtain ⟨-, hw, hr⟩ := components_run h
  have hwatchdogs : s.watchdogs = [] := List.eq_nil_of_length_eq_zero (hw.trans hwatchdogs)
  have hretries : s.retries = [] := List.eq_nil_of_length_eq_zero (hr.trans hretries)
  -- there is nobody who could
  have htx : s.watchdogTransaction a = none := by
    cases a with
    | watch i => simp [Config.watchdogTransaction, hwatchdogs]
    | _ => rfl
  have hinspects : s.inspects a = none := by
    cases a with
    | watch i => simp [Config.inspects, hwatchdogs]
    | _ => rfl
  have hretry : s.retryTransaction a = none := by
    cases a with
    | respond i => simp [Config.retryTransaction, hretries]
    | _ => rfl
  refine ⟨⟨hdeath, ?_, ?_⟩, ⟨?_, ?_⟩, ⟨?_, ?_, ?_, ?_⟩⟩
  · simp [htx]
  · simp [hretry]
  · simp [hretry]
  · simp [hinspects]
  · simp [hinspects]
  · simp [hinspects]
  · simp [hdeath]
  · intro hid
    obtain ⟨pc, hpc, hmem⟩ := pending_of_schedulerTransaction hid
    -- what a pass has listed is still in the delayed set
    exact (sole_pass_pending hschedulers h).tracked pc hpc id hmem

/-- Everything that is known of a job in an undisturbed run. -/
structure Ledger.Protocol (m : Nat) (L : Ledger) : Prop where
  bounded : L.Bounded m
  single : L.Single
  settled : L.Settled
  exact : L.Exact

/-- A completed job has failed all its calls but the last. -/
theorem Ledger.Protocol.succeeded {L : Ledger} (h : L.Protocol m) (hcompleted : 1 ≤ L.completed) :
    1 ≤ L.resolved ∧ 1 ≤ L.pushed ∧ L.starts.length = L.advances + 1 := by
  obtain ⟨-, ⟨⟨-, -, hnowhere⟩, hcovered, hsingle, hsettled⟩, -, -, hended, -, hrequeued⟩ := h
  simp only [Ledger.holders, Ledger.openCopies] at hcovered hsingle
  simp only [Ledger.advances]
  omega

/-- The last rejected call that is settled leaves the job on the dead list. -/
theorem Ledger.Protocol.exhausted {L : Ledger} (h : L.Protocol m) (hrejected : L.rejected = m)
    (hfailing : L.failing = 0) (hburying : L.burying = 0) : 1 ≤ L.dead := by
  have hlast := h.bounded.buried
  have hfailed := h.exact.rejected
  simp only [Ledger.advances] at hlast
  omega

theorem Ledger.Protocol.buried {L : Ledger} (h : L.Protocol m) (hdead : 1 ≤ L.dead) :
    1 ≤ L.pushed ∧ L.advances = m ∧ L.dead = 1 ∧ L.waiting = 0 ∧ L.delayed = 0 := by
  obtain ⟨⟨⟨-, -, hnowhere⟩, hsingle, -, -, hspent, -, -, -⟩, -, -, -⟩ := h
  simp only [Ledger.tokens] at hsingle
  have hlast := hspent (by omega)
  omega

theorem protocol_run (h : Reach (step env) (fun _ a => a.workerDeath = none) (init topology) s)
    (hm : 1 ≤ m) (hschedulers : topology.schedulers ≤ 1) (hwatchdogs : topology.watchdogs = 0)
    (hretries : topology.retries = 0)
    (hmax : ∀ c ∈ s.calls, c.id = id → c.request.maxAttempts = .int m) :
    (ledger env s id).Protocol m := by
  -- the conditions of the two invariants, from the topology
  have hquiet : ∀ {s : Config T} {a : Action T},
      Reach (step env) (fun _ a => a.workerDeath = none) (init topology) s → a.workerDeath = none →
        Orderly env s a ∧ RecoversDead id s a ∧ CountKept env m id s a := fun hr hlive =>
    undisturbed hr hschedulers hwatchdogs hretries hlive m id
  have hB : ∀ {s : Config T}, Reach (step env) (fun _ a => a.workerDeath = none) (init topology) s →
      (∀ c ∈ s.calls, c.id = id → c.request.maxAttempts = .int m) →
        (ledger env s id).Bounded m ∧ Tracks env m id s := fun h =>
    bounded_run hm (hwatchdogs ▸ Nat.zero_le 1) (fun _ _ hr hok => (hquiet hr hok).2) h
  have hS : ∀ {s : Config T}, Reach (step env) (fun _ a => a.workerDeath = none) (init topology) s →
      (ledger env s id).Single ∧ (ledger env s id).Settled := fun h =>
    settled_run hschedulers (h.mono' fun _ _ hr hok => (hquiet hr hok).1) id
  refine ⟨(hB h hmax).1, (hS h).1, (hS h).2, ?_⟩
  refine h.invariant' (I := fun s => (∀ c ∈ s.calls, c.id = id → c.request.maxAttempts = .int m) →
    (ledger env s id).Exact) ?_ ?_ hmax
  · intro _
    rw [ledger_init]
    exact exact_init
  · intro s a s' hr ih hok hs hmax
    have hmax : ∀ c ∈ s.calls, c.id = id → c.request.maxAttempts = .int m :=
      fun c hc => hmax c ((calls_step hs).subset hc)
    obtain ⟨mv, hlic, hL⟩ := step_refines (integrity_run hr) hs id
    obtain ⟨-, htracks⟩ := hB hr hmax
    refine exact_step (hS hr).1 (ih hmax) ?_ ?_ ?_ hL
    · rintro phase rfl
      exact hlic.workerDeath hok
    · rintro attempts rfl
      have hwatched := hlic.watchdogTransaction
      have hid := (hquiet hr hok).1.2.1 id hwatched
      obtain ⟨i, _, _, -, hi, -⟩ := hlic
      -- no watchdog, no requeue
      have hempty := List.eq_nil_of_length_eq_zero ((components_run hr).2.1.trans hwatchdogs)
      rw [hempty] at hi
      cases hi
    · rintro attempts rfl
      obtain ⟨job, ⟨w, draw, ⟨handlers, pc⟩, -, hw, rfl⟩, rfl⟩ := hlic
      -- the attempts handed to the handler are those it has read
      exact (htracks.workers _ (List.mem_of_getElem? hw)).read job rfl

/-- A resolved job is not started again. -/
theorem starts_of_resolved
    (h : Reach (step env) (fun _ a => a.workerDeath = none) (init topology) s)
    (h' : Reach (step env) (fun _ a => a.workerDeath = none) s t)
    (hschedulers : topology.schedulers ≤ 1) (hwatchdogs : topology.watchdogs = 0)
    (hretries : topology.retries = 0) (hresolved : .resolved id ∈ s.log) :
    starts t.log id = starts s.log id := by
  refine (h'.invariant' (I := fun u => .resolved id ∈ u.log ∧ starts u.log id = starts s.log id)
    ⟨hresolved, rfl⟩ ?_).2
  intro u a u' hu ⟨hmem, hsame⟩ hok hs
  have hr := h.trans hu
  have hS : (ledger env u id).Single := single_run hschedulers (fun _ _ hok => hok)
    (hr.mono' fun _ _ hr hlive =>
      (undisturbed hr hschedulers hwatchdogs hretries hlive 0 id).1) id
  have hpos : 1 ≤ (ledger env u id).resolved := List.count_pos_iff.mpr hmem
  obtain ⟨mv, -, hen, hL⟩ := step_refines (integrity_run hr) hs id
  refine ⟨(log_step hs).subset hmem, ?_⟩
  have hstarts : (ledger env u' id).starts = (ledger env u id).starts := by
    rw [hL]
    cases mv with
    | start attempts =>
      -- whoever starts the handler has the only open copy, and a resolved job has none
      have hloading : 1 ≤ (ledger env u id).loading := hen
      obtain ⟨-, -, -, -, -, hnone⟩ := hS.alone (by omega)
      omega
    | die phase => cases phase <;> rfl
    | _ => rfl
  exact hstarts.trans hsame

/-- **The retry protocol is exact.** One scheduler, no watchdog, no retry
requests, no worker dies; `t` is any state reached from the reached state `s`.
The handler calls of a job do not overlap, are numbered from zero and are at most
`maxAttempts`; there is none after one that resolved; the settlement of a call
that resolved, or of the last of `maxAttempts` calls that rejected, stays. -/
theorem retry_protocol_exact
    (h : Reach (step env) (fun _ a => a.workerDeath = none) (init topology) s)
    (h' : Reach (step env) (fun _ a => a.workerDeath = none) s t) (hm : 1 ≤ m)
    (hschedulers : topology.schedulers ≤ 1) (hwatchdogs : topology.watchdogs = 0)
    (hretries : topology.retries = 0)
    (hmax : ∀ c ∈ t.calls, c.id = id → c.request.maxAttempts = .int m) :
    held s.workers id .running ≤ 1 ∧
      starts s.log id = (List.range (starts s.log id).length).map (fun k : Nat => .int k) ∧
      (starts s.log id).length ≤ m ∧
      (.resolved id ∈ s.log → starts t.log id = starts s.log id) ∧
      (.completed id ∈ s.log → ∃ k, (starts s.log id).length = k + 1 ∧
        (t.store.jobs id).status = some JobStatus.completed.name ∧
        (t.store.jobs id).attempts = some (Nat.repr k)) ∧
      (s.log.count (.rejected id) = m → held s.workers id .failing = 0 →
        held s.workers id .burying = 0 →
          (t.store.jobs id).status = some JobStatus.dead.name ∧
          (t.store.jobs id).attempts = some (Nat.repr m) ∧
          (t.store.lists (.deadList env.queueName)).count id = 1 ∧
          (∀ p : JobPriority, id ∉ t.store.lists (.waitingList env.queueName p.name)) ∧
          id ∉ (t.store.delayed env.queueName).members) := by
  have hP := protocol_run h hm hschedulers hwatchdogs hretries
    fun c hc => hmax c ((grows_run h').1.subset hc)
  have hP' := protocol_run (h.trans h') hm hschedulers hwatchdogs hretries hmax
  have hI := integrity_run (h.trans h')
  refine ⟨?_, hP.exact.numbered, hP.bounded.bounds.1,
    starts_of_resolved h h' hschedulers hwatchdogs hretries, ?_, ?_⟩
  · have hsingle := hP.bounded.single
    simp only [Ledger.tokens] at hsingle
    show (ledger env s id).running ≤ 1
    omega
  · intro hcompleted
    have hsettled := hP'.settled.completed
      (List.count_pos_iff.mpr ((grows_run h').2.subset hcompleted))
    obtain ⟨hresolved, -, hlength⟩ := hP.succeeded (List.count_pos_iff.mpr hcompleted)
    obtain ⟨-, hpushed, hlength'⟩ :=
      hP'.succeeded (List.count_pos_iff.mpr ((grows_run h').2.subset hcompleted))
    -- the calls up to `t` are the calls up to `s`
    have hsame := starts_of_resolved h h' hschedulers hwatchdogs hretries
      (List.count_pos_iff.mp hresolved)
    refine ⟨_, ?_, hsettled, stored_attempts hI hP'.bounded (List.count_pos_iff.mp hpushed)⟩
    rw [← hsame]
    exact hlength'
  · intro hrejected hfailing hburying
    have hfirst : id ∈ s.store.lists (.deadList env.queueName) :=
      List.count_pos_iff.mp (hP.exhausted hrejected hfailing hburying)
    have hdead : id ∈ t.store.lists (.deadList env.queueName) := by
      -- nobody retries it, so it stays on the dead list
      refine h'.invariant' (I := fun u => id ∈ u.store.lists (.deadList env.queueName)) hfirst ?_
      intro u a u' hu hmem hok hs
      have hrecovers :=
        (undisturbed (h.trans hu) hschedulers hwatchdogs hretries hok m id).2.1
      exact dead_kept hs hrecovers.1 hmem
    have hdead : 1 ≤ (ledger env t id).dead := List.count_pos_iff.mpr hdead
    obtain ⟨hpushed, hlast, hone, hwaiting, hdelayed⟩ := hP'.buried hdead
    have hstored := stored_attempts hI hP'.bounded (List.count_pos_iff.mp hpushed)
    rw [hlast] at hstored
    exact ⟨hP'.settled.dead (by omega), hstored, hone, not_mem_waiting hwaiting,
      List.count_eq_zero.mp hdelayed⟩

end Runs

/-- The second of three calls resolves. -/
theorem retry_protocol_exact_second_resolves :
    ∃ s : Config Unit, starts s.log "a" = [0, 1] ∧ .completed "a" ∈ s.log ∧
      ∃ k, (starts s.log "a").length = k + 1 ∧
        (s.store.jobs "a").status = some JobStatus.completed.name ∧
        (s.store.jobs "a").attempts = some (Nat.repr k) := by
  obtain ⟨s, hs, hmax, hstarts, hcompleted⟩ :=
    exists_reach_of_run (step mainQueue) (fun _ a => a.workerDeath = none)
      (init ⟨1, [["mail"]], 1, 0, 0⟩)
      (fun s => (∀ c ∈ s.calls, c.id = "a" → c.request.maxAttempts = .int (3 : Nat)) ∧
        starts s.log "a" = [0, 1] ∧ .completed "a" ∈ s.log)
      (failOnce ++ [.schedule 0, .schedule 0, .schedule 0, .work 0 0, .work 0 0, .work 0 0,
        .work 0 0, .work 0 0, .work 0 0, .settle 0 .resolve, .work 0 0])
      (by decide +kernel)
  obtain ⟨-, -, -, -, hdone, -⟩ :=
    retry_protocol_exact hs .refl (by decide) (Nat.le_refl 1) rfl rfl hmax
  exact ⟨s, hstarts, hcompleted, hdone hcompleted⟩

end DistriSys
