import DistriSys.Protocol.CrashSafety
import DistriSys.Protocol.Rejections

/-!
# Jobs survive crashes and rejected commands

What can go wrong with one job when components crash and commands are rejected.

- `Ledger.Retained`: until its success transaction has run, a job is on a list or in the
  delayed set. Rejections in the failure branch break this, nothing else does
  (**`no_job_lost`**);
- `Ledger.Sole`: a job has one copy, entries that a worker is about to clean up not counted.
  A worker that fails in front of its clean-up breaks this, since its entry stays behind
  (**`one_dispatch`**).

Both are invariants of the account of one job (`Ledger`), proved for moves and for slips
separately (`retained_step`, `retained_slip`; `sole_step`, `sole_slip`) and carried over to runs
by `faulty_ledger_run`. The guards `FilesJob` and `CleansUp` are conditions on a step and the
state before it, and about this job only: whatever happens to other jobs is allowed.
-/

namespace DistriSys

open Js Redis Transition

variable {T : Type}

/-! ## No job is lost -/

/-- A job that is not completed is somewhere. -/
structure Ledger.Retained (L : Ledger) : Prop where
  published : L.Published
  covered : L.holders ≤ L.processing
  somewhere : 1 ≤ L.pushed → L.completed = 0 →
    1 ≤ L.waiting + L.delayed + L.dead ∨ L.closing < L.processing

/-- The phases of the failure branch, where the job is about to be filed. -/
def Phase.files : Phase → Bool
  | failing => true
  | delaying => true
  | burying => true
  | _ => false

theorem retained_init : Ledger.Retained {} where
  published := published_init
  covered := Nat.le_refl 0
  somewhere h := absurd h (by decide)

theorem retained_step {L L' : Ledger} {m : Move} (h : L.Retained)
    (hrequeue : ∀ attempts, m = .requeue attempts → L.holders = 0) (hs : L.Steps m L') :
    L'.Retained := by
  have hpublished := published_step h.published hs
  obtain ⟨hm, rfl⟩ := hs
  obtain ⟨-, hcovered, hsomewhere⟩ := h
  refine ⟨hpublished, ?_, ?_⟩
  · cases m with
    | die phase =>
      cases phase <;>
        simp only [Ledger.enabled, Ledger.phase, Ledger.apply, Ledger.leave, Ledger.holders]
          at hm hcovered ⊢ <;> omega
    -- the requeue takes an entry, which is nobody's
    | requeue attempts =>
      have := hrequeue attempts rfl
      simp only [Ledger.apply, Ledger.holders] at this hcovered ⊢
      omega
    | _ =>
      simp only [Ledger.enabled, Ledger.apply, Ledger.holders] at hm hcovered ⊢
      omega
  · cases m with
    | die phase =>
      cases phase <;>
        simp only [Ledger.enabled, Ledger.phase, Ledger.apply, Ledger.leave, Ledger.holders]
          at hm hcovered hsomewhere ⊢ <;> omega
    | _ =>
      simp only [Ledger.enabled, Ledger.apply, Ledger.holders] at hm hcovered hsomewhere ⊢
      omega

theorem published_slip {L L' : Ledger} {phase : Phase} (h : L.Published) (hs : L.Slips phase L') :
    L'.Published := by
  obtain ⟨-, hpos, rfl⟩ := hs
  obtain ⟨honce, hcalled, hnowhere⟩ := h
  simp only [Ledger.holders] at hnowhere
  cases phase <;> simp only [Ledger.phase] at hpos <;>
    exact ⟨honce, hcalled, fun h => by
      have := hnowhere h
      simp only [Ledger.slip, Ledger.holders]
      omega⟩

/-- A worker whose command is rejected keeps its entry, unless it was filing the job. -/
theorem retained_slip {L L' : Ledger} {phase : Phase} (h : L.Retained)
    (hphase : phase.files = false) (hs : L.Slips phase L') : L'.Retained := by
  have hpublished := published_slip h.published hs
  obtain ⟨hrunning, hpos, rfl⟩ := hs
  obtain ⟨-, hcovered, hsomewhere⟩ := h
  cases phase with
  | running => exact absurd rfl hrunning
  | failing | delaying | burying => cases hphase
  | _ =>
    refine ⟨hpublished, ?_, ?_⟩
    · simp only [Ledger.phase, Ledger.slip, Ledger.holders] at hpos hcovered ⊢
      omega
    · simp only [Ledger.phase, Ledger.slip, Ledger.holders] at hpos hcovered hsomewhere ⊢
      omega

/-- The worker whose command is rejected. -/
def FaultyAction.rejected? : FaultyAction T → Option Nat
  | reject (.worker w) => some w
  | _ => none

/-- The worker that dies, or whose command is rejected. -/
def FaultyAction.failed? : FaultyAction T → Option Nat
  | act (.crash (.worker w)) => some w
  | a => a.rejected?

theorem FaultyAction.failed?_of_crash {a : FaultyAction T} {w : Nat}
    (h : a.action = .crash (.worker w)) : a.failed? = some w := by
  cases a with
  | act a =>
    obtain rfl : a = .crash (.worker w) := h
    rfl
  | reject component =>
    obtain rfl : component = .worker w := by simpa [FaultyAction.action] using h
    rfl

/-- The watchdog requeues the job only when no live worker holds it, and no command that
files it is rejected. -/
def FilesJob (id : JobId) (r : Faulty T) (a : FaultyAction T) : Prop :=
  (r.config.watchdogTransaction a.action = some id → r.config.holders id = 0) ∧
    ∀ w ∈ a.rejected?, ∀ wk ∈ r.config.workers[w]?, ∀ held ∈ wk.pc.custody,
      held.1 = id → held.2.files = false

instance (id : JobId) (r : Faulty T) (a : FaultyAction T) : Decidable (FilesJob id r a) :=
  inferInstanceAs (Decidable (_ ∧ _))

section Survival

variable {env : Env T} {topology : Topology} {r : Faulty T} {id : JobId}

theorem retained_run (h : Reach (faultyStep env) (FilesJob id) (Faulty.init topology) r) :
    (ledger env r.config id).Retained := by
  refine faulty_ledger_run h id (fun L m => ∀ attempts, m = .requeue attempts → L.holders = 0)
    (fun phase => phase.files = false) Ledger.Retained ?_ ?_ retained_init
    (fun L L' m hL hm hs => retained_step hL hm hs) fun L L' phase hL hphase hs =>
      retained_slip hL hphase hs
  · rintro r a m - ha hlic attempts rfl
    rw [ledger_holders]
    exact ha.1 hlic.watchdogTransaction
  · rintro r a phase ha ⟨w, wk, rfl, hw, hphase⟩
    exact ha.2 w rfl wk hw _ hphase rfl

end Survival

/-- A worker takes a job, its first read is rejected, and it dies. -/
def rejectFetch : List (FaultyAction Unit) :=
  [.act (.enqueue 0 "a" (.core "mail" () .absent none)), .act (.produce 0), .act (.produce 0),
    .act (.work 0 0), .act (.work 0 0), .reject (.worker 0), .act (.crash (.worker 0))]

/-- The copies of a job that may still be taken up, or are in somebody's hands. -/
def Ledger.liveCopies (L : Ledger) : Nat :=
  L.announced + L.waiting + L.delayed + L.dead + (L.processing - L.closing)

/-- A job has one copy at most that may be taken up or is in somebody's hands, not counting the
entries of workers about to clean up. -/
structure Ledger.Sole (L : Ledger) : Prop where
  published : L.Published
  covered : L.holders ≤ L.processing
  sole : L.liveCopies ≤ 1

/-- The moves of a run in which every transaction finds its job where it expects it, and no
worker dies between filing a job and its clean-up. -/
def Ledger.Finds (L : Ledger) : Move → Prop
  | .die phase => phase ≠ .closing
  | .release => 1 ≤ L.delayed
  | .requeue _ => L.holders = 0 ∧ 1 ≤ L.processing
  | .retry => 1 ≤ L.dead
  | _ => True

theorem sole_init : Ledger.Sole {} where
  published := published_init
  covered := Nat.le_refl 0
  sole := Nat.zero_le 1

theorem sole_step {L L' : Ledger} {m : Move} (h : L.Sole) (hm : L.Finds m) (hs : L.Steps m L') :
    L'.Sole := by
  have hpublished := published_step h.published hs
  obtain ⟨hen, rfl⟩ := hs
  obtain ⟨⟨honce, hcalled, hnowhere⟩, hcovered, hsole⟩ := h
  simp only [Ledger.holders] at hnowhere
  refine ⟨hpublished, ?_, ?_⟩
  · cases m with
    | die phase =>
      cases phase <;>
        simp only [Ledger.enabled, Ledger.phase, Ledger.apply, Ledger.leave, Ledger.holders]
          at hen hcovered ⊢ <;> omega
    | _ =>
      simp only [Ledger.enabled, Ledger.Finds, Ledger.apply, Ledger.holders] at hen hm hcovered ⊢
      omega
  · cases m with
    | die phase =>
      cases phase with
      -- the one death that would leave an entry of a job that is elsewhere
      | closing => exact absurd rfl hm
      | _ => exact hsole
    | _ =>
      simp only [Ledger.enabled, Ledger.Finds, Ledger.apply, Ledger.holders, Ledger.liveCopies]
        at hen hm hcovered hsole ⊢
      omega

theorem sole_slip {L L' : Ledger} {phase : Phase} (h : L.Sole) (hphase : phase ≠ .closing)
    (hs : L.Slips phase L') : L'.Sole := by
  have hpublished := published_slip h.published hs
  obtain ⟨hrunning, hpos, rfl⟩ := hs
  obtain ⟨-, hcovered, hsole⟩ := h
  cases phase with
  | running => exact absurd rfl hrunning
  | closing => exact absurd rfl hphase
  | _ =>
    refine ⟨hpublished, ?_, ?_⟩
    · simp only [Ledger.phase, Ledger.slip, Ledger.holders] at hpos hcovered ⊢
      omega
    · simp only [Ledger.phase, Ledger.slip, Ledger.holders, Ledger.liveCopies]
        at hpos hcovered hsole ⊢
      omega

/-- No worker dies or has its command rejected when only the clean-up of the job is left;
the watchdog requeues the job only when it finds an entry that no live worker holds; a
retry finds it on the dead list. -/
def CleansUp (env : Env T) (id : JobId) (r : Faulty T) (a : FaultyAction T) : Prop :=
  (∀ w ∈ a.failed?, ∀ wk ∈ r.config.workers[w]?, wk.pc.custody ≠ some (id, .closing)) ∧
    (r.config.watchdogTransaction a.action = some id →
      r.config.holders id = 0 ∧ id ∈ r.config.store.lists (.processingList env.queueName)) ∧
    (r.config.retryTransaction a.action = some id →
      id ∈ r.config.store.lists (.deadList env.queueName))

instance (env : Env T) (id : JobId) (r : Faulty T) (a : FaultyAction T) :
    Decidable (CleansUp env id r a) :=
  inferInstanceAs (Decidable (_ ∧ _ ∧ _))

section Dispatch

variable {env : Env T} {topology : Topology} {r : Faulty T} {id : JobId}

/-- As long as there is one scheduler, its pass finds what it has still to move. -/
theorem pending_faulty_run {ok : Faulty T → FaultyAction T → Prop}
    (hsole : topology.schedulers ≤ 1)
    (h : Reach (faultyStep env) ok (Faulty.init topology) r) :
    r.config.schedulers.length ≤ 1 ∧ Pending (fun z _ id => id ∈ z.members) env r.config := by
  have hact : ∀ {s s' : Config T} {a : Action T}, s.schedulers.length ≤ 1 →
      Pending (fun z _ id => id ∈ z.members) env s → step env s a = some s' →
        s'.schedulers.length ≤ 1 ∧ Pending (fun z _ id => id ∈ z.members) env s' := by
    intro s s' a hlength hI hs
    refine ⟨(components_step hs).1.trans_le hlength, ?_⟩
    exact pending_step tracked_mem hI (releasesAlone_of_length hlength)
      (fun _ _ _ pc hpc j hj => ZSet.mem_zadd.mpr (.inr (hI.tracked pc hpc j hj))) hs
  refine h.invariant (I := fun r => r.config.schedulers.length ≤ 1 ∧
    Pending (fun z _ id => id ∈ z.members) env r.config) ⟨?_, pending_init _ env topology⟩ ?_
  · exact (List.length_replicate.trans_le hsole :
      (List.replicate topology.schedulers SchedulerPc.idle).length ≤ 1)
  · intro r a r' ⟨hlength, hI⟩ _ hs
    cases faultyStepped hs with
    | act hstep => exact hact hlength hI hstep
    | rejectWorker => exact ⟨hlength, ⟨hI.tracked, hI.nodup⟩⟩
    | reject hother hstep => exact hact hlength hI hstep

theorem sole_run (hsole : topology.schedulers ≤ 1)
    (h : Reach (faultyStep env) (CleansUp env id) (Faulty.init topology) r) :
    (ledger env r.config id).Sole := by
  refine faulty_ledger_run h id Ledger.Finds (fun phase => phase ≠ .closing) Ledger.Sole ?_ ?_
    sole_init (fun L L' m hL hm hs => sole_step hL hm hs) fun L L' phase hL hphase hs =>
      sole_slip hL hphase hs
  · intro r a m hr ⟨hfailed, hwatchdog, hretry⟩ hlic
    cases m with
    | die phase =>
      -- a death in the clean-up is what the guard excludes
      rintro rfl
      obtain ⟨w, wk, ha, hw, hcustody⟩ := hlic
      exact hfailed w (FaultyAction.failed?_of_crash ha) wk hw hcustody
    | release =>
      obtain ⟨pc, hpc, hid⟩ := pending_of_schedulerTransaction hlic.schedulerTransaction
      exact List.count_pos_iff.mpr ((pending_faulty_run hsole hr).2.tracked pc hpc id hid)
    | requeue attempts =>
      obtain ⟨hholders, hentry⟩ := hwatchdog hlic.watchdogTransaction
      exact ⟨ledger_holders env r.config id ▸ hholders, List.count_pos_iff.mpr hentry⟩
    | retry => exact List.count_pos_iff.mpr (hretry hlic.retryTransaction)
    | _ => trivial
  · rintro r a phase ⟨hfailed, -⟩ ⟨w, wk, rfl, hw, hcustody⟩ rfl
    exact hfailed w rfl wk hw hcustody

/-- **One dispatch at a time.** In every run with one scheduler, whatever crashes and
whichever commands are rejected, as long as no worker fails when only the clean-up of this
job is left (after the success transaction, after filing it, or after a command of the two
was rejected), the watchdog requeues only an entry that no live worker holds, and a retry
finds the job on the dead list: at most one worker has the job in hand and is not about to
clean up after it, and while there is one the job is nowhere to be taken. -/
theorem one_dispatch (h : Reach (faultyStep env) (CleansUp env id) (Faulty.init topology) r)
    (hsole : topology.schedulers ≤ 1) :
    r.config.holders id - held r.config.workers id .closing ≤ 1 ∧
      (1 ≤ r.config.holders id - held r.config.workers id .closing →
        r.config.store.waiting env.queueName id = 0 ∧
          id ∉ (r.config.store.delayed env.queueName).members ∧
          id ∉ r.config.store.lists (.deadList env.queueName)) := by
  obtain ⟨-, hcovered, hsole⟩ := sole_run hsole h
  rw [← ledger_holders env]
  have hclosing : held r.config.workers id .closing = (ledger env r.config id).closing := rfl
  rw [hclosing]
  simp only [Ledger.liveCopies] at hsole
  refine ⟨by omega, fun hheld => ⟨?_, ?_, ?_⟩⟩
  · have hwaiting : (ledger env r.config id).waiting = 0 := by omega
    exact hwaiting
  · have hdelayed : (ledger env r.config id).delayed = 0 := by omega
    exact List.count_eq_zero.mp hdelayed
  · have hdead : (ledger env r.config id).dead = 0 := by omega
    exact List.count_eq_zero.mp hdead

end Dispatch

/-- A worker dies while its handler runs; the watchdog requeues the job, and a second worker
has its success transaction rejected. -/
def dieThenReject : List (FaultyAction Unit) :=
  (startOnce ++ [Action.crash (.worker 0), .tick 20000, .watch 0, .watch 0, .watch 0, .watch 0,
    .watch 0, .work 1 0, .work 1 0, .work 1 0, .work 1 0, .work 1 0, .work 1 0,
    .settle 1 .resolve]).map .act ++ [.reject (.worker 1)]

theorem one_dispatch_rejected : ∃ r : Faulty Unit,
    held r.config.workers "a" .failing = 1 ∧
      r.config.holders "a" - held r.config.workers "a" .closing ≤ 1 := by
  obtain ⟨r, hr, hfailing⟩ :=
    exists_reach_of_run (faultyStep mainQueue) (CleansUp mainQueue "a")
      (Faulty.init ⟨1, [["mail"], ["mail"]], 1, 1, 0⟩)
      (fun r => held r.config.workers "a" .failing = 1)
      dieThenReject (by decide +kernel)
  exact ⟨r, hfailing, (one_dispatch hr (Nat.le_refl 1)).1⟩

end DistriSys
