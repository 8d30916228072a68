import DistriSys.Protocol.Exclusive
import DistriSys.Protocol.Frame

/-!
# Terminal states

In orderly runs a completed job is done with and a dead one waits for a retry
request (**`terminal_states_absorbing`**): the one open copy of `Ledger.Single`
is the settled or the buried one, so nobody is left to write another status.

`completed_job_revived` is the run behind the assumption: the watchdog reads the
processing list before, and the heartbeats after, a worker finishes its job, and
puts the completed job back on a waiting list.

`Ledger.Settled` adds the status to `Ledger.Single`: after the last dispatch of a job has been
filed, only the clean-up is left, and it writes no record.
-/

namespace DistriSys

open Js Redis Transition

variable {T : Type}

/-- The record says what happened to the job last. -/
structure Ledger.Settled (L : Ledger) : Prop where
  completed : 1 ≤ L.completed → L.status = some JobStatus.completed.name
  dead : 1 ≤ L.burying + L.dead → L.status = some JobStatus.dead.name

theorem settled_init : Ledger.Settled {} where
  completed h := absurd h (by decide)
  dead h := absurd h (by decide)

/-- Moves that write a status need a copy of their own. -/
theorem settled_step {L L' : Ledger} {m : Move} (hL : L.Single) (h : L.Settled)
    (hm : L.Orderly m) (hs : L.Steps m L') : L'.Settled := by
  obtain ⟨hen, rfl⟩ := hs
  obtain ⟨⟨honce, hcalled, hnowhere⟩, hcovered, hsingle, hsettled⟩ := hL
  obtain ⟨hcompleted, hdead⟩ := h
  simp only [Ledger.holders] at hnowhere hcovered
  simp only [Ledger.openCopies] at hsingle
  -- moves that leave the status alone, and bring nothing new into the two states
  have hkeep : ∀ L' : Ledger, L'.status = L.status → L'.completed = L.completed →
      L'.burying + L'.dead ≤ L.burying + L.dead → L'.Settled := fun L' hs hc hd =>
    ⟨fun h => hs ▸ hcompleted (hc ▸ h), fun h => hs ▸ hdead (h.trans hd)⟩
  -- moves that write a status, with the job neither completed nor dead afterwards
  have hfree : ∀ L' : Ledger, L'.completed = 0 → L'.burying + L'.dead = 0 → L'.Settled :=
    fun L' hc hd => ⟨fun h => absurd h (by omega), fun h => absurd h (by omega)⟩
  cases m with
  | die phase => exact hm.elim
  | complete =>
    simp only [Ledger.enabled] at hen
    exact ⟨fun _ => rfl, fun h => absurd h (by simp only [Ledger.apply]; omega)⟩
  | failDead attempts =>
    simp only [Ledger.enabled] at hen
    exact ⟨fun h => absurd h (by simp only [Ledger.apply]; omega), fun _ => rfl⟩
  | save | erase | activate | misfit | failDelayed attempts | release | requeue attempts | retry =>
    simp only [Ledger.enabled, Ledger.Orderly, Ledger.holders] at hen hm
    exact hfree _ (by simp only [Ledger.apply]; omega) (by simp only [Ledger.apply]; omega)
  | bury =>
    simp only [Ledger.enabled] at hen
    exact hkeep _ rfl rfl (by simp only [Ledger.apply]; omega)
  | _ => exact hkeep _ rfl rfl (Nat.le_refl _)

section Runs

variable {env : Env T} {topology : Topology} {s s' : Config T} {id : JobId}

theorem settled_run (hsole : topology.schedulers ≤ 1)
    (h : Reach (step env) (Orderly env) (init topology) s) (id : JobId) :
    (ledger env s id).Single ∧ (ledger env s id).Settled :=
  ledger_run h id Ledger.Orderly (fun L => L.Single ∧ L.Settled)
    (fun _ _ _ hr ha hm => orderly_licensed hsole hr ha hm)
    ⟨single_init, settled_init⟩
    fun _ _ _ hL hm hs => ⟨single_step hL.1 hm hs, settled_step hL.1 hL.2 hm hs⟩

theorem not_mem_waiting (h : (ledger env s id).waiting = 0) (p : JobPriority) :
    id ∉ s.store.lists (.waitingList env.queueName p.name) := by
  intro hmem
  have hpos : 0 < (s.store.lists (.waitingList env.queueName p.name)).count id :=
    List.count_pos_iff.mpr hmem
  have hsum : s.store.waiting env.queueName id = 0 := h
  cases p <;> simp [Store.waiting, priorities] at hsum <;>
    exact absurd hmem (List.count_eq_zero.mp (by omega))

/-- **Terminal states are absorbing.** In an orderly run with one scheduler, once
the success transaction has run the job stays `completed` and on no list; once a
job lies on the dead list it stays there, `dead` and on no waiting list, until a
retry transaction takes it. -/
theorem terminal_states_absorbing (h : Reach (step env) (Orderly env) (init topology) s)
    (hsole : topology.schedulers ≤ 1) (id : JobId) :
    (.completed id ∈ s.log →
      (s.store.jobs id).status = some JobStatus.completed.name ∧
        (∀ p : JobPriority, id ∉ s.store.lists (.waitingList env.queueName p.name)) ∧
        id ∉ (s.store.delayed env.queueName).members ∧
        id ∉ s.store.lists (.deadList env.queueName)) ∧
    (id ∈ s.store.lists (.deadList env.queueName) →
      ∀ t, Reach (step env) (fun u a => Orderly env u a ∧ u.retryTransaction a ≠ some id) s t →
        id ∈ t.store.lists (.deadList env.queueName) ∧
          (t.store.jobs id).status = some JobStatus.dead.name ∧
          ∀ p : JobPriority, id ∉ t.store.lists (.waitingList env.queueName p.name)) := by
  constructor
  · intro hcompleted
    obtain ⟨hsingle, hsettled⟩ := settled_run hsole h id
    have hpos : 1 ≤ (ledger env s id).completed := List.count_pos_iff.mpr hcompleted
    obtain ⟨-, -, hone, hsum⟩ := hsingle
    simp only [Ledger.openCopies] at hone
    -- the resolved call has used up the only copy
    have hdelayed : (ledger env s id).delayed = 0 := by omega
    have hdead : (ledger env s id).dead = 0 := by omega
    exact ⟨hsettled.completed hpos, not_mem_waiting (by omega), List.count_eq_zero.mp hdelayed,
      List.count_eq_zero.mp hdead⟩
  · intro hdead t ht
    have hreach : Reach (step env) (Orderly env) (init topology) t :=
      h.trans (ht.mono fun _ _ hok => hok.1)
    have hmem : id ∈ t.store.lists (.deadList env.queueName) :=
      ht.invariant' (I := fun t => id ∈ t.store.lists (.deadList env.queueName)) hdead
        fun u a u' _ hmem hok hs => dead_kept hs hok.2 hmem
    -- the copy on the dead list is the only one
    obtain ⟨hsingle, hsettled⟩ := settled_run hsole hreach id
    have hpos : 1 ≤ (ledger env t id).dead := List.count_pos_iff.mpr hmem
    obtain ⟨-, -, hone, -⟩ := hsingle
    simp only [Ledger.openCopies] at hone
    exact ⟨hmem, hsettled.dead (by omega), not_mem_waiting (by omega)⟩

end Runs

/-- A run of one worker to the call of the handler. -/
def startOnce : List (Action Unit) :=
  [.enqueue 0 "a" (.core "mail" () .absent none), .produce 0, .produce 0,
    .work 0 0, .work 0 0, .work 0 0, .work 0 0, .work 0 0, .work 0 0]

/-- A watchdog pass over a finished job. -/
theorem terminal_states_absorbing_watched :
    ∃ s : Config Unit, .completed "a" ∈ s.log ∧
      (s.store.jobs "a").status = some JobStatus.completed.name := by
  obtain ⟨s, hs, hcompleted⟩ :=
    exists_reach_of_run (step mainQueue) (Orderly mainQueue)
      (init ⟨1, [["mail"]], 1, 1, 0⟩) (fun s => .completed "a" ∈ s.log)
      (startOnce ++ [.settle 0 .resolve, .work 0 0, .watch 0, .watch 0, .watch 0, .work 0 0,
        .watch 0, .watch 0])
      (by decide +kernel)
  have habsorbing := terminal_states_absorbing hs (Nat.le_refl 1) "a"
  exact ⟨s, hcompleted, (habsorbing.1 hcompleted).1⟩

/-- **A completed job comes back**: the watchdog has the id from the processing
list, the worker completes the job and cleans up, and the pass then finds no
heartbeat. -/
theorem completed_job_revived :
    ¬ ∀ s : Config Unit, Reach (step mainQueue) HeartbeatsKept
        (init ⟨1, [["mail"]], 1, 1, 0⟩) s →
      ∀ id, .completed id ∈ s.log →
        (s.store.jobs id).status = some JobStatus.completed.name ∨
          id ∉ s.store.lists (.waitingList "main_queue" "normal") := by
  intro h
  obtain ⟨s, hs, hcompleted, hstatus, hwaiting⟩ :=
    exists_reach_of_run (step mainQueue) HeartbeatsKept
      (init ⟨1, [["mail"]], 1, 1, 0⟩)
      (fun s => .completed "a" ∈ s.log ∧
        (s.store.jobs "a").status = some JobStatus.waiting.name ∧
        "a" ∈ s.store.lists (.waitingList "main_queue" "normal"))
      (startOnce ++ [.watch 0, .watch 0, .settle 0 .resolve, .work 0 0, .work 0 0,
        .watch 0, .watch 0, .watch 0])
      (by decide +kernel)
  rcases h s hs "a" hcompleted with hkept | hnot
  · rw [hstatus] at hkept
    exact absurd hkept (by decide)
  · exact hnot hwaiting

end DistriSys
