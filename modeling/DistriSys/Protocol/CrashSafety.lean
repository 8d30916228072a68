import DistriSys.Protocol.Refinement

/-!
# No job is lost to a crash

A worker moves a job to the processing list in the command that takes it, and
removes the entry only after the job has been filed elsewhere. So as long as no
handler call has resolved, some copy of the job is left, whoever dies
(**`crash_safety`**), provided the watchdog requeues dead dispatches only.

The count behind it, `Ledger.Covered`: the processing list has an entry for
every holder; and while nothing has resolved, a job that has left the waiting
lists, the delayed set and the dead list has an entry beyond those that the
workers who have already filed it are about to remove.

Nothing is assumed about how many passes, requests or deaths there are, nor about their order.
-/

namespace DistriSys

open Js Redis Transition

variable {T : Type}

/-- Enough copies of a job are left for whoever dies next. -/
structure Ledger.Covered (L : Ledger) : Prop where
  published : L.Published
  covered : L.holders ≤ L.processing
  somewhere : 1 ≤ L.pushed → L.resolved = 0 →
    1 ≤ L.waiting + L.delayed + L.dead ∨ L.completing + L.closing < L.processing

theorem covered_init : Ledger.Covered {} where
  published := published_init
  covered := Nat.le_refl 0
  somewhere h := absurd h (by decide)

/-- A worker files a job before it gives up its entry; the watchdog takes an
entry only when nobody holds the job. -/
theorem covered_step {L L' : Ledger} {m : Move} (h : L.Covered)
    (hrequeue : ∀ attempts, m = .requeue attempts → L.holders = 0) (hs : L.Steps m L') :
    L'.Covered := by
  have hpublished := published_step h.published hs
  obtain ⟨hm, rfl⟩ := hs
  obtain ⟨-, hcovered, hsomewhere⟩ := h
  refine ⟨hpublished, ?_, ?_⟩
  · cases m with
    | die phase =>
      cases phase <;>
        simp only [Ledger.enabled, Ledger.phase, Ledger.apply, Ledger.leave, Ledger.holders]
          at hm hcovered ⊢ <;> omega
    -- the entry that goes may be anybody's, so nobody may hold the job
    | requeue attempts =>
      have := hrequeue attempts rfl
      simp only [Ledger.apply, Ledger.holders] at this hcovered ⊢
      omega
    | _ =>
      simp only [Ledger.enabled, Ledger.apply, Ledger.holders] at hm hcovered ⊢
      omega
  · cases m with
    | die phase =>
      cases phase <;>
        simp only [Ledger.enabled, Ledger.phase, Ledger.apply, Ledger.leave, Ledger.holders]
          at hm hcovered hsomewhere ⊢ <;> omega
    | _ =>
      simp only [Ledger.enabled, Ledger.apply, Ledger.holders] at hm hcovered hsomewhere ⊢
      omega

/-- A watchdog transaction runs only when no live worker holds its job. -/
def OnlyDead (s : Config T) (a : Action T) : Prop :=
  ∀ id ∈ s.watchdogTransaction a, s.holders id = 0

instance (s : Config T) (a : Action T) : Decidable (OnlyDead s a) :=
  inferInstanceAs (Decidable (∀ id ∈ s.watchdogTransaction a, s.holders id = 0))

section Runs

variable {env : Env T} {topology : Topology} {s : Config T} {id : JobId}

theorem covered_run {ok : Config T → Action T → Prop} (hok : ∀ s a, ok s a → OnlyDead s a)
    (h : Reach (step env) ok (init topology) s) (id : JobId) : (ledger env s id).Covered := by
  refine ledger_run h id (fun L m => ∀ attempts, m = .requeue attempts → L.holders = 0)
    Ledger.Covered ?_ covered_init fun L L' m hL hm hs => covered_step hL hm hs
  rintro s a m - ha hlic attempts rfl
  rw [ledger_holders]
  exact hok s a ha id hlic.watchdogTransaction

theorem mem_waiting_of_pos (h : 1 ≤ s.store.waiting env.queueName id) :
    ∃ p : JobPriority, id ∈ s.store.lists (.waitingList env.queueName p.name) := by
  by_contra hnone
  push Not at hnone
  simp [Store.waiting, priorities, List.count_eq_zero.mpr (hnone _)] at h

end Runs

end DistriSys
