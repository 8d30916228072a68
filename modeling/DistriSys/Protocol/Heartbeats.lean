import DistriSys.Protocol.Terminal

/-!
# Heartbeats

A worker sets the heartbeat of its job before it calls the handler, renews it from an
interval timer, and deletes it in its clean-up. The watchdog takes a job without a
heartbeat for stalled, so a slow handler is safe as long as the heartbeat is there.

- `heartbeats_step`: who changes a heartbeat;
- **`heartbeats_kept`**: it is there for every job with a handler call under way, however
  long the call takes, when the timers fire in time and no other worker's clean-up of the
  same job comes in between.

When each worker has set its heartbeat last is no part of the state, so the run records it
(`noteBeat`). The timers are on time if the clock does not pass `interval` after the last beat
of a worker that renews (`RenewsInTime`). Then the heartbeat in Redis lasts at least its time to
live from that beat (`kept_run`), and is alive if that is no less than the interval.
-/

namespace DistriSys

open Js Redis Transition

variable {T : Type}

/-! ## Who touches a heartbeat -/

/-- The step is a heartbeat of worker `w` for its job `id`, the first or a later one. -/
inductive Config.Beats (s : Config T) (w : Nat) (id : JobId) : Action T → Prop
  | first {draw : Nat} {handlers : List String} {job : Job T}
      (hw : s.workers[w]? = some ⟨handlers, .beat id job⟩) : Beats s w id (.work w draw)
  | renewal {wk : Worker T} (hw : s.workers[w]? = some wk) (hid : wk.pc.renews = some id) :
      Beats s w id (.renew w)

/-- The job whose clean-up the step runs. -/
def Config.cleanUp (s : Config T) : Action T → Option JobId
  | .work w _ =>
    match s.workers[w]? with
    | some ⟨_, .cleanup jobId⟩ => some jobId
    | _ => none
  | _ => none

section Steps

variable {env : Env T} {s s' : Config T} {a : Action T} {id : JobId} {w : Nat}

/-- **Who changes a heartbeat**: the workers that beat, and the clean-ups. -/
theorem heartbeats_step (hs : step env s a = some s') (id : JobId) :
    s'.store.heartbeats id = s.store.heartbeats id ∨
      (∃ w, s.Beats w id a ∧
        s'.store.heartbeats id = some (.setEx s.clock env.config.heartbeatTtlSec ())) ∨
      s.cleanUp a = some id ∧ s'.store.heartbeats id = none := by
  cases stepped hs with
  | @produce i pc e hi he =>
    left
    cases pc with
    | idle => cases he
    | claim jobId job key =>
      show e.store.heartbeats id = _
      rw [store_of_claim he, Store.idempotentEnqueue]
      split <;> rfl
    | _ => cases he; rfl
  | @work w draw wk e hw he =>
    obtain ⟨handlers, pc⟩ := wk
    cases pc with
    | poll p =>
      left
      simp only [workerStep] at he
      split at he
      · next jobId st' hpop =>
        cases he
        obtain ⟨rest, -, rfl⟩ := Store.rpoplpush_eq_some hpop
        rfl
      · cases he
        rfl
    | fetch jobId =>
      left
      simp only [workerStep] at he
      split at he
      · cases he
        rfl
      · split at he <;> cases he <;> rfl
    | beat jobId job =>
      cases he
      by_cases hid : id = jobId
      · subst hid
        -- the first beat, before the handler is called
        exact .inr (.inl ⟨w, .first hw, Function.update_self ..⟩)
      · exact .inl (Function.update_of_ne hid ..)
    | cleanup jobId =>
      cases he
      by_cases hid : id = jobId
      · subst hid
        exact .inr (.inr ⟨by simp [Config.cleanUp, hw], Function.update_self ..⟩)
      · exact .inl (Function.update_of_ne hid ..)
    | running => cases he
    | crashed => cases he
    | _ => cases he; exact .inl rfl
  | @renew w wk jobId hw hid =>
    by_cases heq : id = jobId
    · subst heq
      exact .inr (.inl ⟨w, .renewal hw hid, Function.update_self ..⟩)
    · exact .inl (Function.update_of_ne heq ..)
  | @schedule i pc hi =>
    left
    cases pc <;> rfl
  | @watch i pc hi =>
    left
    cases pc with
    | requeue jobId jobHash rest =>
      show (requeueTransaction env s.store jobId jobHash).heartbeats id = _
      -- the watchdog leaves the heartbeat alone: it had none
      unfold requeueTransaction
      split <;> rfl
    | _ => rfl
  | @respond i pc e hi he =>
    left
    cases pc with
    | idle => cases he
    | requeue => cases he; rfl
  | _ => exact .inl rfl

/-- A worker that keeps a heartbeat has just set it for the first time, or kept it before. -/
theorem renews_step (hs : step env s a = some s') {wk' : Worker T}
    (hw' : s'.workers[w]? = some wk') (hid : wk'.pc.renews = some id) :
    s.Beats w id a ∨ ∃ wk, s.workers[w]? = some wk ∧ wk.pc.renews = some id := by
  cases movedAt_of_step hs hw' with
  | still hother hw => exact .inr ⟨wk', hw, hid⟩
  | died hcrashed =>
    rw [hcrashed] at hid
    cases hid
  | registered ha hw hsame => exact .inr ⟨_, hw, hsame ▸ hid⟩
  | @worked draw wk e ha hw he hpc =>
    subst ha
    rw [hpc] at hid
    obtain ⟨handlers, pc⟩ := wk
    cases pc with
    | poll p =>
      simp only [workerStep] at he
      split at he <;> cases he <;> cases hid
    | fetch jobId =>
      simp only [workerStep] at he
      split at he
      · cases he
        cases hid
      · split at he <;> cases he <;> cases hid
    | markActive jobId job =>
      cases he
      dsimp only at hid
      split at hid <;> cases hid
    | beat jobId job =>
      cases he
      cases hid
      exact .inl (.first hw)
    | countFailure jobId job =>
      cases he
      -- the timer runs until the clean-up, so also while a failure is filed
      refine .inr ⟨_, hw, ?_⟩
      dsimp only [retryOrBury] at hid
      split at hid <;> exact hid
    | writeDelayed => cases he; exact .inr ⟨_, hw, hid⟩
    | writeDead => cases he; exact .inr ⟨_, hw, hid⟩
    | running => cases he
    | crashed => cases he
    | _ =>
      cases he
      cases hid
  | @settled outcome wk pc' events ha hw he hpc =>
    rw [hpc] at hid
    obtain ⟨handlers, pc⟩ := wk
    cases pc with
    | running jobId job startTime =>
      refine .inr ⟨_, hw, ?_⟩
      -- and after a handler that resolved
      cases outcome <;> cases he <;> exact hid
    | _ => cases he

end Steps

/-! ## The history of the beats -/

/-- When each worker set its heartbeat last. -/
def noteBeat (s : Config T) (a : Action T) (_ : Config T) (lastBeat : Nat → Nat) : Nat → Nat :=
  match a with
  | .work w _ =>
    match s.workers[w]? with
    | some ⟨_, .beat _ _⟩ => Function.update lastBeat w s.clock
    | _ => lastBeat
  | .renew w => Function.update lastBeat w s.clock
  | _ => lastBeat

/-- A run with the heartbeats noted so far. -/
abbrev Beating (T : Type) := Recorded (Config T) (Nat → Nat)

/-- Time does not pass the next tick of an interval timer that is running. -/
def RenewsInTime (interval : Nat) (r : Beating T) : Action T → Prop
  | .tick ms => ∀ e ∈ r.state.workers.zipIdx, e.1.pc.renews.isSome = true →
      r.state.clock + ms ≤ r.history e.2 + interval
  | _ => True

/-- A clean-up runs only when no other worker keeps a heartbeat for its job. -/
def CleansAlone (s : Config T) (a : Action T) : Prop :=
  ∀ id ∈ s.cleanUp a, ∀ wk ∈ s.otherWorkers a, wk.pc.renews ≠ some id

instance (interval : Nat) (r : Beating T) (a : Action T) : Decidable (RenewsInTime interval r a) :=
  match a with
  | .tick ms => inferInstanceAs (Decidable (∀ e ∈ r.state.workers.zipIdx,
      e.1.pc.renews.isSome = true → r.state.clock + ms ≤ r.history e.2 + interval))
  | .enqueue .. | .produce .. | .work .. | .settle .. | .renew .. | .process .. | .schedule ..
  | .watch .. | .request .. | .respond .. | .crash .. => .isTrue trivial

instance (s : Config T) (a : Action T) : Decidable (CleansAlone s a) :=
  inferInstanceAs (Decidable (∀ id ∈ s.cleanUp a, ∀ wk ∈ s.otherWorkers a, wk.pc.renews ≠ some id))

/-- The heartbeat of a worker's job: renewed in time, and to last at least a lifetime. -/
structure Kept (env : Env T) (interval : Nat) (r : Beating T) (w : Nat) (id : JobId) : Prop where
  past : r.history w ≤ r.state.clock
  punctual : r.state.clock ≤ r.history w + interval
  kept : ∃ v, r.state.store.heartbeats id = some v ∧
    r.history w + env.config.heartbeatTtlSec * 1000 ≤ v.expiresAt

section Beats

variable {env : Env T} {s s' : Config T} {a : Action T} {id : JobId} {w interval : Nat}
  {r r' : Beating T} {lastBeat : Nat → Nat}

theorem noteBeat_of_beats (h : s.Beats w id a) : noteBeat s a s' lastBeat w = s.clock := by
  cases h with
  | first hw => simp [noteBeat, hw]
  | renewal => simp [noteBeat]

/-- Of a worker that keeps a heartbeat only its own beats are noted. -/
theorem noteBeat_of_renews {wk : Worker T} (a : Action T) (s' : Config T)
    (lastBeat : Nat → Nat) (hw : s.workers[w]? = some wk) (hid : wk.pc.renews = some id) :
    noteBeat s a s' lastBeat w = lastBeat w ∨ s.Beats w id a := by
  cases a with
  | work v draw =>
    left
    have hnote : noteBeat s (.work v draw) s' lastBeat = lastBeat ∨
        ∃ handlers jobId job, s.workers[v]? = some ⟨handlers, .beat jobId job⟩ ∧
          noteBeat s (.work v draw) s' lastBeat = Function.update lastBeat v s.clock := by
      unfold noteBeat
      dsimp only
      split
      · next hv => exact .inr ⟨_, _, _, hv, rfl⟩
      · exact .inl rfl
    rcases hnote with hsame | ⟨handlers, jobId, job, hv, hset⟩
    · exact congrFun hsame w
    · rw [hset]
      refine Function.update_of_ne ?_ ..
      rintro rfl
      obtain rfl := Option.some.inj (hw.symm.trans hv)
      cases hid
  | renew v =>
    by_cases hv : w = v
    · subst hv
      exact .inr (.renewal hw hid)
    · exact .inl (Function.update_of_ne hv ..)
  | _ => exact .inl rfl

theorem heartbeats_of_beats (h : s.Beats w id a) (hs : step env s a = some s') :
    s'.store.heartbeats id = some (.setEx s.clock env.config.heartbeatTtlSec ()) := by
  cases h with
  | first hw =>
    cases stepped hs with
    | work hw' he =>
      obtain rfl := Option.some.inj (hw.symm.trans hw')
      cases he
      exact Function.update_self ..
  | renewal hw hid =>
    cases stepped hs with
    | renew hw' hid' =>
      obtain rfl := Option.some.inj (hw.symm.trans hw')
      obtain rfl := Option.some.inj (hid.symm.trans hid')
      exact Function.update_self ..

/-- The clean-up of another worker's job. -/
theorem cleanUp_ne (halone : CleansAlone s a) {wk : Worker T} (hw : s.workers[w]? = some wk)
    (hid : wk.pc.renews = some id) : s.cleanUp a ≠ some id := by
  intro hclean
  cases a with
  | work v draw =>
    refine halone id hclean wk ?_ hid
    refine List.mem_eraseIdx_iff_getElem?.mpr ⟨w, ?_, hw⟩
    rintro rfl
    obtain ⟨handlers, pc⟩ := wk
    cases pc with
    | cleanup => cases hid
    | _ => simp [Config.cleanUp, hw] at hclean
  | _ => cases hclean

/-- A beat lasts as long as a heartbeat does. -/
theorem kept_of_beats (h : s.Beats w id a) (hs : step env s a = some s') :
    Kept env interval ⟨s', noteBeat s a s' lastBeat⟩ w id := by
  have hclock : s'.clock = s.clock := by
    cases stepped hs with
    | tick => cases h
    | _ => rfl
  have hnote : noteBeat s a s' lastBeat w = s'.clock := (noteBeat_of_beats h).trans hclock.symm
  refine ⟨hnote.le, ?_, _, heartbeats_of_beats h hs, ?_⟩
  · show s'.clock ≤ noteBeat s a s' lastBeat w + interval
    omega
  · show noteBeat s a s' lastBeat w + _ ≤ _
    rw [hnote, hclock]
    exact Nat.le_refl _

/-- **One step.** -/
theorem kept_step (hkept : ∀ w wk id, r.state.workers[w]? = some wk → wk.pc.renews = some id →
      Kept env interval r w id)
    (hrenews : RenewsInTime interval r a) (halone : CleansAlone r.state a)
    (hr : recording (step env) noteBeat r a = some r') {wk' : Worker T}
    (hw' : r'.state.workers[w]? = some wk') (hid : wk'.pc.renews = some id) :
    Kept env interval r' w id := by
  obtain ⟨s', hs, rfl⟩ := recording_eq_some hr
  rcases renews_step hs hw' hid with hbeats | ⟨wk, hw, hwk⟩
  · exact kept_of_beats hbeats hs
  rcases noteBeat_of_renews a s' r.history hw hwk with hsame | hbeats
  · obtain ⟨hpast, hpunctual, v, hv, hexpires⟩ := hkept w wk id hw hwk
    refine ⟨?_, ?_, ?_⟩
    · exact (hsame.le.trans hpast).trans (clock_step hs)
    · show s'.clock ≤ noteBeat r.state a s' r.history w + interval
      rw [hsame]
      cases stepped hs with
      | tick ms =>
        exact hrenews (wk, w) (List.mem_zipIdx_iff_getElem?.mpr hw) (by rw [hwk]; rfl)
      | _ => exact hpunctual
    · show ∃ v, s'.store.heartbeats id = some v ∧
        noteBeat r.state a s' r.history w + env.config.heartbeatTtlSec * 1000 ≤ v.expiresAt
      rw [hsame]
      rcases heartbeats_step hs id with hstill | ⟨v', -, hset⟩ | ⟨hclean, -⟩
      · exact ⟨v, hstill.trans hv, hexpires⟩
      · exact ⟨_, hset, Nat.add_le_add_right hpast _⟩
      · exact absurd hclean (cleanUp_ne halone hw hwk)
  · exact kept_of_beats hbeats hs

end Beats

/-! ## Slow handlers -/

section Runs

variable {env : Env T} {topology : Topology} {interval : Nat} {r : Beating T}

theorem kept_run {ok : Beating T → Action T → Prop}
    (hok : ∀ r a, ok r a → RenewsInTime interval r a ∧ CleansAlone r.state a)
    (h : Reach (recording (step env) noteBeat) ok ⟨init topology, fun _ => 0⟩ r) {w : Nat}
    {wk : Worker T} {id : JobId} (hw : r.state.workers[w]? = some wk)
    (hid : wk.pc.renews = some id) : Kept env interval r w id := by
  refine h.invariant (I := fun r => ∀ w wk id, r.state.workers[w]? = some wk →
    wk.pc.renews = some id → Kept env interval r w id) ?_ ?_ w wk id hw hid
  · intro w wk id hw hid
    obtain ⟨handlers, -, rfl⟩ := List.mem_map.mp (List.mem_of_getElem? hw)
    cases hid
  · intro r a r' hI ha hs w wk id hw hid
    exact kept_step hI (hok r a ha).1 (hok r a ha).2 hs hw hid

theorem Kept.alive {w : Nat} {id : JobId} (h : Kept env interval r w id)
    (hinterval : interval ≤ env.config.heartbeatTtlSec * 1000) :
    r.state.store.alive r.state.clock id = true := by
  obtain ⟨-, hpunctual, v, hv, hexpires⟩ := h
  have hlive : r.state.clock ≤ v.expiresAt := by omega
  simp [Store.alive, hv, Volatile.get?, hlive]

/-- **Heartbeats are kept.** When the interval timers fire in time, at intervals no longer
than the life of a heartbeat, and a clean-up never hits a job that another worker keeps a
heartbeat for, no job with a handler call under way is ever taken for stalled. -/
theorem heartbeats_kept (h : Reach (recording (step env) noteBeat)
      (fun r a => RenewsInTime interval r a ∧ CleansAlone r.state a)
      ⟨init topology, fun _ => 0⟩ r)
    (hinterval : interval ≤ env.config.heartbeatTtlSec * 1000) {wk : Worker T} {id : JobId}
    (hwk : wk ∈ r.state.workers) (hid : wk.pc.renews = some id) :
    r.state.store.alive r.state.clock id = true ∧
      ∀ jobIds, id ∉ (watchdogStep env r.state.clock r.state.store
        (.readHeartbeats jobIds)).pc.pending := by
  obtain ⟨w, hw⟩ := List.mem_iff_getElem?.mp hwk
  have halive := (kept_run (fun _ _ h => h) h hw hid).alive hinterval
  refine ⟨halive, fun jobIds hmem => ?_⟩
  simp [watchdogStep, halive] at hmem

end Runs

/-- A handler call that takes longer than a heartbeat lives. -/
def slowHandler : List (Action Unit) :=
  [.tick 5000, .renew 0, .tick 5000, .renew 0, .tick 5000, .renew 0, .tick 5000, .renew 0]

/-- The heartbeat of a job is there after four renewals. -/
theorem heartbeats_kept_slow : ∃ r : Beating Unit,
    r.state.clock = 20000 ∧ r.state.store.alive 20000 "a" = true := by
  obtain ⟨r, hr, hclock, hrenews⟩ :=
    exists_reach_of_run (recording (step mainQueue) noteBeat)
      (fun r a => RenewsInTime 5000 r a ∧ CleansAlone r.state a)
      ⟨init ⟨1, [["mail"]], 1, 1, 0⟩, fun _ => 0⟩
      (fun r => r.state.clock = 20000 ∧ ∃ wk ∈ r.state.workers, wk.pc.renews = some "a")
      (startOnce ++ slowHandler)
      (by decide +kernel)
  obtain ⟨wk, hwk, hid⟩ := hrenews
  exact ⟨r, hclock, hclock ▸ (heartbeats_kept hr (by decide) hwk hid).1⟩

end DistriSys
