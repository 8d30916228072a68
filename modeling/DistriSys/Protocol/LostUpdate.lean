import DistriSys.Protocol.Attempts
import DistriSys.Protocol.Terminal

/-!
# Lost attempts

A failure branch and a watchdog transaction both write back the attempts they
read earlier, plus one. As long as what was read is still what is stored when
the write comes, no attempt is lost: the record counts the failure writes and
the requeues of the job (**`no_attempt_lost`**). A schedule meets that condition on which
one watchdog takes a job up only when no live worker holds it and it is filed nowhere else
(`readsCurrent_run`): then a worker or a watchdog that has read the attempts is the only one
to write them.

Nothing in the code makes it so, and `late_failure_overwrites` is a run in which a worker
that was taken for dead writes its count over those of the watchdog and of its successor.
-/

namespace DistriSys

open Js Redis Transition

variable {T : Type}

/-! ## The invariant of the life cycle -/

/-- The stored count is the number of advances. -/
structure Ledger.Counted (L : Ledger) : Prop where
  published : L.Published
  stored : ∀ attempts, L.attempts = some attempts → attempts = Nat.repr L.advances

/-- The attempts a move writes over those of a running job. -/
def Move.advance? : Move → Option String
  | .failDelayed attempts => some attempts
  | .failDead attempts => some attempts
  | .requeue attempts => some attempts
  | _ => none

/-- Moves that write the stored count plus one, or no count at all. -/
def Ledger.UpToDate (L : Ledger) (m : Move) : Prop :=
  m ≠ .retry ∧ ∀ attempts, m.advance? = some attempts →
    ∃ n : Nat, L.attempts = some (Nat.repr n) ∧ attempts = Nat.repr (n + 1)

theorem counted_init : Ledger.Counted {} where
  published := published_init
  stored _ h := by cases h

theorem counted_step {L L' : Ledger} {m : Move} (h : L.Counted) (hm : L.UpToDate m)
    (hs : L.Steps m L') : L'.Counted := by
  refine ⟨published_step h.published hs, ?_⟩
  obtain ⟨hen, rfl⟩ := hs
  obtain ⟨⟨-, -, hnowhere⟩, hstored⟩ := h
  -- a move that advances the count writes the number of advances it makes it
  have hadvance : ∀ attempts, m.advance? = some attempts → attempts = Nat.repr (L.advances + 1) := by
    intro attempts hattempts
    obtain ⟨n, hn, rfl⟩ := hm.2 attempts hattempts
    have hsame := congrArg parseInt (hstored _ hn)
    rw [parseInt_repr, parseInt_repr] at hsame
    obtain rfl : n = L.advances := Int.ofNat_inj.mp (JsNumber.int.inj hsame)
    rfl
  cases m with
  | failDelayed attempts =>
    rintro _ ⟨⟩
    rw [hadvance _ rfl]
    exact congrArg Nat.repr (by simp only [Ledger.apply, Ledger.advances]; omega)
  | failDead attempts =>
    rintro _ ⟨⟩
    rw [hadvance _ rfl]
    exact congrArg Nat.repr (by simp only [Ledger.apply, Ledger.advances]; omega)
  | requeue attempts =>
    rintro _ ⟨⟩
    rw [hadvance _ rfl]
    exact congrArg Nat.repr (by simp only [Ledger.apply, Ledger.advances]; omega)
  | save =>
    -- a fresh record says zero, and nothing has happened to the job yet
    rintro _ ⟨⟩
    obtain ⟨-, -, -, -, -, -, -, hfailed, hrequeued⟩ := hnowhere hen.2
    have hzero : L.failed + L.requeued = 0 := by omega
    show "0" = Nat.repr (L.failed + L.requeued)
    rw [hzero]
    rfl
  | erase => rintro _ ⟨⟩
  | retry => exact absurd rfl hm.1
  | die phase => cases phase <;> exact hstored
  | _ => exact hstored

/-! ## Runs -/

/-- The job whose attempts the step advances, and the count it writes. -/
def Config.advances (s : Config T) : Action T → Option (JobId × JsNumber)
  | .work w _ =>
    match s.workers[w]? with
    | some ⟨_, .writeDelayed id nextAttempt _⟩ => some (id, nextAttempt)
    | some ⟨_, .writeDead id nextAttempt⟩ => some (id, nextAttempt)
    | _ => none
  | .watch i =>
    match s.watchdogs[i]? with
    | some (.requeue id jobHash _) =>
      if jobHash.isEmpty then none else some (id, requeueAttempts jobHash)
    | _ => none
  | _ => none

/-- The attempts a record holds, as every reader takes them. -/
def Store.storedAttempts (st : Store) (id : JobId) : JsNumber := parseIntField (st.jobs id).attempts

/-- No retry transaction runs, and a step that advances the attempts of a job
counts on from those that are stored: nobody has written them since it read them. -/
def ReadsCurrent (s : Config T) (a : Action T) : Prop :=
  s.retryTransaction a = none ∧
    ∀ x ∈ s.advances a, x.2 = (s.store.storedAttempts x.1).addOne

instance (s : Config T) (a : Action T) : Decidable (ReadsCurrent s a) :=
  inferInstanceAs (Decidable (_ ∧ _))

/-- The failure writes and requeues of a job. -/
def Config.advanceCount (s : Config T) (id : JobId) : Nat :=
  s.log.count (.failed id) + s.log.count (.requeued id)

/-- In `s` and in the later state `t` the record of a job, where it is there,
counts the failure writes and requeues; it has not gone down. -/
structure AttemptsKept (s t : Config T) (id : JobId) : Prop where
  before : s.store.jobs id ≠ .absent → s.store.storedAttempts id = .int (s.advanceCount id)
  after : t.store.jobs id ≠ .absent → t.store.storedAttempts id = .int (t.advanceCount id)
  le : s.advanceCount id ≤ t.advanceCount id

section Runs

variable {env : Env T} {topology : Topology} {s t : Config T} {a : Action T} {id : JobId} {m : Move}

/-- The move of a step that advances a count is one of a pushed job. -/
theorem Licensed.advances (hI : Integrity env s) (hlic : Licensed env s a id m)
    {attempts : String} (hm : m.advance? = some attempts) :
    .pushed id ∈ s.log ∧ ∃ next, s.advances a = some (id, next) ∧ attempts = next.toString := by
  cases m with
  | failDelayed _ =>
    cases hm
    obtain ⟨next, delay, ⟨w, draw, ⟨handlers, pc⟩, rfl, hw, rfl⟩, rfl⟩ := hlic
    exact ⟨(hI.workers _ (List.mem_of_getElem? hw)).pushed id rfl, next,
      by simp [Config.advances, hw], rfl⟩
  | failDead _ =>
    cases hm
    obtain ⟨next, ⟨w, draw, ⟨handlers, pc⟩, rfl, hw, rfl⟩, rfl⟩ := hlic
    exact ⟨(hI.workers _ (List.mem_of_getElem? hw)).pushed id rfl, next,
      by simp [Config.advances, hw], rfl⟩
  | requeue _ =>
    cases hm
    obtain ⟨i, jobHash, rest, rfl, hi, rfl⟩ := hlic
    have hfine := hI.watchdogs _ (List.mem_of_getElem? hi)
    -- the watchdog counts an attempt too, if there is a record to count in
    obtain ⟨c, -, -, hd⟩ := hfine.record id jobHash rest rfl
    exact ⟨hfine.pushed id List.mem_cons_self, _, by simp [Config.advances, hi, hd.isEmpty], rfl⟩
  | _ => cases hm

/-- A step that counts on from what is stored is an up-to-date move of every job. -/
theorem upToDate_of_licensed (hI : Integrity env s) (hok : ReadsCurrent s a)
    (hlic : Licensed env s a id m) : (ledger env s id).UpToDate m := by
  constructor
  · rintro rfl
    have hretry := hlic.retryTransaction
    rw [hok.1] at hretry
    cases hretry
  · intro attempts hm
    obtain ⟨hpushed, next, hnext, rfl⟩ := hlic.advances hI hm
    obtain ⟨c, -, -, hd⟩ := hI.describes hpushed
    obtain ⟨n, hn⟩ := hd.attempts
    have hcurrent : next = (s.store.storedAttempts id).addOne := hok.2 _ hnext
    rw [Store.storedAttempts, hn, parseIntField_repr, JsNumber.addOne_int] at hcurrent
    exact ⟨n, hn, by rw [hcurrent]; rfl⟩

theorem counted_run (h : Reach (step env) ReadsCurrent (init topology) s) (id : JobId) :
    (ledger env s id).Counted :=
  ledger_run h id Ledger.UpToDate Ledger.Counted
    (fun _ _ _ hr hok hlic => upToDate_of_licensed (integrity_run hr) hok hlic)
    counted_init fun _ _ _ hL hm hs => counted_step hL hm hs

/-- Where there is a record, it holds the number of advances. -/
theorem storedAttempts_run (h : Reach (step env) ReadsCurrent (init topology) s)
    (hrecord : s.store.jobs id ≠ .absent) :
    s.store.storedAttempts id = .int (s.advanceCount id) := by
  obtain ⟨c, -, -, hd⟩ := ((integrity_run h).records id).resolve_left hrecord
  obtain ⟨n, hn⟩ := hd.attempts
  rw [Store.storedAttempts, hn, (counted_run h id).stored _ hn, parseIntField_repr]
  rfl

/-! ### Schedules that meet the condition -/

/-- A schedule on which nobody gets between a read of attempts and the write that goes back to
it: no retry transaction runs, and for every job the watchdog keeps to what bounds its attempts
(`RecoversDead`, `CountKept`). Workers may die. -/
structure Recovering (env : Env T) (limit : JobId → Nat) (s : Config T) (a : Action T) : Prop where
  unretried : s.retryTransaction a = none
  limited : ∀ c ∈ s.calls, c.request.maxAttempts = .int (limit c.id)
  recovers : ∀ id, RecoversDead id s a
  kept : ∀ id, CountKept env (limit id) id s a

/-- With one watchdog, what the components remember on such a schedule is current. -/
theorem readsCurrent_run {limit : JobId → Nat} (hlimit : ∀ id, 1 ≤ limit id)
    (hsole : topology.watchdogs ≤ 1)
    (h : Reach (step env) (Recovering env limit) (init topology) s) :
    Reach (step env) ReadsCurrent (init topology) s := by
  refine h.mono' fun s a hr hok => ⟨hok.unretried, ?_⟩
  rintro ⟨id, next⟩ hnext
  have hI := integrity_run hr
  obtain ⟨hB, hT⟩ := bounded_run (hlimit id) hsole
    (fun s a _ hok => ⟨hok.recovers id, hok.kept id⟩) hr fun c hc hid => hid ▸ hok.limited c hc
  -- both sides are the number of advances so far, plus one
  have hstored : .pushed id ∈ s.log →
      s.store.storedAttempts id = .int (ledger env s id).advances := fun hpushed => by
    rw [Store.storedAttempts, stored_attempts hI hB hpushed, parseIntField_repr]
  cases a with
  | work w draw =>
    simp only [Config.advances] at hnext
    split at hnext
    · next handlers jobId nextAttempt delay hw =>
      cases hnext
      have hmem := List.mem_of_getElem? hw
      rw [hstored ((hI.workers _ hmem).pushed id rfl), ((hT.workers _ hmem).again _ _ rfl).1]
      rfl
    · next handlers jobId nextAttempt hw =>
      cases hnext
      have hmem := List.mem_of_getElem? hw
      rw [hstored ((hI.workers _ hmem).pushed id rfl), ((hT.workers _ hmem).last _ rfl).1]
      rfl
    · cases hnext
  | watch i =>
    simp only [Config.advances] at hnext
    split at hnext
    · next jobId jobHash rest hi =>
      split at hnext
      · cases hnext
      · cases hnext
        have hmem := List.mem_of_getElem? hi
        have hread := (hT.watchdogs _ hmem jobHash rest rfl).2.2
        rw [hstored ((hI.watchdogs _ hmem).pushed id List.mem_cons_self), requeueAttempts, hread,
          parseIntField_repr]
    · cases hnext
  | _ => cases hnext

/-- **No attempt is lost** in a run without manual retries in which every failure
branch and every watchdog transaction counts on from the stored attempts: the
record counts the failure writes and the requeues of the job, and never goes down. -/
theorem no_attempt_lost (h : Reach (step env) ReadsCurrent (init topology) s)
    (h' : Reach (step env) ReadsCurrent s t) (id : JobId) : AttemptsKept s t id where
  before := storedAttempts_run h
  after := storedAttempts_run (h.trans h')
  le :=
    have hlog := (grows_run h').2.sublist
    Nat.add_le_add (hlog.count_le _) (hlog.count_le _)

end Runs

/-- A job fails once, and its second worker dies: two advances, by a failure
branch and by the watchdog. -/
theorem no_attempt_lost_failed_and_requeued :
    ∃ s : Config Unit, s.store.storedAttempts "a" = .int (2 : Nat) ∧ AttemptsKept s s "a" := by
  obtain ⟨s, hs, htwo⟩ :=
    exists_reach_of_run (step mainQueue) ReadsCurrent (init ⟨1, [["mail"], ["mail"]], 1, 1, 0⟩)
      (fun s : Config Unit => s.store.storedAttempts "a" = .int (2 : Nat))
      (failOnce ++ [.schedule 0, .schedule 0, .schedule 0] ++ recoverOnce)
      (by decide +kernel)
  exact ⟨s, htwo, no_attempt_lost hs .refl "a"⟩

/-- **A late failure overwrites the count.** Worker 0 reads zero attempts and
pauses; the watchdog requeues the job (one), worker 1 fails it (two); then worker 0
fails too and writes its own one. -/
theorem late_failure_overwrites :
    ¬ ∀ s t : Config Unit,
      Reach (step mainQueue) (fun s a => s.retryTransaction a = none)
        (init ⟨1, [["mail"], ["mail"]], 0, 1, 0⟩) s →
      Reach (step mainQueue) (fun s a => s.retryTransaction a = none) s t →
      ∀ id, AttemptsKept s t id := by
  intro h
  obtain ⟨s, hs, hrecord, hone, hthree⟩ :=
    exists_reach_of_run (step mainQueue) (fun s a => s.retryTransaction a = none)
      (init ⟨1, [["mail"], ["mail"]], 0, 1, 0⟩)
      (fun s : Config Unit => s.store.jobs "a" ≠ .absent ∧
        s.store.storedAttempts "a" = .int (1 : Nat) ∧ s.advanceCount "a" = 3)
      (startOnce ++ [.tick 15001, .watch 0, .watch 0, .watch 0, .watch 0, .watch 0,
        .work 1 0, .work 1 0, .work 1 0, .work 1 0, .work 1 0, .work 1 0,
        .settle 1 .reject, .work 1 0, .work 1 0, .settle 0 .reject, .work 0 0, .work 0 0])
      (by decide +kernel)
  have hkept := (h s s hs .refl "a").before hrecord
  rw [hone, hthree] at hkept
  exact absurd hkept (by decide)

end DistriSys
