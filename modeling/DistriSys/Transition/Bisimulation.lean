import DistriSys.Transition.Reach

/-!
# Systems in lock step

Two systems with the same actions and a relation between their states: in related states an
action is possible in both systems or in neither, and it leads to related states
(`LockStep`). Then whole schedules are (`LockStep.runs`), and the invariants of one system are
those of the other (`LockStep.reach`). A whole can be followed in this way part by part
(`Reach.parts`).

`Option.Rel` is the relation between two partial steps; `rel_bind` and `rel_map` follow it
through the definition of a step function.
-/

namespace DistriSys.Transition

universe u v w

variable {σ : Type u} {τ : Type w} {α : Type v}

/-- Related states stay related, action by action. -/
def LockStep (R : σ → τ → Prop) (step₁ : σ → α → Option σ) (step₂ : τ → α → Option τ) : Prop :=
  ∀ ⦃s t⦄ (a : α), R s t → Option.Rel R (step₁ s a) (step₂ t a)

section Options

variable {β : Type u} {γ : Type w} {R : σ → τ → Prop} {S : β → γ → Prop} {x : Option σ}
  {y : Option τ}

theorem eq_none_of_rel (h : Option.Rel R none y) : y = none := by
  cases h
  rfl

theorem exists_of_rel {s : σ} (h : Option.Rel R (some s) y) : ∃ t, y = some t ∧ R s t := by
  cases h with
  | some hR => exact ⟨_, rfl, hR⟩

theorem rel_bind {f : σ → Option β} {g : τ → Option γ} (h : Option.Rel R x y)
    (hfg : ∀ s t, R s t → Option.Rel S (f s) (g t)) : Option.Rel S (x.bind f) (y.bind g) := by
  cases h with
  | none => exact .none
  | some hR => exact hfg _ _ hR

/-- Both go on from the same value. -/
theorem rel_bind_self {f : σ → Option β} {g : σ → Option γ}
    (h : ∀ s, x = some s → Option.Rel S (f s) (g s)) : Option.Rel S (x.bind f) (x.bind g) := by
  cases x with
  | none => exact .none
  | some s => exact h s rfl

theorem rel_map {f : σ → β} {g : τ → γ} (h : Option.Rel R x y) (hfg : ∀ s t, R s t → S (f s) (g t)) :
    Option.Rel S (x.map f) (y.map g) := by
  cases h with
  | none => exact .none
  | some hR => exact .some (hfg _ _ hR)

theorem rel_map_self {f : σ → β} {g : σ → γ} (h : ∀ s, x = some s → S (f s) (g s)) :
    Option.Rel S (x.map f) (x.map g) := by
  cases x with
  | none => exact .none
  | some s => exact .some (h s rfl)

/-- What holds on one side can be kept in mind. -/
theorem rel_and {P : τ → Prop} (h : Option.Rel R x y) (hP : ∀ t, y = some t → P t) :
    Option.Rel (fun s t => R s t ∧ P t) x y := by
  cases h with
  | none => exact .none
  | some hR => exact .some ⟨hR, hP _ rfl⟩

theorem rel_mono {R' : σ → τ → Prop} (h : Option.Rel R x y) (hRR' : ∀ s t, R s t → R' s t) :
    Option.Rel R' x y := by
  cases h with
  | none => exact .none
  | some hR => exact .some (hRR' _ _ hR)

end Options

namespace LockStep

variable {R : σ → τ → Prop} {step₁ : σ → α → Option σ} {step₂ : τ → α → Option τ}
  {ok₁ : σ → α → Prop} {ok₂ : τ → α → Prop} {s s₀ : σ} {t t₀ : τ}

/-- A schedule can be run in both systems or in neither. -/
theorem runs (h : LockStep R step₁ step₂) (hR : R s t) (as : List α) :
    Option.Rel R (as.foldlM step₁ s) (as.foldlM step₂ t) := by
  induction as generalizing s t with
  | nil => exact .some hR
  | cons a rest ih =>
    have hstep := h a hR
    rw [List.foldlM_cons, List.foldlM_cons]
    cases hs : step₁ s a with
    | none =>
      rw [hs] at hstep
      rw [eq_none_of_rel hstep]
      exact .none
    | some s' =>
      rw [hs] at hstep
      obtain ⟨t', ht, hR'⟩ := exists_of_rel hstep
      rw [ht]
      exact ih hR'

/-- What is reached in the first system is related to what is reached in the second. -/
theorem reach (h : LockStep R step₁ step₂) (h₀ : R s₀ t₀)
    (hok : ∀ s t a, R s t → ok₁ s a → ok₂ t a) (hr : Reach step₁ ok₁ s₀ s) :
    ∃ t, Reach step₂ ok₂ t₀ t ∧ R s t := by
  induction hr with
  | refl => exact ⟨t₀, .refl, h₀⟩
  | @tail s s' a _ ha hs ih =>
    obtain ⟨t, ht, hR⟩ := ih
    have hstep := h a hR
    rw [hs] at hstep
    obtain ⟨t', ht', hR'⟩ := exists_of_rel hstep
    exact ⟨t', ht.tail (hok _ _ _ hR ha) ht', hR'⟩

end LockStep

/-- A whole and its parts: if each step of the whole is some steps of each part, then a run of
the whole is a run of each part. -/
theorem Reach.parts {ι : Type u} {β : Type v} {whole : σ → α → Option σ} {ok : σ → α → Prop}
    {part : ι → τ → β → Option τ} {ok' : τ → β → Prop} {R : σ → (ι → τ) → Prop} {s₀ s : σ}
    {t₀ : ι → τ} (h : Reach whole ok s₀ s) (h₀ : R s₀ t₀)
    (hstep : ∀ ⦃s t a s'⦄, (∀ i, Reach (part i) ok' (t₀ i) (t i)) → R s t → ok s a →
      whole s a = some s' → ∃ t', (∀ i, Reach (part i) ok' (t i) (t' i)) ∧ R s' t') :
    ∃ t, (∀ i, Reach (part i) ok' (t₀ i) (t i)) ∧ R s t := by
  induction h with
  | refl => exact ⟨t₀, fun _ => .refl, h₀⟩
  | tail _ ha hs ih =>
    obtain ⟨t, ht, hR⟩ := ih
    obtain ⟨t', ht', hR'⟩ := hstep ht hR ha hs
    exact ⟨t', fun i => (ht i).trans (ht' i), hR'⟩

end DistriSys.Transition
