import VaultAgent.Action
import Mathlib.Data.List.Forall2
import Mathlib.Tactic.Common

/-!
# Taking actions apart

An action that consists of others succeeds when all of them do, and fails where the first of them
does. `outcome` and `after` are the two halves of a run: what it gives and what it leaves.
-/

namespace VaultAgent.Action

variable {ε ε' σ τ α β : Type} {a : Action ε σ α} {f : α → Action ε σ β} {s t u : σ} {x : α} {y : β}
  {e : ε}

/-- The value that an action gives, or its failure. -/
def outcome (a : Action ε σ α) (s : σ) : Except ε α :=
  match a s with
  | .ok x _ => .ok x
  | .error e _ => .error e

/-- The state that an action leaves, also if it fails. -/
def after (a : Action ε σ α) (s : σ) : σ :=
  match a s with
  | .ok _ t => t
  | .error _ t => t

theorem outcome_of_ok (h : a s = .ok x t) : a.outcome s = .ok x := by simp [outcome, h]

theorem outcome_of_error (h : a s = .error e t) : a.outcome s = .error e := by simp [outcome, h]

theorem after_of_ok (h : a s = .ok x t) : a.after s = t := by simp [after, h]

theorem after_of_error (h : a s = .error e t) : a.after s = t := by simp [after, h]

theorem outcome_eq_ok : a.outcome s = .ok x ↔ a s = .ok x (a.after s) := by
  unfold outcome after
  cases a s <;> simp

theorem outcome_eq_error : a.outcome s = .error e ↔ a s = .error e (a.after s) := by
  unfold outcome after
  cases a s <;> simp

/-! ## One after the other -/

theorem bind_of_ok (h : a s = .ok x t) : (a >>= f) s = f x t := by
  show EStateM.bind a f s = _
  rw [EStateM.bind, h]

theorem bind_of_error (h : a s = .error e t) : (a >>= f) s = .error e t := by
  show EStateM.bind a f s = _
  rw [EStateM.bind, h]

theorem bind_eq_ok : (a >>= f) s = .ok y u ↔ ∃ x t, a s = .ok x t ∧ f x t = .ok y u := by
  cases h : a s with
  | ok x t => simp [bind_of_ok h]
  | error e t => simp [bind_of_error h]

theorem bind_eq_error :
    (a >>= f) s = .error e u ↔ a s = .error e u ∨ ∃ x t, a s = .ok x t ∧ f x t = .error e u := by
  cases h : a s with
  | ok x t => simp [bind_of_ok h]
  | error e t => simp [bind_of_error h]

theorem bind_pure_eq_ok {g : α → β} :
    (a >>= fun x => (pure (g x) : Action ε σ β)) s = .ok y u ↔ ∃ x, a s = .ok x u ∧ g x = y := by
  rw [bind_eq_ok]
  constructor
  · rintro ⟨x, t, ha, h⟩
    cases h
    exact ⟨x, ha, rfl⟩
  · rintro ⟨x, ha, rfl⟩
    exact ⟨x, u, ha, rfl⟩

theorem bind_pure_eq_error {g : α → β} :
    (a >>= fun x => (pure (g x) : Action ε σ β)) s = .error e u ↔ a s = .error e u := by
  rw [bind_eq_error, or_iff_left]
  rintro ⟨x, t, -, h⟩
  cases h

theorem outcome_bind_of_ok (h : a s = .ok x t) : outcome (a >>= f) s = (f x).outcome t := by
  rw [outcome, bind_of_ok h, ← outcome]

theorem after_bind_of_ok (h : a s = .ok x t) : after (a >>= f) s = (f x).after t := by
  rw [after, bind_of_ok h, ← after]

theorem outcome_bind_pure {g : α → β} :
    outcome (a >>= fun x => (pure (g x) : Action ε σ β)) s = (a.outcome s).map g := by
  cases h : a s with
  | ok x t => rw [outcome_bind_of_ok h, outcome_of_ok h]; rfl
  | error e t => rw [outcome_of_error (bind_of_error h), outcome_of_error h]; rfl

theorem after_bind_pure {g : α → β} :
    after (a >>= fun x => (pure (g x) : Action ε σ β)) s = a.after s := by
  cases h : a s with
  | ok x t => rw [after_bind_of_ok h, after_of_ok h]; rfl
  | error e t => rw [after_of_error (bind_of_error h), after_of_error h]

theorem get_bind {g : σ → Action ε σ β} : ((get : Action ε σ σ) >>= g) s = g s s := rfl

theorem modify_apply {g : σ → σ} : (modify g : Action ε σ PUnit) s = .ok ⟨⟩ (g s) := rfl

theorem modify_bind {g : σ → σ} {k : PUnit → Action ε σ β} :
    ((modify g : Action ε σ PUnit) >>= k) s = k ⟨⟩ (g s) := rfl

theorem outcome_get_bind {g : σ → Action ε σ β} :
    outcome ((get : Action ε σ σ) >>= g) s = (g s).outcome s := rfl

theorem outcome_modify_bind {g : σ → σ} {k : PUnit → Action ε σ β} :
    outcome ((modify g : Action ε σ PUnit) >>= k) s = (k ⟨⟩).outcome (g s) := rfl

/-- A check in front of an action. -/
theorem guard_eq_ok {c : Prop} [Decidable c] {g : PUnit → Action ε σ β} {a : Action ε σ β} :
    (if c then throw e >>= g else a) s = .ok y u ↔ ¬ c ∧ a s = .ok y u := by
  by_cases h : c
  · simp only [h, if_true, not_true_eq_false, false_and, iff_false]; exact nofun
  · simp [h]

/-! ## Answers without a state -/

theorem except_bind_eq_ok {r : Except ε α} {g : α → Except ε β} :
    (r >>= g) = .ok y ↔ ∃ x, r = .ok x ∧ g x = .ok y := by
  cases r <;> simp [bind, Except.bind]

theorem except_map_eq_ok {f : α → β} {r : Except ε α} :
    f <$> r = .ok y ↔ ∃ x, r = .ok x ∧ f x = y := by
  cases r <;> simp [Functor.map, Except.map]

theorem except_guard_eq_ok {c : Prop} [Decidable c] {g : PUnit → Except ε β} {r : Except ε β} :
    (if c then throw e >>= g else r) = .ok y ↔ ¬ c ∧ r = .ok y := by
  by_cases h : c <;> simp [h, bind, Except.bind, throw, throwThe, MonadExceptOf.throw]

theorem mapError_eq_ok {r : Except ε' α} {cause : ε' → ε} :
    r.mapError cause = .ok x ↔ r = .ok x := by
  cases r <;> simp [Except.mapError]

theorem mem_of_mapM_eq_ok {g : α → Except ε β} {xs : List α} {ys : List β}
    (h : xs.mapM g = .ok ys) :
    (∀ x ∈ xs, ∃ y ∈ ys, g x = .ok y) ∧ ∀ y ∈ ys, ∃ x ∈ xs, g x = .ok y := by
  induction xs generalizing ys with
  | nil => cases h; exact ⟨nofun, nofun⟩
  | cons x xs ih =>
    rw [List.mapM_cons] at h
    obtain ⟨y, hy, h⟩ := except_bind_eq_ok.1 h
    obtain ⟨ys, hys, h⟩ := except_bind_eq_ok.1 h
    cases h
    obtain ⟨hx, hy'⟩ := ih hys
    refine ⟨List.forall_mem_cons.2 ⟨⟨y, List.mem_cons_self, hy⟩, fun z hz => ?_⟩,
      List.forall_mem_cons.2 ⟨⟨x, List.mem_cons_self, hy⟩, fun z hz => ?_⟩⟩
    · obtain ⟨w, hw, hgw⟩ := hx z hz
      exact ⟨w, List.mem_cons_of_mem _ hw, hgw⟩
    · obtain ⟨w, hw, hgw⟩ := hy' z hz
      exact ⟨w, List.mem_cons_of_mem _ hw, hgw⟩

theorem mapM_eq_ok_iff {g : α → Except ε β} {xs : List α} {ys : List β} :
    xs.mapM g = .ok ys ↔ List.Forall₂ (fun x y => g x = .ok y) xs ys := by
  induction xs generalizing ys with
  | nil =>
    rw [List.forall₂_nil_left_iff, List.mapM_nil]
    exact ⟨fun h => (Except.ok.inj h).symm, fun h => congrArg _ h.symm⟩
  | cons x xs ih =>
    rw [List.mapM_cons, List.forall₂_cons_left_iff]
    simp only [except_bind_eq_ok, ih]
    constructor
    · rintro ⟨y, hy, rest, hrest, h⟩
      cases h
      exact ⟨y, rest, hy, hrest, rfl⟩
    · rintro ⟨y, rest, hy, hrest, rfl⟩
      exact ⟨y, hy, rest, hrest, rfl⟩

/-- A list of questions fails with the first of them that does. -/
theorem mapM_eq_error_iff {g : α → Except ε β} {xs : List α} : xs.mapM g = .error e ↔
    ∃ before x rest, xs = before ++ x :: rest ∧ g x = .error e ∧ ∀ y ∈ before, ∃ z, g y = .ok z := by
  induction xs with
  | nil =>
    refine iff_of_false (by simp [pure, Except.pure]) ?_
    rintro ⟨before, x, rest, hxs, -⟩
    simp at hxs
  | cons x xs ih =>
    rw [List.mapM_cons]
    constructor
    · intro h
      cases hx : g x with
      | error e' =>
        rw [hx] at h
        cases h
        exact ⟨[], x, xs, rfl, hx, nofun⟩
      | ok y =>
        cases hxs : xs.mapM g with
        | ok ys =>
          rw [hx, hxs] at h
          cases h
        | error e' =>
          rw [hx, hxs] at h
          cases h
          obtain ⟨before, x', rest, rfl, hx', hbefore⟩ := ih.1 hxs
          exact ⟨x :: before, x', rest, rfl, hx', List.forall_mem_cons.2 ⟨⟨y, hx⟩, hbefore⟩⟩
    · rintro ⟨before, x', rest, hxs, hx', hbefore⟩
      cases before with
      | nil =>
        obtain ⟨rfl, rfl⟩ := List.cons.inj hxs
        rw [hx']
        rfl
      | cons y before =>
        obtain ⟨rfl, rfl⟩ := List.cons.inj hxs
        obtain ⟨⟨z, hz⟩, hbefore⟩ := List.forall_mem_cons.1 hbefore
        rw [hz, ih.2 ⟨before, x', rest, rfl, hx', hbefore⟩]
        rfl

theorem exists_mapM_eq_ok {g : α → Except ε β} {xs : List α} (h : ∀ x ∈ xs, ∃ y, g x = .ok y) :
    ∃ ys, xs.mapM g = .ok ys := by
  induction xs with
  | nil => exact ⟨[], rfl⟩
  | cons x xs ih =>
    obtain ⟨⟨y, hy⟩, hxs⟩ := List.forall_mem_cons.1 h
    obtain ⟨ys, hys⟩ := ih hxs
    refine ⟨y :: ys, ?_⟩
    rw [List.mapM_cons]
    exact except_bind_eq_ok.2 ⟨y, hy, except_bind_eq_ok.2 ⟨ys, hys, rfl⟩⟩

/-! ## Parts, attempts and answers -/

theorem ofExcept_ok_bind {cause : ε' → ε} : (ofExcept cause (.ok x) >>= f) s = f x s := rfl

variable {part : σ → τ} {replace : σ → τ → σ} {cause : ε' → ε} {b : Action ε' τ α}

theorem onPart_of_ok {p : τ} (h : b (part s) = .ok x p) :
    onPart part replace cause b s = .ok x (replace s p) := by
  simp [onPart, h]

theorem onPart_of_error {p : τ} {e : ε'} (h : b (part s) = .error e p) :
    onPart part replace cause b s = .error (cause e) (replace s p) := by
  simp [onPart, h]

theorem onPart_eq_ok : onPart part replace cause b s = .ok x u ↔
    ∃ p, b (part s) = .ok x p ∧ replace s p = u := by
  cases h : b (part s) with
  | ok x p => simp [onPart_of_ok h]
  | error e p => simp [onPart_of_error h]

theorem onPart_eq_error : onPart part replace cause b s = .error e u ↔
    ∃ e' p, b (part s) = .error e' p ∧ cause e' = e ∧ replace s p = u := by
  cases h : b (part s) with
  | ok x p => simp [onPart_of_ok h]
  | error e p => simp [onPart_of_error h]

theorem attempt_of_ok (h : a s = .ok x t) : (attempt a : Action ε' σ _) s = .ok (.ok x) t := by
  simp [attempt, h]

theorem attempt_of_error (h : a s = .error e t) :
    (attempt a : Action ε' σ _) s = .ok (.error e) t := by
  simp [attempt, h]

theorem of_attempt_eq_ok (h : (attempt a : Action ε' σ _) s = .ok (.ok x) t) : a s = .ok x t := by
  cases ha : a s with
  | ok y u => rw [attempt_of_ok ha] at h; cases h; rfl
  | error e u => rw [attempt_of_error ha] at h; cases h

theorem attempt_ne_error {e : ε'} : (attempt a : Action ε' σ _) s ≠ .error e t := by
  intro h
  unfold attempt at h
  split at h <;> cases h

theorem after_attempt : (attempt a : Action ε' σ _).after s = a.after s := by
  unfold attempt after
  cases h : a s <;> simp [h]

theorem ofExcept_eq_ok {r : Except ε' α} :
    ofExcept cause r s = .ok x u ↔ r = .ok x ∧ s = u := by
  cases r with
  | ok y => simp [ofExcept, pure, EStateM.pure]
  | error e' => exact ⟨nofun, nofun⟩

theorem ofExcept_eq_error {r : Except ε' α} :
    ofExcept cause r s = .error e u ↔ ∃ e', r = .error e' ∧ cause e' = e ∧ s = u := by
  cases r with
  | ok y => exact ⟨nofun, nofun⟩
  | error e' =>
    show EStateM.Result.error (cause e') s = .error e u ↔ _
    simp

theorem outcome_ofExcept {r : Except ε' α} : (ofExcept cause r).outcome s = r.mapError cause := by
  cases r <;> rfl

theorem outcome_ofExcept_bind {r : Except ε' α} :
    outcome (ofExcept cause r >>= f) s = (do (f (← r.mapError cause)).outcome s) := by
  cases r <;> rfl

/-! ## Actions that only ask -/

/-- The action leaves every state as it is. -/
def Asks (a : Action ε σ α) : Prop :=
  ∀ s, a.after s = s

namespace Asks

theorem pure (x : α) : (pure x : Action ε σ α).Asks := fun _ => rfl

theorem throw (e : ε) : (throw e : Action ε σ α).Asks := fun _ => rfl

theorem get : (get : Action ε σ σ).Asks := fun _ => rfl

theorem ofExcept (cause : ε' → ε) (r : Except ε' α) : (ofExcept cause r : Action ε σ α).Asks := by
  cases r <;> exact fun _ => rfl

theorem bind (ha : a.Asks) (hf : ∀ x, (f x).Asks) : (a >>= f).Asks := by
  intro s
  have hs := ha s
  cases h : a s with
  | ok x t =>
    rw [after_of_ok h] at hs
    have hfx := hf x s
    unfold after at hfx ⊢
    rw [bind_of_ok h, hs]
    exact hfx
  | error e t =>
    rw [after_of_error h] at hs
    rw [after_of_error (bind_of_error h), hs]

theorem attempt (ha : a.Asks) : (attempt a : Action ε' σ _).Asks := fun s =>
  after_attempt.trans (ha s)

end Asks

/-! ## Actions that do nothing or all -/

/-- Where the action fails, it has changed nothing. -/
def FailsClean (a : Action ε σ α) : Prop :=
  ∀ s e t, a s = .error e t → t = s

theorem Asks.failsClean (ha : a.Asks) : a.FailsClean := fun s e t h => by
  rw [← after_of_error h, ha s]

namespace FailsClean

theorem modify (g : σ → σ) : (modify g : Action ε σ PUnit).FailsClean := fun _ _ _ h => by cases h

theorem bind (ha : a.Asks) (hf : ∀ x, (f x).FailsClean) : (a >>= f).FailsClean := by
  intro s e u h
  rcases bind_eq_error.1 h with he | ⟨x, t, hs, he⟩
  · exact ha.failsClean s e u he
  · obtain rfl : t = s := (after_of_ok hs).symm.trans (ha s)
    exact hf x t e u he

theorem bind_pure {g : α → β} (ha : a.FailsClean) : (a >>= fun x => pure (g x)).FailsClean := by
  intro s e u h
  exact ha s e u (bind_pure_eq_error.1 h)

end FailsClean

/-! ## Actions that keep up an invariant -/

/-- What holds before the action holds after it, whether it succeeds or fails. -/
def Preserves (P : σ → Prop) (a : Action ε σ α) : Prop :=
  ∀ s, P s → P (a.after s)

theorem Asks.preserves (ha : a.Asks) (P : σ → Prop) : a.Preserves P := fun s hs => (ha s).symm ▸ hs

namespace Preserves

variable {P : σ → Prop}

theorem bind (ha : a.Preserves P) (hf : ∀ x, (f x).Preserves P) : (a >>= f).Preserves P := by
  intro s hs
  have ht := ha s hs
  cases h : a s with
  | ok x t =>
    rw [after_of_ok h] at ht
    have hu := hf x t ht
    unfold after at hu ⊢
    rwa [bind_of_ok h]
  | error e t =>
    rw [after_of_error h] at ht
    rwa [after_of_error (bind_of_error h)]

theorem attempt (ha : a.Preserves P) : (attempt a : Action ε' σ _).Preserves P := by
  intro s hs
  rw [after_attempt]
  exact ha s hs

end Preserves

end VaultAgent.Action
