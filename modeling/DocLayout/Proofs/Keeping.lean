import DocLayout.Session

/-
  Computations that keep to a rule.

  `m.Keeps Inv Q` says of a computation in a session: if the streams of the session are as `Inv` asks
  and `m` returns a value, then the value is as `Q` asks and the session still as `Inv` does. Nothing
  is said about a computation that fails, since a failure ends everything that was begun.

  The rule passes through the ways in which computations are put together, so it is enough to look at
  what each of them adds: `keeps_bind`, `keeps_mapM`, `keeps_foldlM`.

  `m.Settles Q E` says more of a computation that has nothing to do with the session: that it returns a
  value as `Q` asks or fails with a cause as `E` asks. It passes through `settles_bind`.

  `m.Matches R m'` says of two computations that a caller can have one for the other, up to what `R`
  leaves open of the values. It passes through `matches_bind`.
-/

namespace DocLayout

variable {κ : Type} {β γ : Type} {Inv : Session κ → Prop}

/-- From a session as `Inv` asks, a computation only returns values as `Q` asks and leaves the
session as `Inv` asks. -/
def Effect.Keeps (Inv : Session κ → Prop) (m : Effect κ β) (Q : β → Prop) : Prop :=
  ∀ s x s', Inv s → m.run.run s = (.ok x, s') → Q x ∧ Inv s'

theorem keeps_pure {Q : β → Prop} {x : β} (h : Q x) : (pure x : Effect κ β).Keeps Inv Q := by
  intro s y s' hs hrun
  cases hrun
  exact ⟨h, hs⟩

/-- A computation that only returns a value gives all that it keeps. -/
theorem of_keeps_pure {Q : β → Prop} {x : β} (h : (pure x : Effect κ β).Keeps Inv Q)
    {s : Session κ} (hs : Inv s) : Q x := (h s x s hs rfl).1

theorem keeps_throw {Q : β → Prop} (f : Failure) : (throw f : Effect κ β).Keeps Inv Q := by
  intro s y s' hs hrun
  cases hrun

theorem keeps_ofExcept {Q : β → Prop} {e : Except Failure β} (h : ∀ x, e = .ok x → Q x) :
    (ofExcept e : Effect κ β).Keeps Inv Q := by
  cases e with
  | error f => exact keeps_throw f
  | ok x => exact keeps_pure (h x rfl)

/-- What follows on a computation only has to deal with what that one returns. -/
theorem keeps_bind {m : Effect κ β} {f : β → Effect κ γ} {Q : β → Prop} {R : γ → Prop}
    (hm : m.Keeps Inv Q) (hf : ∀ x, Q x → (f x).Keeps Inv R) : (m >>= f).Keeps Inv R := by
  intro s y s' hs hrun
  rw [ExceptT.run_bind, StateT.run_bind] at hrun
  cases hr : m.run.run s with
  | mk result after =>
    rw [hr] at hrun
    cases result with
    | error e => cases hrun
    | ok x =>
      obtain ⟨hx, hafter⟩ := hm s x after hs hr
      exact hf x hx after y s' hafter hrun

theorem Effect.Keeps.mono {m : Effect κ β} {Q R : β → Prop} (h : m.Keeps Inv Q)
    (hQR : ∀ x, Q x → R x) : m.Keeps Inv R := by
  intro s x s' hs hrun
  obtain ⟨hx, hs'⟩ := h s x s' hs hrun
  exact ⟨hQR x hx, hs'⟩

/-- A list of computations returns as many values as it has members. -/
theorem keeps_mapM {f : β → Effect κ γ} {Q : γ → Prop} {xs : List β}
    (h : ∀ x ∈ xs, (f x).Keeps Inv Q) :
    (xs.mapM f).Keeps Inv fun ys => ys.length = xs.length ∧ ∀ y ∈ ys, Q y := by
  induction xs with
  | nil => exact keeps_pure ⟨rfl, by simp⟩
  | cons x xs ih =>
    rw [List.mapM_cons]
    refine keeps_bind (h x (by simp)) fun y hy => ?_
    refine keeps_bind (ih fun z hz => h z (by simp [hz])) fun ys hys => ?_
    refine keeps_pure ⟨congrArg (· + 1) hys.1, ?_⟩
    rw [List.forall_mem_cons]
    exact ⟨hy, hys.2⟩

/-- The rule for a fold is a rule for what it has come to. -/
theorem keeps_foldlM {f : γ → β → Effect κ γ} {Q : γ → Prop} {xs : List β}
    (h : ∀ acc, Q acc → ∀ x ∈ xs, (f acc x).Keeps Inv Q) {init : γ} (hinit : Q init) :
    (xs.foldlM f init).Keeps Inv Q := by
  induction xs generalizing init with
  | nil => exact keeps_pure hinit
  | cons x xs ih =>
    rw [List.foldlM_cons]
    refine keeps_bind (h init hinit x (by simp)) fun acc hacc => ?_
    exact ih (fun acc hacc z hz => h acc hacc z (by simp [hz])) hacc

/-! ## Computations that leave the session alone -/

/-- A computation returns a value as `Q` asks or fails with a cause as `E` asks, and that is all. -/
def Effect.Settles (m : Effect κ β) (Q : β → Prop) (E : Failure → Prop) : Prop :=
  (∃ x, m = pure x ∧ Q x) ∨ ∃ e, m = throw e ∧ E e

section Settles

variable {Q : β → Prop} {R : γ → Prop} {E : Failure → Prop}

theorem settles_pure {x : β} (h : Q x) : (pure x : Effect κ β).Settles Q E := .inl ⟨x, rfl, h⟩

theorem settles_throw {e : Failure} (h : E e) : (throw e : Effect κ β).Settles Q E :=
  .inr ⟨e, rfl, h⟩

/-- A computation that only fails has a cause as it settles for. -/
theorem of_settles_throw {e : Failure} (h : (throw e : Effect κ β).Settles Q E) : E e := by
  have run_eq {m : Effect κ β} (h : throw e = m) : m.run.run .empty = (.error e, .empty) := h ▸ rfl
  rcases h with ⟨x, hx, -⟩ | ⟨e', he', hE⟩
  · injection run_eq hx with hx
    contradiction
  · injection run_eq he' with he'
    injection he' with he'
    exact he' ▸ hE

theorem settles_ofExcept {r : Except Failure β} (hok : ∀ x, r = .ok x → Q x)
    (herror : ∀ e, r = .error e → E e) : (ofExcept r : Effect κ β).Settles Q E := by
  cases r with
  | error e => exact settles_throw (herror e rfl)
  | ok x => exact settles_pure (hok x rfl)

theorem settles_bind {m : Effect κ β} {f : β → Effect κ γ} (hm : m.Settles Q E)
    (hf : ∀ x, Q x → (f x).Settles R E) : (m >>= f).Settles R E := by
  rcases hm with ⟨x, rfl, hx⟩ | ⟨e, rfl, he⟩
  · rw [pure_bind]
    exact hf x hx
  · exact settles_throw he

theorem Effect.Settles.mono {m : Effect κ β} {F : Failure → Prop} (h : m.Settles Q E)
    (hEF : ∀ e, E e → F e) : m.Settles Q F := by
  rcases h with h | ⟨e, he, hE⟩
  · exact .inl h
  · exact .inr ⟨e, he, hEF e hE⟩

end Settles

/-! ## Computations that run alike -/

/-- Results that a caller can treat alike: values as `R` asks, or failures of one family. -/
inductive Alike (R : β → γ → Prop) : Except Failure β → Except Failure γ → Prop
  | ok {x : β} {y : γ} (h : R x y) : Alike R (.ok x) (.ok y)
  | error {e e' : Failure} (h : e.family = e'.family) : Alike R (.error e) (.error e')

/-- From the same session, two computations come to results that are alike and leave the same
session. -/
def Effect.Matches (R : β → γ → Prop) (m : Effect κ β) (m' : Effect κ γ) : Prop :=
  ∀ s, Alike R (m.run.run s).1 (m'.run.run s).1 ∧ (m.run.run s).2 = (m'.run.run s).2

section Matches

variable {δ ε : Type} {R : β → γ → Prop} {S : δ → ε → Prop}

theorem matches_pure {x : β} {y : γ} (h : R x y) :
    (pure x : Effect κ β).Matches R (pure y : Effect κ γ) := fun _ => ⟨.ok h, rfl⟩

theorem matches_throw {e e' : Failure} (h : e.family = e'.family) :
    (throw e : Effect κ β).Matches R (throw e' : Effect κ γ) := fun _ => ⟨.error h, rfl⟩

theorem matches_refl (m : Effect κ β) : m.Matches Eq m := by
  intro s
  cases (m.run.run s).1 with
  | error e => exact ⟨.error rfl, rfl⟩
  | ok x => exact ⟨.ok rfl, rfl⟩

/-- What follows on two computations only has to match on what those return. -/
theorem matches_bind {m : Effect κ β} {m' : Effect κ γ} {f : β → Effect κ δ} {f' : γ → Effect κ ε}
    (hm : m.Matches R m') (hf : ∀ x y, R x y → (f x).Matches S (f' y)) :
    (m >>= f).Matches S (m' >>= f') := by
  intro s
  obtain ⟨hresult, hsession⟩ := hm s
  rw [ExceptT.run_bind, StateT.run_bind, ExceptT.run_bind, StateT.run_bind]
  cases hr : m.run.run s with
  | mk result after =>
    cases hr' : m'.run.run s with
    | mk result' after' =>
      rw [hr, hr'] at hresult hsession
      dsimp only at hresult hsession
      subst hsession
      cases hresult with
      | ok h => exact hf _ _ h after
      | error h => exact ⟨.error h, rfl⟩

end Matches

/-! ## Without a session -/

theorem exists_of_bind_eq_ok {ε : Type} {e : Except ε β} {f : β → Except ε γ} {y : γ}
    (h : e >>= f = .ok y) : ∃ x, e = .ok x ∧ f x = .ok y := by
  cases e with
  | error e => contradiction
  | ok x => exact ⟨x, rfl, h⟩

theorem error_of_bind_eq_error {ε : Type} {r : Except ε β} {f : β → Except ε γ} {e : ε}
    (h : r >>= f = .error e) : r = .error e ∨ ∃ x, r = .ok x ∧ f x = .error e := by
  cases r with
  | error e' =>
    injection h with h
    exact .inl (congrArg Except.error h)
  | ok x => exact .inr ⟨x, rfl, h⟩

theorem exists_of_map_eq_ok {ε : Type} {r : Except ε β} {f : β → γ} {y : γ}
    (h : r.map f = .ok y) : ∃ x, r = .ok x ∧ f x = y := by
  cases r with
  | error e => contradiction
  | ok x =>
    injection h with h
    exact ⟨x, rfl, h⟩

theorem exists_of_mapError_eq_error {ε δ : Type} {r : Except ε β} {f : ε → δ} {e : δ}
    (h : r.mapError f = .error e) : ∃ e', r = .error e' ∧ f e' = e := by
  cases r with
  | error e' =>
    injection h with h
    exact ⟨e', rfl, h⟩
  | ok x => contradiction

theorem eq_ok_of_mapError {ε δ : Type} {e : Except ε β} {f : ε → δ} {x : β}
    (h : e.mapError f = .ok x) : e = .ok x := by
  cases e with
  | error e => contradiction
  | ok y =>
    injection h with h
    rw [h]

end DocLayout
