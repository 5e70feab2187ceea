import DocLayout.Proofs.Descent

/-
  The work one move at a time.

  `work` goes on until the stack is empty or a task cannot move. A stage is where it stands between
  two moves: the tasks that wait, the column of the cursor and the canvas. `Stage.next?` takes the top
  task off and lets it make its move, and `Stage.after` does so a number of times, as long as there are
  tasks that move.

  Proved:
  * `next?_eq_some_iff`: all that a single move can do.
  * `Stage.after_induction`: what holds of a stage and is kept by every move holds ever after.
  * `outcome_after`: from every stage on the way the work ends as it does from the first one.
  * `exists_after_of_work`: work that ends has an empty stack after some number of moves.
  * `endsAfter_outcome`: then it has taken just that number of moves.
-/

namespace DocLayout

variable {α : Type}

/-- Where the work stands: the tasks on the stack, the column of the cursor, and the canvas. -/
structure Stage (α : Type) where
  stack : List (Task α)
  column : Int
  canvas : Canvas

/-- The stage that the layout of a document begins with. -/
def Doc.firstStage (d : Doc α) (canvas : Canvas) (indent column : Int) : Stage α :=
  ⟨[.lay d indent], column, canvas⟩

namespace Stage

/-- The stage after the move of the top task, unless there is no task or it cannot move. -/
def next? (margin : Margin α) (s : Stage α) : Option (Stage α) :=
  match s.stack with
  | [] => none
  | task :: stack =>
    match task.move margin s.column with
    | .error _ => none
    | .ok m => some ⟨m.tasks ++ stack, m.column, m.paint s.canvas⟩

/-- The stage after `n` moves, if the work goes on for so long. -/
def after (margin : Margin α) : Nat → Stage α → Option (Stage α)
  | 0, s => some s
  | n + 1, s => (s.next? margin).bind (after margin n)

/-- What the work ends with that goes on from a stage. -/
def outcome (margin : Margin α) (s : Stage α) : Outcome α := work margin s.stack s.column s.canvas

end Stage

variable {margin : Margin α} {s t u : Stage α}

/-! ## One move -/

theorem next?_nil (margin : Margin α) (column : Int) (canvas : Canvas) :
    Stage.next? margin ⟨[], column, canvas⟩ = none := rfl

theorem next?_cons {task : Task α} {column : Int} {m : Move α} (h : task.move margin column = .ok m)
    (stack : List (Task α)) (canvas : Canvas) :
    Stage.next? margin ⟨task :: stack, column, canvas⟩ =
      some ⟨m.tasks ++ stack, m.column, m.paint canvas⟩ := by
  simp only [Stage.next?, h]

/-- There is a next stage exactly if there is a task on top that moves, and its move makes it. -/
theorem next?_eq_some_iff : s.next? margin = some t ↔
    ∃ task stack m, s.stack = task :: stack ∧ task.move margin s.column = .ok m ∧
      t = ⟨m.tasks ++ stack, m.column, m.paint s.canvas⟩ := by
  obtain ⟨_ | ⟨task, stack⟩, column, canvas⟩ := s
  · simp [next?_nil]
  · constructor
    · intro h
      cases hmove : task.move margin column with
      | error obstacle =>
        simp only [Stage.next?, hmove] at h
        contradiction
      | ok m =>
        rw [next?_cons hmove] at h
        exact ⟨task, stack, m, rfl, hmove, (Option.some.inj h).symm⟩
    · rintro ⟨top, rest, m, hstack, hmove, rfl⟩
      cases hstack
      exact next?_cons hmove _ canvas

/-- A choice that is on top of the stack gives way to one of its alternatives. -/
theorem next?_choice {column : Int} {flat : Doc α} {fits : Bool}
    (h : margin.admits column flat.flatWidth = .ok fits) (v : FlatWidth α) (broken : Doc α)
    (indent : Int) (stack : List (Task α)) (canvas : Canvas) :
    Stage.next? margin ⟨.lay (.choiceNode v flat broken) indent :: stack, column, canvas⟩ =
      some ⟨.lay (if fits then flat else broken) indent :: stack, column, canvas⟩ := by
  cases fits with
  | true =>
    have hmove : Task.move margin column (.lay (.choiceNode v flat broken) indent) =
        .ok ⟨none, column, [.lay flat indent]⟩ := by rw [Task.move, h]
    exact next?_cons hmove stack canvas
  | false =>
    have hmove : Task.move margin column (.lay (.choiceNode v flat broken) indent) =
        .ok ⟨none, column, [.lay broken indent]⟩ := by rw [Task.move, h]
    exact next?_cons hmove stack canvas

/-! ## A number of moves -/

theorem after_succ (h : s.next? margin = some t) (n : Nat) :
    s.after margin (n + 1) = t.after margin n := by
  rw [Stage.after, h, Option.bind_some]

theorem after_eq_none_of_nil (h : s.stack = []) (n : Nat) : s.after margin (n + 1) = none := by
  obtain ⟨stack, column, canvas⟩ := s
  cases h
  rfl

/-- Moves after moves. -/
theorem after_add {m : Nat} (h : s.after margin m = some t) (n : Nat) :
    s.after margin (m + n) = t.after margin n := by
  induction m generalizing s with
  | zero =>
    cases h
    rw [Nat.zero_add]
  | succ m ih =>
    obtain ⟨r, hr, hrest⟩ := Option.bind_eq_some_iff.mp h
    rw [Nat.succ_add, after_succ hr, ih hrest]

/-- A stage on the way. -/
theorem exists_after_of_add {m n : Nat} (h : s.after margin (m + n) = some u) :
    ∃ t, s.after margin m = some t ∧ t.after margin n = some u := by
  induction m generalizing s with
  | zero =>
    rw [Nat.zero_add] at h
    exact ⟨s, rfl, h⟩
  | succ m ih =>
    rw [Nat.succ_add] at h
    obtain ⟨r, hr, hrest⟩ := Option.bind_eq_some_iff.mp h
    obtain ⟨t, ht, hlast⟩ := ih hrest
    exact ⟨t, (after_succ hr m).trans ht, hlast⟩

/-- One more move. -/
theorem after_add_one {n : Nat} (h : s.after margin n = some t) :
    s.after margin (n + 1) = t.next? margin := by
  rw [after_add h, Stage.after]
  exact Option.bind_fun_some _

/-- What every move keeps is kept by any number of moves. -/
theorem Stage.after_induction {P : Stage α → Prop}
    (hnext : ∀ {s t : Stage α}, s.next? margin = some t → P s → P t) {n : Nat}
    (h : s.after margin n = some t) (hs : P s) : P t := by
  induction n generalizing s with
  | zero =>
    cases h
    exact hs
  | succ n ih =>
    obtain ⟨r, hr, hrest⟩ := Option.bind_eq_some_iff.mp h
    exact ih hrest (hnext hr hs)

/-! ## The end of the work -/

/-- A move does not change what the work ends with. -/
theorem outcome_next (h : s.next? margin = some t) : s.outcome margin = t.outcome margin := by
  obtain ⟨task, stack, m, hstack, hmove, rfl⟩ := next?_eq_some_iff.mp h
  rw [Stage.outcome, hstack, work_cons, hmove]
  rfl

/-- From every stage on the way the work ends as it does from the first one. -/
theorem outcome_after {n : Nat} (h : s.after margin n = some t) :
    s.outcome margin = t.outcome margin := by
  have hkept : ∀ {r r' : Stage α}, r.next? margin = some r' → s.outcome margin = r.outcome margin →
      s.outcome margin = r'.outcome margin := fun hnext hr => hr.trans (outcome_next hnext)
  exact Stage.after_induction hkept h rfl

/-- Work that comes to its end has an empty stack after some number of moves. -/
theorem exists_after_of_work {stack : List (Task α)} {column reached : Int} {canvas painted : Canvas}
    (h : work margin stack column canvas = (painted, .ok reached)) :
    ∃ n, Stage.after margin n ⟨stack, column, canvas⟩ = some ⟨[], reached, painted⟩ := by
  induction stack, column, canvas using work.induct margin with
  | case1 column canvas =>
    rw [work_nil] at h
    cases h
    exact ⟨0, rfl⟩
  | case2 task stack column canvas obstacle hmove =>
    rw [work_cons, hmove] at h
    injection h with _ h
    contradiction
  | case3 task stack column canvas m hmove _ ih =>
    rw [work_cons, hmove] at h
    obtain ⟨n, hn⟩ := ih h
    exact ⟨n + 1, (after_succ (next?_cons hmove stack canvas) n).trans hn⟩

/-- The work that goes on from a stage takes `n` moves, no more and no fewer, and ends with `o`: the
stack is empty after them, and before each of them there is a task on it. -/
def Stage.EndsAfter (margin : Margin α) (s : Stage α) (n : Nat) (o : Outcome α) : Prop :=
  (∃ column canvas, s.after margin n = some ⟨[], column, canvas⟩ ∧ o = (canvas, .ok column)) ∧
    ∀ m < n, ∃ t, s.after margin m = some t ∧ t.stack ≠ []

/-- A number of moves that empties the stack is the number of moves that the work takes. -/
theorem endsAfter_outcome {n : Nat} {column : Int} {canvas : Canvas}
    (h : s.after margin n = some ⟨[], column, canvas⟩) :
    s.EndsAfter margin n (s.outcome margin) := by
  refine ⟨⟨column, canvas, h, ?_⟩, ?_⟩
  · rw [outcome_after h, Stage.outcome, work_nil]
  · intro m hm
    obtain ⟨k, rfl⟩ := Nat.exists_eq_add_of_lt hm
    rw [Nat.add_assoc] at h
    obtain ⟨t, ht, hrest⟩ := exists_after_of_add h
    refine ⟨t, ht, fun hnil => ?_⟩
    rw [after_eq_none_of_nil hnil] at hrest
    contradiction

end DocLayout
