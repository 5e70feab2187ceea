import DocLayout.Proofs.Course

/-
  Room on the way: flat widths against the course of a layout.

  A choice takes its flat alternative if the flat width of that one fits on the rest of the line.
  The flat width of a choice is the narrower of its two alternatives, while a choice that is laid
  out takes the first one that fits, narrower or not. So a flat width is a lower bound: no layout
  without a line break ends earlier. It is no promise: a choice that takes a flat alternative wider
  than its broken one spends columns that a document behind it was counting on.

  Three predicates on the tasks of a course say how it goes. A `Level` task lays out no `vert` and
  no `fullLine`; a task that `HasRoom` finds the flat width of its document fitting where it begins;
  and a task that `Overspends` is a choice that takes the wider one of its alternatives.

  Proved:
  * `unbroken_of_level`, `level_of_unbroken`: no line is broken on a level course, and on no other
    one if there is no `fullLine` in the document.
  * `le_endColumn_of_level`: a document with a level course has a flat width, and ends no earlier
    than that says.
  * `endColumn_le_of_hasRoom`, `hasRoom_of_level`: a level course ends within the page exactly if
    everything on it has room.
  * `hasRoom_of_not_overspends`: on a course without overspending everything has room, and it ends
    exactly where the flat width says.

  Not proved here: which documents have no choice that can overspend.
-/

namespace DocLayout

/-! ## Levels, room and spending -/

variable {α : Type}

/-- Both are widths on a single line, and the first is the wider one. -/
def FlatWidth.Wider : FlatWidth α → FlatWidth α → Prop
  | .columns m, .columns n => n < m
  | _, _ => False

instance (v u : FlatWidth α) : Decidable (v.Wider u) :=
  match v, u with
  | .columns m, .columns n => inferInstanceAs (Decidable (n < m))
  | .columns _, .never | .columns _, .claimed _ | .never, _ | .claimed _, _ => isFalse id

/-- A task that lays out neither a `vert` nor a `fullLine`. -/
def Task.Level : Task α → Prop
  | .lay (.vert _ _) _ | .lay (.fullLine _) _ => False
  | _ => True

/-- A document that is laid out has room for its flat width where it begins. -/
def Task.HasRoom (w : Int) : Task α × Int → Prop
  | (.lay d _, column) => d.flatWidth.Fits column w
  | _ => True

/-- A choice takes a flat alternative that is wider than its broken one. -/
def Task.Overspends (w : Int) : Task α × Int → Prop
  | (.lay (.choiceNode _ flat broken) _, column) =>
    flat.flatWidth.Fits column w ∧ flat.flatWidth.Wider broken.flatWidth
  | _ => False

instance (w : Int) : DecidablePred (Task.HasRoom (α := α) w)
  | (.lay d _, column) => inferInstanceAs (Decidable (d.flatWidth.Fits column w))
  | (.align _, _) | (.lineBreak _, _) => isTrue trivial

instance (w : Int) : DecidablePred (Task.Overspends (α := α) w)
  | (.lay (.choiceNode _ flat broken) _, column) =>
    inferInstanceAs (Decidable
      (flat.flatWidth.Fits column w ∧ flat.flatWidth.Wider broken.flatWidth))
  | (.lay (.text _) _, _) | (.lay (.horzNode ..) _, _) | (.lay (.concatNode ..) _, _)
  | (.lay (.vert ..) _, _) | (.lay (.fullLine _) _, _) | (.lay (.foreign ..) _, _)
  | (.align _, _) | (.lineBreak _, _) => isFalse id

/-- A document with no `fullLine` in it. -/
def Doc.FullLineFree : Doc α → Prop
  | .text _ | .foreign _ _ => True
  | .horzNode _ a b | .concatNode _ a b | .vert a b | .choiceNode _ a b =>
    a.FullLineFree ∧ b.FullLineFree
  | .fullLine _ => False

theorem Task.HasRoom.level {w : Int} {t : Task α × Int} (h : Task.HasRoom w t) : t.1.Level := by
  obtain ⟨task, column⟩ := t
  cases task with
  | align d => trivial
  | lineBreak indent => trivial
  | lay d indent => cases d <;> trivial

/-! ## Sums and minima of widths -/

theorem add_eq_columns {v u : FlatWidth α} {n : Nat} (h : v.add u = .columns n) :
    ∃ m k, v = .columns m ∧ u = .columns k ∧ n = m + k := by
  cases v with
  | columns m =>
    cases u with
    | columns k =>
      injection h with h
      exact ⟨m, k, rfl, rfl, h.symm⟩
    | never => contradiction
    | claimed x => contradiction
  | never => contradiction
  | claimed x => contradiction

theorem narrower_le_left (m : Nat) {v : FlatWidth α} (hv : v.Settled) :
    ∃ n, (FlatWidth.columns m).narrower v = .columns n ∧ n ≤ m := by
  cases v with
  | never => exact ⟨m, rfl, Nat.le_refl m⟩
  | columns k => exact ⟨min m k, rfl, Nat.min_le_left m k⟩
  | claimed x => exact hv.elim

theorem narrower_le_right (m : Nat) {v : FlatWidth α} (hv : v.Settled) :
    ∃ n, v.narrower (.columns m) = .columns n ∧ n ≤ m := by
  cases v with
  | never => exact ⟨m, rfl, Nat.le_refl m⟩
  | columns k => exact ⟨min k m, rfl, Nat.min_le_right k m⟩
  | claimed x => exact hv.elim

/-- A choice whose flat alternative has no room gets its width from the other one. -/
theorem columns_of_not_fits {v u : FlatWidth α} {n : Nat} {column w : Int}
    (h : v.narrower u = .columns n) (hv : ¬ v.Fits column w) (hfit : column + n ≤ w) :
    u = .columns n := by
  cases v with
  | never => cases u <;> first | exact h | contradiction
  | claimed x => cases u <;> first | exact h | contradiction
  | columns m =>
    have hm : ¬ column + m ≤ w := hv
    cases u with
    | columns k =>
      injection h with h
      congr 1
      omega
    | never =>
      injection h with h
      omega
    | claimed x =>
      injection h with h
      omega

/-- A choice whose flat alternative has room and is not the wider one gets its width from that. -/
theorem columns_of_fits {v u : FlatWidth α} {n : Nat} {column w : Int}
    (h : v.narrower u = .columns n) (hv : v.Fits column w) (hle : ¬ v.Wider u) :
    v = .columns n := by
  obtain ⟨m, rfl, -⟩ := fits_iff.mp hv
  cases u with
  | columns k =>
    have hmk : ¬ k < m := hle
    injection h with h
    congr 1
    omega
  | never => exact h
  | claimed x => exact h

/-! ## A level layout -/

variable {w indent column : Int} {d : Doc α}

/-- A layout that comes past no `vert` breaks no line. -/
theorem unbroken_of_level (h : ∀ t ∈ d.course w indent column, t.1.Level) :
    (d.drawing w indent column).finished.size = 0 := by
  induction d generalizing indent column with
  | text s => rfl
  | horzNode v a b iha ihb =>
    obtain ⟨-, ha, -, hb⟩ := forall_course_horz.mp h
    rw [Doc.drawing, Canvas.size_finished_append, iha ha, ihb hb]
  | concatNode v a b iha ihb =>
    obtain ⟨-, ha, hb⟩ := forall_course_concat.mp h
    rw [Doc.drawing, Canvas.size_finished_append, iha ha, ihb hb]
  | vert a b iha ihb => exact (h _ (mem_course_self ..)).elim
  | choiceNode v flat broken ihf ihb =>
    rw [Doc.drawing]
    by_cases hfit : flat.flatWidth.Fits column w
    · rw [if_pos hfit]
      exact ihf ((forall_course_choice_of_fits hfit).mp h).2
    · rw [if_neg hfit]
      exact ihb ((forall_course_choice_of_not_fits hfit).mp h).2
  | fullLine a ih => exact (h _ (mem_course_self ..)).elim
  | foreign x v => rfl

/-- Where no `fullLine` hides one, the only way to break no line is to come past no `vert`. -/
theorem level_of_unbroken (hf : d.FullLineFree)
    (h : (d.drawing w indent column).finished.size = 0) :
    ∀ t ∈ d.course w indent column, t.1.Level := by
  induction d generalizing indent column with
  | text s => exact forall_course_text.mpr trivial
  | horzNode v a b iha ihb =>
    rw [Doc.drawing, Canvas.size_finished_append, Nat.add_eq_zero_iff] at h
    exact forall_course_horz.mpr ⟨trivial, iha hf.1 h.1, trivial, ihb hf.2 h.2⟩
  | concatNode v a b iha ihb =>
    rw [Doc.drawing, Canvas.size_finished_append, Nat.add_eq_zero_iff] at h
    exact forall_course_concat.mpr ⟨trivial, iha hf.1 h.1, ihb hf.2 h.2⟩
  | vert a b iha ihb =>
    rw [Doc.drawing, Canvas.size_finished_append, Nat.add_eq_zero_iff] at h
    simp [Canvas.breakLine] at h
  | choiceNode v flat broken ihf ihb =>
    rw [Doc.drawing] at h
    by_cases hfit : flat.flatWidth.Fits column w
    · rw [if_pos hfit] at h
      exact (forall_course_choice_of_fits hfit).mpr ⟨trivial, ihf hf.1 h⟩
    · rw [if_neg hfit] at h
      exact (forall_course_choice_of_not_fits hfit).mpr ⟨trivial, ihb hf.2 h⟩
  | fullLine a ih => exact hf.elim
  | foreign x v =>
    rw [Doc.course, List.forall_mem_singleton]
    trivial

/-- A layout that comes past no `vert` and no `fullLine` is that of a document with a flat width,
and it ends no earlier than that says. -/
theorem le_endColumn_of_level (hd : d.WellFormed)
    (h : ∀ t ∈ d.course w indent column, t.1.Level) :
    ∃ n, d.flatWidth = .columns n ∧ column + n ≤ d.endColumn w indent column := by
  induction d generalizing indent column with
  | text s => exact ⟨s.length, rfl, Int.le_refl _⟩
  | horzNode v a b iha ihb =>
    obtain ⟨-, ha, -, hb⟩ := forall_course_horz.mp h
    obtain ⟨m, hm, hmid⟩ := iha hd.2.1 ha
    obtain ⟨k, hk, hend⟩ := ihb hd.2.2 hb
    refine ⟨m + k, ?_, ?_⟩
    · rw [Doc.flatWidth, hd.1, hm, hk]
      rfl
    · rw [Doc.endColumn]
      omega
  | concatNode v a b iha ihb =>
    obtain ⟨-, ha, hb⟩ := forall_course_concat.mp h
    obtain ⟨m, hm, hmid⟩ := iha hd.2.1 ha
    obtain ⟨k, hk, hend⟩ := ihb hd.2.2 hb
    refine ⟨m + k, ?_, ?_⟩
    · rw [Doc.flatWidth, hd.1, hm, hk]
      rfl
    · rw [Doc.endColumn]
      omega
  | vert a b iha ihb => exact (h _ (mem_course_self ..)).elim
  | choiceNode v flat broken ihf ihb =>
    rw [Doc.flatWidth, hd.1, Doc.endColumn]
    -- the alternative that is laid out has a width, and the choice claims no more than that
    by_cases hfit : flat.flatWidth.Fits column w
    · rw [if_pos hfit]
      obtain ⟨m, hm, hend⟩ := ihf hd.2.1 ((forall_course_choice_of_fits hfit).mp h).2
      obtain ⟨n, hn, hle⟩ := narrower_le_left m hd.2.2.settled
      exact ⟨n, by rw [hm, hn], by omega⟩
    · rw [if_neg hfit]
      obtain ⟨m, hm, hend⟩ := ihb hd.2.2 ((forall_course_choice_of_not_fits hfit).mp h).2
      obtain ⟨n, hn, hle⟩ := narrower_le_right m hd.2.1.settled
      exact ⟨n, by rw [hm, hn], by omega⟩
  | fullLine a ih => exact (h _ (mem_course_self ..)).elim
  | foreign x v => exact hd.elim

/-- A level layout never goes back on its line. -/
theorem column_le_endColumn_of_level (hd : d.WellFormed)
    (h : ∀ t ∈ d.course w indent column, t.1.Level) : column ≤ d.endColumn w indent column := by
  obtain ⟨n, -, hle⟩ := le_endColumn_of_level hd h
  omega

/-! ## Room on the way -/

/-- With room for everything on the way, the end is within the page. -/
theorem endColumn_le_of_hasRoom (h : ∀ t ∈ d.course w indent column, Task.HasRoom w t) :
    d.endColumn w indent column ≤ w := by
  induction d generalizing indent column with
  | text s => exact forall_course_text.mp h
  | horzNode v a b iha ihb => exact ihb (forall_course_horz.mp h).2.2.2
  | concatNode v a b iha ihb => exact ihb (forall_course_concat.mp h).2.2
  | vert a b iha ihb => exact (h _ (mem_course_self ..)).elim
  | choiceNode v flat broken ihf ihb =>
    rw [Doc.endColumn]
    by_cases hfit : flat.flatWidth.Fits column w
    · rw [if_pos hfit]
      exact ihf ((forall_course_choice_of_fits hfit).mp h).2
    · rw [if_neg hfit]
      exact ihb ((forall_course_choice_of_not_fits hfit).mp h).2
  | fullLine a ih => exact (h _ (mem_course_self ..)).elim
  | foreign x v =>
    obtain ⟨n, -, hle⟩ := fits_iff.mp (h _ (mem_course_self ..))
    rw [Doc.endColumn]
    omega

/-- A level layout that ends within the page began with room for its document. -/
theorem fits_of_level (hd : d.WellFormed) (h : ∀ t ∈ d.course w indent column, t.1.Level)
    (hend : d.endColumn w indent column ≤ w) : d.flatWidth.Fits column w := by
  obtain ⟨n, hn, hle⟩ := le_endColumn_of_level hd h
  exact fits_iff.mpr ⟨n, hn, Int.le_trans hle hend⟩

/-- A level layout that ends within the page had room for everything on the way. -/
theorem hasRoom_of_level (hd : d.WellFormed) (h : ∀ t ∈ d.course w indent column, t.1.Level)
    (hend : d.endColumn w indent column ≤ w) :
    ∀ t ∈ d.course w indent column, Task.HasRoom w t := by
  induction d generalizing indent column with
  | text s => exact forall_course_text.mpr hend
  | horzNode v a b iha ihb =>
    obtain ⟨-, ha, -, hb⟩ := forall_course_horz.mp h
    -- the second part never goes back, so the first one ends within the page as well
    have hmid := Int.le_trans (column_le_endColumn_of_level hd.2.2 hb) hend
    refine forall_course_horz.mpr ⟨fits_of_level hd h hend, ?_, trivial, ?_⟩
    · exact iha hd.2.1 ha hmid
    · exact ihb hd.2.2 hb hend
  | concatNode v a b iha ihb =>
    obtain ⟨-, ha, hb⟩ := forall_course_concat.mp h
    have hmid := Int.le_trans (column_le_endColumn_of_level hd.2.2 hb) hend
    refine forall_course_concat.mpr ⟨fits_of_level hd h hend, ?_, ?_⟩
    · exact iha hd.2.1 ha hmid
    · exact ihb hd.2.2 hb hend
  | vert a b iha ihb => exact (h _ (mem_course_self ..)).elim
  | choiceNode v flat broken ihf ihb =>
    have hroom := fits_of_level hd h hend
    rw [Doc.endColumn] at hend
    by_cases hfit : flat.flatWidth.Fits column w
    · rw [if_pos hfit] at hend
      rw [forall_course_choice_of_fits hfit] at h ⊢
      exact ⟨hroom, ihf hd.2.1 h.2 hend⟩
    · rw [if_neg hfit] at hend
      rw [forall_course_choice_of_not_fits hfit] at h ⊢
      exact ⟨hroom, ihb hd.2.2 h.2 hend⟩
  | fullLine a ih => exact (h _ (mem_course_self ..)).elim
  | foreign x v => exact hd.elim

/-- A document that fits has room for everything on the way, and ends where its flat width says, if
no choice overspends. -/
theorem hasRoom_of_not_overspends {n : Nat} (hd : d.WellFormed) (hn : d.flatWidth = .columns n)
    (hfit : column + n ≤ w) (h : ∀ t ∈ d.course w indent column, ¬ Task.Overspends w t) :
    (∀ t ∈ d.course w indent column, Task.HasRoom w t) ∧
      d.endColumn w indent column = column + n := by
  induction d generalizing indent column n with
  | text s =>
    injection hn with hn
    subst hn
    exact ⟨forall_course_text.mpr hfit, rfl⟩
  | horzNode v a b iha ihb =>
    obtain ⟨-, ha, -, hb⟩ := forall_course_horz.mp h
    have hroom := fits_iff.mpr ⟨n, hn, hfit⟩
    obtain ⟨m, k, hm, hk, rfl⟩ := add_eq_columns (hd.1.symm.trans hn)
    obtain ⟨hrooma, hmid⟩ := iha hd.2.1 hm (by omega) ha
    obtain ⟨hroomb, hend⟩ := ihb hd.2.2 hk (by omega) hb
    refine ⟨forall_course_horz.mpr ⟨hroom, hrooma, trivial, hroomb⟩, ?_⟩
    rw [Doc.endColumn, hend, hmid]
    omega
  | concatNode v a b iha ihb =>
    obtain ⟨-, ha, hb⟩ := forall_course_concat.mp h
    have hroom := fits_iff.mpr ⟨n, hn, hfit⟩
    obtain ⟨m, k, hm, hk, rfl⟩ := add_eq_columns (hd.1.symm.trans hn)
    obtain ⟨hrooma, hmid⟩ := iha hd.2.1 hm (by omega) ha
    obtain ⟨hroomb, hend⟩ := ihb hd.2.2 hk (by omega) hb
    refine ⟨forall_course_concat.mpr ⟨hroom, hrooma, hroomb⟩, ?_⟩
    rw [Doc.endColumn, hend, hmid]
    omega
  | vert a b iha ihb => contradiction
  | choiceNode v flat broken ihf ihb =>
    have hroom := fits_iff.mpr ⟨n, hn, hfit⟩
    have hwidth : flat.flatWidth.narrower broken.flatWidth = .columns n := hd.1.symm.trans hn
    rw [Doc.endColumn]
    -- either way the alternative that is laid out is as wide as the choice says it is
    by_cases hflat : flat.flatWidth.Fits column w
    · rw [forall_course_choice_of_fits hflat] at h ⊢
      rw [if_pos hflat]
      have hm := columns_of_fits hwidth hflat fun hwider => h.1 ⟨hflat, hwider⟩
      obtain ⟨hall, hend⟩ := ihf hd.2.1 hm hfit h.2
      exact ⟨⟨hroom, hall⟩, hend⟩
    · rw [forall_course_choice_of_not_fits hflat] at h ⊢
      rw [if_neg hflat]
      have hk := columns_of_not_fits hwidth hflat hfit
      obtain ⟨hall, hend⟩ := ihb hd.2.2 hk hfit h.2
      exact ⟨⟨hroom, hall⟩, hend⟩
  | fullLine a ih => contradiction
  | foreign x v => exact hd.elim

end DocLayout
