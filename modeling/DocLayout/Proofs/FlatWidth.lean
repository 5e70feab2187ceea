import DocLayout.Proofs.Room

/-
  What a choice can rely on when it asks for the flat width of a document.

  The answer is sound as far as the parts of the document still have room when their turn comes, and
  not further: `greedyPair` fits in four columns and, given six, breaks its line and leaves the page.
  It is complete: a flat alternative without a `fullLine` that is passed over for want of room would
  have broken a line or left the page.

  Proved:
  * `staysOnLine_iff_room`: a document that fits stays on its line exactly if every part of it still
    has room when its turn comes; no overspending choice is enough for that, and then the document
    ends exactly where its flat width says.
  * `greedyPair_leaves_line`: a document that fits and does not stay on its line.
  * `flatWidth_complete`: where no `fullLine` is in the way, a document without a flat width breaks
    a line, one that breaks none takes up its flat width at least, and a choice passes its flat
    alternative over only if that one would break a line or end past the page.
-/

namespace DocLayout

variable {κ : Type}

/-! ## Staying on the line -/

/-- A document that is laid out on the line where it begins: it breaks no line, comes past no `vert`
and no `fullLine`, and ends within the page. -/
structure StaysOnLine (d : Doc (Value κ)) (canvas : Canvas) (indent column w : Int) : Prop where
  unbroken : (d.layOut canvas indent column (.page w)).1.finished = canvas.finished
  level : ∀ t ∈ trace (.page w) [.lay d indent] column, t.1.Level
  within : ∃ reached, (d.layOut canvas indent column (.page w)).2 = .ok reached ∧ reached ≤ w

variable {d : Doc (Value κ)}

theorem staysOnLine_iff (hd : d.WellFormed) (canvas : Canvas) (indent column w : Int) :
    StaysOnLine d canvas indent column w ↔
      (∀ t ∈ d.course w indent column, t.1.Level) ∧ d.endColumn w indent column ≤ w := by
  constructor
  · intro h
    obtain ⟨reached, hreached, hle⟩ := h.within
    rw [layOut_page hd] at hreached
    injection hreached with hreached
    rw [← trace_page hd, hreached]
    exact ⟨h.level, hle⟩
  · rintro ⟨hlevel, hend⟩
    refine ⟨?_, ?_, d.endColumn w indent column, ?_, hend⟩
    · rw [layOut_page hd]
      exact Canvas.finished_append_of_size_eq_zero _ (unbroken_of_level hlevel)
    · rwa [trace_page hd]
    · rw [layOut_page hd]

/-- A document that fits in the rest of the line stays on the line exactly if every part of it still
has room for its flat width when its turn comes. That is so if no choice on the way overspends, and
then the document ends exactly where its own flat width says. -/
theorem staysOnLine_iff_room (hd : d.WellFormed) (canvas : Canvas) (indent : Int) {column w : Int}
    {n : Nat} (hn : d.flatWidth = .columns n) (hfit : column + n ≤ w) :
    (StaysOnLine d canvas indent column w ↔
      ∀ t ∈ trace (.page w) [.lay d indent] column, Task.HasRoom w t) ∧
    ((∀ t ∈ trace (.page w) [.lay d indent] column, ¬ Task.Overspends w t) →
      StaysOnLine d canvas indent column w ∧
        (d.layOut canvas indent column (.page w)).2 = .ok (column + n)) := by
  rw [staysOnLine_iff hd, trace_page hd]
  refine ⟨⟨?_, ?_⟩, ?_⟩
  · rintro ⟨hlevel, hend⟩
    exact hasRoom_of_level hd hlevel hend
  · intro hroom
    exact ⟨fun t ht => (hroom t ht).level, endColumn_le_of_hasRoom hroom⟩
  · intro hspend
    obtain ⟨hroom, hend⟩ := hasRoom_of_not_overspends hd hn hfit hspend
    refine ⟨⟨fun t ht => (hroom t ht).level, endColumn_le_of_hasRoom hroom⟩, ?_⟩
    rw [layOut_page hd, hend]

/-- Two choices side by side that fit together in four columns. The first one takes five where there
are so many, and the second one has to break then. -/
def greedyPair : Doc (Value Empty) :=
  .horz (.choice (.text "aaaaa") (.text "bb"))
    (.choice (.text "cc") (.fullLine (.vert (.text "c") (.text "ccccccc"))))

theorem greedyPair_wellFormed : greedyPair.WellFormed := by
  have unbroken : ∀ s ∈ ["aaaaa", "bb", "cc", "c", "ccccccc"], Text.Unbroken s := by decide
  exact ⟨rfl, ⟨rfl, unbroken "aaaaa" (by simp), unbroken "bb" (by simp)⟩, rfl,
    unbroken "cc" (by simp), unbroken "c" (by simp), unbroken "ccccccc" (by simp)⟩

/-- On four columns it stays on the line. -/
theorem staysOnLine_iff_room_greedyPair :
    greedyPair.WellFormed ∧ greedyPair.flatWidth = .columns 4 ∧ (0 : Int) + (4 : Nat) ≤ 4 ∧
    (∀ t ∈ trace (.page 4) [.lay greedyPair 0] 0, ¬ Task.Overspends 4 t) ∧
    (∀ t ∈ trace (.page 4) [.lay greedyPair 0] 0, Task.HasRoom 4 t) ∧
    StaysOnLine greedyPair .empty 0 0 4 ∧
    (greedyPair.layOut .empty 0 0 (.page 4)).2 = .ok (0 + (4 : Nat)) := by
  have hspend : ∀ t ∈ trace (.page 4) [.lay greedyPair 0] 0, ¬ Task.Overspends 4 t := by
    rw [trace_page greedyPair_wellFormed]
    decide
  have hfit : (0 : Int) + (4 : Nat) ≤ 4 := by decide
  obtain ⟨hroom, hexact⟩ := staysOnLine_iff_room greedyPair_wellFormed .empty 0 rfl hfit
  obtain ⟨hstays, hend⟩ := hexact hspend
  exact ⟨greedyPair_wellFormed, rfl, hfit, hspend, hroom.mp hstays, hstays, hend⟩

/-- Room for the flat width is not enough to stay on the line. On six columns the pair would fit in
four, but it breaks the line and ends in column twelve. -/
theorem greedyPair_leaves_line :
    greedyPair.WellFormed ∧ greedyPair.flatWidth = .columns 4 ∧ (0 : Int) + (4 : Nat) ≤ 6 ∧
    (greedyPair.layOut .empty 0 0 (.page 6)).1.lines = ["aaaaac", "     ccccccc"] ∧
    (greedyPair.layOut .empty 0 0 (.page 6)).2 = .ok 12 ∧
    ¬ StaysOnLine greedyPair .empty 0 0 6 := by
  refine ⟨greedyPair_wellFormed, rfl, by decide, ?_, ?_, ?_⟩
  · rw [layOut_page greedyPair_wellFormed]
    decide
  · rw [layOut_page greedyPair_wellFormed]
    rfl
  · rw [staysOnLine_iff greedyPair_wellFormed]
    rintro ⟨-, hend⟩
    exact absurd hend (by decide)

/-! ## What a flat width never misses -/

/-- A document whose layout begins a new line. -/
def BreaksLine (d : Doc (Value κ)) (canvas : Canvas) (indent column w : Int) : Prop :=
  canvas.finished.size < (d.layOut canvas indent column (.page w)).1.finished.size

/-- A document without a `fullLine` that breaks no line has a flat width, and it takes up as much. -/
theorem le_reached_of_not_breaksLine (hd : d.WellFormed) (hf : d.FullLineFree) {canvas : Canvas}
    {indent column w : Int} (h : ¬ BreaksLine d canvas indent column w) :
    ∃ n, d.flatWidth = .columns n ∧
      ∃ reached, (d.layOut canvas indent column (.page w)).2 = .ok reached ∧
        column + n ≤ reached := by
  rw [BreaksLine, layOut_page hd, Canvas.size_finished_append] at h
  have hlevel : ∀ t ∈ d.course w indent column, t.1.Level := level_of_unbroken hf (by omega)
  obtain ⟨n, hn, hle⟩ := le_endColumn_of_level hd hlevel
  refine ⟨n, hn, d.endColumn w indent column, ?_, hle⟩
  rw [layOut_page hd]

/-- The flat width of a document without a `fullLine` never asks for too much. A document that has
none breaks a line; one that breaks no line takes up at least as much; and a choice with the
document as its flat alternative takes it, unless it would break a line there or end past the
page. -/
theorem flatWidth_complete (hd : d.WellFormed) (hf : d.FullLineFree) (canvas : Canvas)
    (indent column w : Int) :
    (d.flatWidth = .never → BreaksLine d canvas indent column w) ∧
    (∀ n, d.flatWidth = .columns n → ¬ BreaksLine d canvas indent column w →
      ∃ reached, (d.layOut canvas indent column (.page w)).2 = .ok reached ∧
        column + n ≤ reached) ∧
    ((∀ width broken, (Task.lay (.choiceNode width d broken) indent).move (.page w) column =
        .ok ⟨none, column, [.lay d indent]⟩) ∨
      BreaksLine d canvas indent column w ∨
      ∃ reached, (d.layOut canvas indent column (.page w)).2 = .ok reached ∧ w < reached) := by
  refine ⟨?_, ?_, ?_⟩
  · intro hnever
    by_cases hbreak : BreaksLine d canvas indent column w
    · exact hbreak
    · obtain ⟨n, hn, -⟩ := le_reached_of_not_breaksLine hd hf hbreak
      rw [hnever] at hn
      contradiction
  · intro n hn hbreak
    obtain ⟨m, hm, hreached⟩ := le_reached_of_not_breaksLine hd hf hbreak
    rw [hn] at hm
    injection hm with hm
    subst hm
    exact hreached
  · by_cases hfit : d.flatWidth.Fits column w
    · left
      intro width broken
      rw [Task.move, admits_settled (w := w) rfl hd.settled, decide_eq_true hfit]
    · right
      by_cases hbreak : BreaksLine d canvas indent column w
      · exact .inl hbreak
      · right
        obtain ⟨n, hn, reached, hreached, hle⟩ := le_reached_of_not_breaksLine hd hf hbreak
        have hwide : ¬ column + n ≤ w := fun h => hfit (fits_iff.mpr ⟨n, hn, h⟩)
        exact ⟨reached, hreached, by omega⟩

/-- A choice between five columns and two lines, and a text behind it. -/
def brokenHead : Doc (Value Empty) :=
  .horz (.choice (.text "aaaaa") (.vert (.text "a") (.text "a"))) (.text "b")

theorem flatWidth_complete_brokenHead :
    brokenHead.WellFormed ∧ brokenHead.FullLineFree ∧
    (brokenHead.flatWidth = .never → BreaksLine brokenHead .empty 0 0 4) ∧
    (∀ n, brokenHead.flatWidth = .columns n → ¬ BreaksLine brokenHead .empty 0 0 4 →
      ∃ reached, (brokenHead.layOut .empty 0 0 (.page 4)).2 = .ok reached ∧ 0 + n ≤ reached) ∧
    ((∀ width broken, (Task.lay (.choiceNode width brokenHead broken) 0).move (.page 4) 0 =
        .ok ⟨none, 0, [.lay brokenHead 0]⟩) ∨
      BreaksLine brokenHead .empty 0 0 4 ∨
      ∃ reached, (brokenHead.layOut .empty 0 0 (.page 4)).2 = .ok reached ∧ 4 < reached) := by
  have unbroken : ∀ s ∈ ["aaaaa", "a", "b"], Text.Unbroken s := by decide
  have hd : brokenHead.WellFormed :=
    ⟨rfl, ⟨rfl, unbroken "aaaaa" (by simp), unbroken "a" (by simp), unbroken "a" (by simp)⟩,
      unbroken "b" (by simp)⟩
  have hf : brokenHead.FullLineFree := ⟨⟨trivial, trivial, trivial⟩, trivial⟩
  exact ⟨hd, hf, flatWidth_complete hd hf .empty 0 0 4⟩

end DocLayout
