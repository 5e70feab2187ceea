import DocLayout.Proofs.Calls
import DocLayout.Proofs.FlatWidth

/-
  Ordered documents, whose flat widths are exact.

  A document is ordered if no choice in it has a flat alternative that is wider than its broken one.
  Then no choice can spend columns that a document behind it was counting on, so a document that fits
  on the rest of the line takes up its flat width there, neither more nor less. For choices in
  general the flat width is a lower bound only (`greedyPair` is not ordered).

  Every way of building but a choice that is asked for as such makes ordered documents of ordered
  ones. The choices that it brings in pit one line against several or a layout against itself.

  Proved:
  * `rule_orderly`: being well formed and ordered is a rule in the sense of `Rule`.
  * `not_overspends_of_ordered`: no choice overspends in the layout of an ordered document.
  * `orderly_exact`: what is built of ordered documents is ordered, and an ordered document that fits
    stays on its line and ends where its flat width says.
-/

namespace DocLayout

variable {α κ : Type}

/-- No choice in the document has a flat alternative that is wider than its broken one. -/
def Doc.Ordered : Doc α → Prop
  | .text _ | .foreign _ _ => True
  | .horzNode _ a b | .concatNode _ a b | .vert a b => a.Ordered ∧ b.Ordered
  | .choiceNode _ flat broken =>
    (∀ m n, flat.flatWidth = .columns m → broken.flatWidth = .columns n → m ≤ n) ∧
      flat.Ordered ∧ broken.Ordered
  | .fullLine a => a.Ordered

/-- A well formed and ordered document. -/
structure Doc.Orderly (d : Doc α) : Prop where
  wellFormed : d.WellFormed
  ordered : d.Ordered

theorem not_wider_iff {v u : FlatWidth α} :
    ¬ v.Wider u ↔ ∀ m n, v = .columns m → u = .columns n → m ≤ n := by
  constructor
  · rintro h m n rfl rfl
    exact Nat.le_of_not_lt h
  · intro h hwide
    cases v with
    | columns m =>
      cases u with
      | columns n => exact Nat.not_lt.mpr (h m n rfl rfl) hwide
      | never | claimed x => exact hwide
    | never | claimed x => exact hwide

/-! ## Building ordered documents -/

/-- Being well formed and ordered is kept by every way of building. -/
theorem rule_orderly : Rule (Doc.Orderly (α := Value κ)) where
  settled h := h.wellFormed.settled
  parts := by
    rintro d ⟨hd, ho⟩
    refine allDocs_nodeParts (fun x w h => h.wellFormed) ?_
    cases d with
    | text s => trivial
    | horzNode w a b | concatNode w a b => exact ⟨⟨hd.2.1, ho.1⟩, hd.2.2, ho.2⟩
    | vert a b => exact ⟨⟨hd.1, ho.1⟩, hd.2, ho.2⟩
    | choiceNode w flat broken => exact ⟨⟨hd.2.1, ho.2.1⟩, hd.2.2, ho.2.2⟩
    | fullLine a => exact ⟨hd, ho⟩
    | foreign x w => exact hd.elim
  text h := ⟨h, trivial⟩
  horz ha hb := ⟨⟨rfl, ha.wellFormed, hb.wellFormed⟩, ha.ordered, hb.ordered⟩
  concat ha hb := ⟨⟨rfl, ha.wellFormed, hb.wellFormed⟩, ha.ordered, hb.ordered⟩
  vert ha hb := ⟨⟨ha.wellFormed, hb.wellFormed⟩, ha.ordered, hb.ordered⟩
  fullLine ha := ⟨ha.wellFormed, ha.ordered⟩
  choice := by
    intro flat broken hf hb h
    refine ⟨⟨rfl, hf.wellFormed, hb.wellFormed⟩, ?_, hf.ordered, hb.ordered⟩
    intro m n hm hn
    obtain hnever | rfl := h
    · rw [hnever] at hn
      contradiction
    · rw [hm] at hn
      injection hn with hn
      exact Nat.le_of_eq hn

/-! ## Laying ordered documents out -/

/-- No choice that is laid out as a part of an ordered document overspends. -/
theorem not_overspends_of_ordered {d : Doc α} (h : d.Ordered) {w indent column : Int} :
    ∀ t ∈ d.course w indent column, ¬ Task.Overspends w t := by
  induction d generalizing indent column with
  | text s => exact forall_course_text.mpr id
  | horzNode v a b iha ihb => exact forall_course_horz.mpr ⟨id, iha h.1, id, ihb h.2⟩
  | concatNode v a b iha ihb => exact forall_course_concat.mpr ⟨id, iha h.1, ihb h.2⟩
  | vert a b iha ihb =>
    rw [Doc.course, List.forall_mem_cons, List.forall_mem_append, List.forall_mem_cons]
    exact ⟨id, iha h.1, id, ihb h.2⟩
  | choiceNode v flat broken ihf ihb =>
    have hself : ¬ Task.Overspends w (.lay (.choiceNode v flat broken) indent, column) :=
      fun hspend => not_wider_iff.mpr h.1 hspend.2
    by_cases hfit : flat.flatWidth.Fits column w
    · exact (forall_course_choice_of_fits hfit).mpr ⟨hself, ihf h.2.1⟩
    · exact (forall_course_choice_of_not_fits hfit).mpr ⟨hself, ihb h.2.2⟩
  | fullLine a ih =>
    rw [Doc.course, List.forall_mem_cons]
    exact ⟨id, ih h⟩
  | foreign x v =>
    rw [Doc.course, List.forall_mem_singleton]
    exact id

/-- An ordered document that fits stays on its line and ends where its flat width says. -/
theorem staysOnLine_of_orderly {d : Doc (Value κ)} (h : d.Orderly) (canvas : Canvas) (indent : Int)
    {column w : Int} {n : Nat} (hn : d.flatWidth = .columns n) (hfit : column + n ≤ w) :
    StaysOnLine d canvas indent column w ∧
      (d.layOut canvas indent column (.page w)).2 = .ok (column + n) := by
  have hspend : ∀ t ∈ d.course w indent column, ¬ Task.Overspends w t :=
    not_overspends_of_ordered h.ordered
  obtain ⟨hroom, hend⟩ := hasRoom_of_not_overspends h.wellFormed hn hfit hspend
  refine ⟨(staysOnLine_iff h.wellFormed ..).mpr ?_, ?_⟩
  · exact ⟨fun t ht => (hroom t ht).level, endColumn_le_of_hasRoom hroom⟩
  · rw [layOut_page h.wellFormed, hend]

/-! ## Exact flat widths -/

/-- Whatever is built of ordered documents in any way but as a choice is ordered, and plain arguments
are always built to a document. An ordered document that fits in the rest of the line breaks no line,
lays out no `vert` and no `fullLine`, and ends exactly where its flat width says. -/
theorem orderly_exact (run : Interpreter κ) :
    (Heeds Doc.Orderly run → ∀ c : Call κ, ¬ c.IsChoice →
      (∀ v ∈ c.arguments, v.AllDocs Doc.Orderly) →
      Makes Doc.Orderly (c.perform run) ∧
      (c.Plain → ∃ d, c.perform run = pure d ∧ d.Orderly)) ∧
    ∀ (d : Doc (Value κ)) (canvas : Canvas) (indent column w : Int) (n : Nat), d.Orderly →
      d.flatWidth = .columns n → column + n ≤ w →
      StaysOnLine d canvas indent column w ∧
        (d.layOut canvas indent column (.page w)).2 = .ok (column + n) := by
  refine ⟨fun hrun c hc harguments => ?_, ?_⟩
  · have hmakes := makes_perform rule_orderly hrun hc harguments
    refine ⟨hmakes, fun hplain => ?_⟩
    obtain ⟨d, hd⟩ := perform_plain rule_orderly run hplain harguments
    rw [hd] at hmakes
    exact ⟨d, hd, of_keeps_pure hmakes allDocs_empty⟩
  · intro d canvas indent column w n h hn hfit
    exact staysOnLine_of_orderly h canvas indent hn hfit

/-- A choice that can only stand on one line by its broken alternative, and two words behind it. -/
def poisonedHead : Doc (Value Empty) :=
  .horz (.choice (.fullLine (.text "aaa")) (.text "a"))
    (.wrap [.text "b", .text "c"] (.text " ") .nil)

/-- Items that end with that document. -/
def poisonedItems : Call Empty := .sepBy (.list [.str "a", .doc poisonedHead]) (.str " ") (.str ",")

theorem poisonedHead_orderly : poisonedHead.Orderly where
  wellFormed := by
    have unbroken : ∀ s ∈ ["aaa", "a", "b", " ", "c", ""], Text.Unbroken s := by decide
    exact ⟨rfl, ⟨rfl, unbroken "aaa" (by simp), unbroken "a" (by simp)⟩, rfl, unbroken "b" (by simp),
      rfl, ⟨rfl, unbroken " " (by simp), unbroken "c" (by simp)⟩, unbroken "" (by simp),
      unbroken "c" (by simp)⟩
  ordered :=
    ⟨⟨fun _ _ hflat _ => by contradiction, trivial, trivial⟩, trivial,
      fun _ _ _ hbroken => by contradiction, ⟨trivial, trivial⟩, trivial, trivial⟩

theorem orderly_exact_poisonedHead :
    poisonedHead.Orderly ∧ poisonedHead.flatWidth = .columns 4 ∧ (2 : Int) + (4 : Nat) ≤ 6 ∧
    StaysOnLine poisonedHead .empty 0 2 6 ∧
    (poisonedHead.layOut .empty 0 2 (.page 6)).2 = .ok (2 + (4 : Nat)) ∧
    Heeds (κ := Empty) Doc.Orderly Empty.elim ∧ ¬ poisonedItems.IsChoice ∧
    (∀ v ∈ poisonedItems.arguments, v.AllDocs Doc.Orderly) ∧ poisonedItems.Plain ∧
    Makes Doc.Orderly (poisonedItems.perform Empty.elim) ∧
    ∃ d, poisonedItems.perform Empty.elim = pure d ∧ d.Orderly := by
  have hrun : Heeds (κ := Empty) Doc.Orderly Empty.elim := fun code => code.elim
  have hfit : (2 : Int) + (4 : Nat) ≤ 6 := by decide
  have arguments : ∀ v ∈ poisonedItems.arguments, v.AllDocs Doc.Orderly := by
    have items : ∀ v ∈ [Value.str "a", .doc poisonedHead], v.AllDocs Doc.Orderly := by
      simp only [List.forall_mem_cons]
      exact ⟨.str _, .doc poisonedHead_orderly, List.forall_mem_nil _⟩
    simp only [poisonedItems, Call.arguments, List.forall_mem_cons]
    exact ⟨.list items, .str _, .str _, List.forall_mem_nil _⟩
  have plain : poisonedItems.Plain := by
    refine ⟨⟨_, rfl, ?_⟩, ⟨_, rfl⟩, ⟨_, rfl⟩⟩
    simp only [List.forall_mem_cons]
    exact ⟨⟨_, rfl⟩, ⟨_, rfl⟩, List.forall_mem_nil _⟩
  obtain ⟨building, layout⟩ := orderly_exact (κ := Empty) Empty.elim
  obtain ⟨makes, made⟩ := building hrun poisonedItems id arguments
  obtain ⟨stays, reached⟩ := layout poisonedHead .empty 0 2 6 4 poisonedHead_orderly rfl hfit
  exact ⟨poisonedHead_orderly, rfl, hfit, stays, reached, hrun, id, arguments, plain, makes,
    made plain⟩

end DocLayout
