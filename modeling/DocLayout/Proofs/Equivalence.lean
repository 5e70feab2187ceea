import DocLayout.Proofs.Descent

/-
  Documents that no document around them tells apart.

  Two documents are equivalent if they have the same flat width and every layout treats them alike:
  from the same canvas, indentation and column it leaves the same canvas and returns the same column
  or the same obstacle, whatever the margin is.

  A context is a document with a hole in it, at any depth. A choice in it may be decided by the flat
  width of what fills the hole, so equal layouts alone would not do; with equal widths as well every
  node above the hole stays equivalent.

  Proved:
  * `Doc.LaidAlike.horz` and its siblings: of the widths in a document only those of flat alternatives
    matter to its layout.
  * `Doc.Equivalent.horz` and its siblings: equivalence is kept by every node.
  * `equivalent_fill`: and so by every context.
-/

namespace DocLayout

variable {α : Type}

/-! ## Layouts that agree -/

/-- Two documents that every layout treats alike. -/
def Doc.LaidAlike (a b : Doc α) : Prop :=
  ∀ (margin : Margin α) (canvas : Canvas) (indent column : Int),
    a.descend margin canvas indent column = b.descend margin canvas indent column

namespace Doc.LaidAlike

variable {a a' b b' : Doc α} {v v' : FlatWidth α}

theorem refl (a : Doc α) : a.LaidAlike a := fun _ _ _ _ => rfl

theorem layOut (h : a.LaidAlike b) (margin : Margin α) (canvas : Canvas) (indent column : Int) :
    a.layOut canvas indent column margin = b.layOut canvas indent column margin := by
  rw [layOut_descend, layOut_descend, h]

/-- Documents that are laid out alike have the same lines on every page. -/
theorem lines {κ : Type} {a b : Doc (Value κ)} (h : a.LaidAlike b) (width : Value κ) :
    a.lines width = b.lines width := by
  rw [Doc.lines, Doc.lines, Doc.display, Doc.display, h.layOut]

/-- No layout looks at the width that a `horz` keeps. -/
theorem horz (ha : a.LaidAlike a') (hb : b.LaidAlike b') :
    (horzNode v a b).LaidAlike (horzNode v' a' b') := by
  intro margin canvas indent column
  rw [Doc.descend, Doc.descend, ha]
  exact andThen_congr _ fun canvas column => hb margin canvas column column

theorem concat (ha : a.LaidAlike a') (hb : b.LaidAlike b') :
    (concatNode v a b).LaidAlike (concatNode v' a' b') := by
  intro margin canvas indent column
  rw [Doc.descend, Doc.descend, ha]
  exact andThen_congr _ fun canvas column => hb margin canvas indent column

theorem vert (ha : a.LaidAlike a') (hb : b.LaidAlike b') : (Doc.vert a b).LaidAlike (.vert a' b') := by
  intro margin canvas indent column
  rw [Doc.descend, Doc.descend, ha]
  exact andThen_congr _ fun canvas _ => hb margin (canvas.breakLine indent) indent indent

/-- A choice asks for the width of its flat alternative, which has to be the same as well. -/
theorem choice (hw : a.flatWidth = a'.flatWidth) (ha : a.LaidAlike a') (hb : b.LaidAlike b') :
    (choiceNode v a b).LaidAlike (choiceNode v' a' b') := by
  intro margin canvas indent column
  rw [Doc.descend, Doc.descend, hw, ha, hb]

theorem fullLine (ha : a.LaidAlike a') : (Doc.fullLine a).LaidAlike (.fullLine a') := ha

/-- A `fullLine` only counts where its width is asked for. -/
theorem of_fullLine (ha : a.LaidAlike a') : (Doc.fullLine a).LaidAlike a' := ha

end Doc.LaidAlike

/-! ## Equivalence -/

/-- Two documents of the same flat width that are laid out alike everywhere. -/
structure Doc.Equivalent (a b : Doc α) : Prop where
  flatWidth : a.flatWidth = b.flatWidth
  layOut : ∀ (margin : Margin α) (canvas : Canvas) (indent column : Int),
    a.layOut canvas indent column margin = b.layOut canvas indent column margin

namespace Doc.Equivalent

variable {a a' b b' : Doc α}

theorem refl (a : Doc α) : a.Equivalent a := ⟨rfl, fun _ _ _ _ => rfl⟩

theorem symm (h : a.Equivalent b) : b.Equivalent a :=
  ⟨h.flatWidth.symm, fun margin canvas indent column => (h.layOut margin canvas indent column).symm⟩

theorem trans (h : a.Equivalent b) (h' : b.Equivalent b') : a.Equivalent b' :=
  ⟨h.flatWidth.trans h'.flatWidth, fun margin canvas indent column =>
    (h.layOut margin canvas indent column).trans (h'.layOut margin canvas indent column)⟩

theorem laidAlike (h : a.Equivalent b) : a.LaidAlike b := by
  intro margin canvas indent column
  rw [← layOut_descend, ← layOut_descend, h.layOut]

theorem of_laidAlike (hw : a.flatWidth = b.flatWidth) (h : a.LaidAlike b) : a.Equivalent b :=
  ⟨hw, h.layOut⟩

theorem horz (ha : a.Equivalent a') (hb : b.Equivalent b') :
    (Doc.horz a b).Equivalent (Doc.horz a' b') := by
  refine of_laidAlike ?_ (ha.laidAlike.horz hb.laidAlike)
  rw [flatWidth_horz, flatWidth_horz, ha.flatWidth, hb.flatWidth]

theorem concat (ha : a.Equivalent a') (hb : b.Equivalent b') :
    (Doc.concat a b).Equivalent (Doc.concat a' b') := by
  refine of_laidAlike ?_ (ha.laidAlike.concat hb.laidAlike)
  rw [flatWidth_concat, flatWidth_concat, ha.flatWidth, hb.flatWidth]

theorem vert (ha : a.Equivalent a') (hb : b.Equivalent b') :
    (Doc.vert a b).Equivalent (Doc.vert a' b') :=
  of_laidAlike rfl (ha.laidAlike.vert hb.laidAlike)

theorem choice (ha : a.Equivalent a') (hb : b.Equivalent b') :
    (Doc.choice a b).Equivalent (Doc.choice a' b') := by
  refine of_laidAlike ?_ (.choice ha.flatWidth ha.laidAlike hb.laidAlike)
  rw [flatWidth_choice, flatWidth_choice, ha.flatWidth, hb.flatWidth]

theorem fullLine (ha : a.Equivalent a') : (Doc.fullLine a).Equivalent (Doc.fullLine a') :=
  of_laidAlike rfl ha.laidAlike.fullLine

end Doc.Equivalent

/-! ## Contexts -/

/-- A document with a hole. -/
inductive Doc.Context (α : Type) where
  | hole
  | horzFirst (c : Context α) (second : Doc α)
  | horzSecond (first : Doc α) (c : Context α)
  | concatFirst (c : Context α) (second : Doc α)
  | concatSecond (first : Doc α) (c : Context α)
  | vertFirst (c : Context α) (second : Doc α)
  | vertSecond (first : Doc α) (c : Context α)
  | choiceFlat (c : Context α) (broken : Doc α)
  | choiceBroken (flat : Doc α) (c : Context α)
  | fullLine (c : Context α)

namespace Doc.Context

/-- The document with `d` in the hole. The nodes above it work their widths out from their parts. -/
def fill : Context α → Doc α → Doc α
  | hole, d => d
  | horzFirst c second, d => .horz (c.fill d) second
  | horzSecond first c, d => .horz first (c.fill d)
  | concatFirst c second, d => .concat (c.fill d) second
  | concatSecond first c, d => .concat first (c.fill d)
  | vertFirst c second, d => .vert (c.fill d) second
  | vertSecond first c, d => .vert first (c.fill d)
  | choiceFlat c broken, d => .choice (c.fill d) broken
  | choiceBroken flat c, d => .choice flat (c.fill d)
  | fullLine c, d => .fullLine (c.fill d)

/-- A context with nothing but well formed documents beside the way to the hole. -/
def WellFormed : Context α → Prop
  | hole => True
  | horzFirst c d | horzSecond d c | concatFirst c d | concatSecond d c | vertFirst c d
  | vertSecond d c | choiceFlat c d | choiceBroken d c => c.WellFormed ∧ d.WellFormed
  | fullLine c => c.WellFormed

end Doc.Context

theorem wellFormed_fill {c : Doc.Context α} (hc : c.WellFormed) {d : Doc α} (hd : d.WellFormed) :
    (c.fill d).WellFormed := by
  induction c with
  | hole => exact hd
  | horzFirst c b ih | concatFirst c b ih | choiceFlat c b ih => exact ⟨rfl, ih hc.1, hc.2⟩
  | horzSecond a c ih | concatSecond a c ih | choiceBroken a c ih => exact ⟨rfl, hc.2, ih hc.1⟩
  | vertFirst c b ih => exact ⟨ih hc.1, hc.2⟩
  | vertSecond a c ih => exact ⟨hc.2, ih hc.1⟩
  | fullLine c ih => exact ih hc

/-- What is equivalent stays so in every context. -/
theorem equivalent_fill {a b : Doc α} (h : a.Equivalent b) (c : Doc.Context α) :
    (c.fill a).Equivalent (c.fill b) := by
  induction c with
  | hole => exact h
  | horzFirst c second ih => exact ih.horz (.refl second)
  | horzSecond first c ih => exact .horz (.refl first) ih
  | concatFirst c second ih => exact ih.concat (.refl second)
  | concatSecond first c ih => exact .concat (.refl first) ih
  | vertFirst c second ih => exact ih.vert (.refl second)
  | vertSecond first c ih => exact .vert (.refl first) ih
  | choiceFlat c broken ih => exact ih.choice (.refl broken)
  | choiceBroken flat c ih => exact .choice (.refl flat) ih
  | fullLine c ih => exact ih.fullLine

/-- Equivalent documents have the same lines on every page. -/
theorem Doc.Equivalent.lines {κ : Type} {a b : Doc (Value κ)} (h : a.Equivalent b)
    (width : Value κ) : a.lines width = b.lines width :=
  h.laidAlike.lines width

end DocLayout
