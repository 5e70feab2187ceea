import DocLayout.Proofs.Canvas
import DocLayout.Proofs.Descent

/-
  What the lines of a layout are made of.

  The lines of a canvas come of spaces and of the texts of a document, written one behind the other. So
  a property of texts that spaces have, and that two texts in a row have if each of them has it, passes
  from the texts of a document to the lines that it is laid out as. That a text holds none of a set of
  characters is such a property, as long as the space is not among them.

  Proved:
  * `layOut_allLines`: what every text of a document has, every line of its layout has, whatever the
    margin, and wherever the layout stops.
-/

namespace DocLayout

variable {α : Type} {p : String → Prop}

/-- The texts in a document, from left to right. -/
def Doc.texts : Doc α → List String
  | text s => [s]
  | horzNode _ a b | concatNode _ a b | vert a b | choiceNode _ a b => a.texts ++ b.texts
  | fullLine a => a.texts
  | foreign _ _ => []

/-- A property of texts that spaces have, and two texts in a row if each of them has it. -/
structure Writable (p : String → Prop) : Prop where
  spaces : ∀ n, p (Canvas.spaces n)
  append : ∀ {s t}, p s → p t → p (s ++ t)

/-- Texts that hold no character of some kind. -/
theorem writable_of_chars {q : Char → Prop} (hspace : q ' ') :
    Writable fun s => ∀ c ∈ s.toList, q c where
  spaces n := by
    intro c hc
    rw [Canvas.toList_spaces] at hc
    exact List.eq_of_mem_replicate hc ▸ hspace
  append hs ht := by
    intro c hc
    rw [String.toList_append, List.mem_append] at hc
    exact hc.elim (hs c) (ht c)

/-- A canvas all of whose lines have a property. -/
def Canvas.AllLines (p : String → Prop) (c : Canvas) : Prop := ∀ line ∈ c.lines, p line

variable {canvas : Canvas}

theorem allLines_empty (hp : Writable p) : Canvas.empty.AllLines p := by
  rw [Canvas.AllLines, Canvas.lines_empty, List.forall_mem_singleton]
  exact hp.spaces 0

/-- Writing changes the last line and no other one. -/
theorem allLines_write_of_current (hc : canvas.AllLines p) {s : String} (hs : p (canvas.current ++ s)) :
    (canvas.write s).AllLines p := by
  rw [Canvas.AllLines, Canvas.lines_write, List.forall_mem_append, List.forall_mem_singleton]
  exact ⟨(List.forall_mem_append.mp hc).1, hs⟩

theorem Canvas.AllLines.current (hc : canvas.AllLines p) : p canvas.current :=
  List.forall_mem_singleton.mp (List.forall_mem_append.mp hc).2

theorem allLines_write (hp : Writable p) (hc : canvas.AllLines p) {s : String} (hs : p s) :
    (canvas.write s).AllLines p := allLines_write_of_current hc (hp.append hc.current hs)

theorem allLines_breakLine (hc : canvas.AllLines p) {indent : Int} (h : p (Canvas.spaces indent)) :
    (canvas.breakLine indent).AllLines p := by
  rw [Canvas.AllLines, Canvas.lines_breakLine, List.forall_mem_append, List.forall_mem_singleton]
  exact ⟨hc, h⟩

theorem allLines_andThen {o : Outcome α} (ho : o.1.AllLines p) {next : Canvas → Int → Outcome α}
    (hnext : ∀ canvas column, canvas.AllLines p → (next canvas column).1.AllLines p) :
    (o.andThen next).1.AllLines p := by
  obtain ⟨canvas, obstacle | column⟩ := o
  · exact ho
  · exact hnext canvas column ho

/-- What the texts of a document and the lines of a canvas have, the lines have after the layout. -/
theorem layOut_allLines (hp : Writable p) {margin : Margin α} {d : Doc α} (hd : ∀ s ∈ d.texts, p s)
    (hc : canvas.AllLines p) (indent column : Int) :
    (d.layOut canvas indent column margin).1.AllLines p := by
  rw [layOut_descend]
  induction d generalizing canvas indent column with
  | text s => exact allLines_write hp hc (List.forall_mem_singleton.mp hd)
  | horzNode v a b iha ihb =>
    rw [Doc.texts, List.forall_mem_append] at hd
    exact allLines_andThen (iha hd.1 hc indent column) fun _ column h => ihb hd.2 h column column
  | concatNode v a b iha ihb =>
    rw [Doc.texts, List.forall_mem_append] at hd
    exact allLines_andThen (iha hd.1 hc indent column) fun _ column h => ihb hd.2 h indent column
  | vert a b iha ihb =>
    rw [Doc.texts, List.forall_mem_append] at hd
    exact allLines_andThen (iha hd.1 hc indent column) fun _ _ h =>
      ihb hd.2 (allLines_breakLine h (hp.spaces indent)) indent indent
  | choiceNode v flat broken ihf ihb =>
    rw [Doc.texts, List.forall_mem_append] at hd
    rw [Doc.descend]
    split
    · exact ihf hd.1 hc indent column
    · exact ihb hd.2 hc indent column
    · exact hc
  | fullLine a ih => exact ih hd hc indent column
  | foreign x v => exact hc

end DocLayout
