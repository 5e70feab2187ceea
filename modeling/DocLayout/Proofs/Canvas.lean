import DocLayout.Layout

/-
  Canvases put behind each other, and moved to the right.

  `c.append d` continues the last line of `c` with the first line of `d` and puts the other lines
  of `d` below. Writing and breaking the line act on the part that was put behind last
  (`append_write`, `append_breakLine`), so what stands on a canvas is never read or changed again.

  `c.cursor start` is the column at the end of `c` if its first line begins at column `start`; a
  canvas with a line break in it forgets the start. `cursor_append` says that cursors follow each
  other as their canvases do.

  `c.shift k` puts `k` spaces before every line but the first. Two canvases behind each other are
  shifted one by one (`shift_append`), since the first line of the second continues a line.
-/

namespace DocLayout.Canvas

/-! ## Spaces -/

theorem toList_pushn (s : String) (c : Char) (n : Nat) :
    (s.pushn c n).toList = s.toList ++ List.replicate n c := by
  rw [String.pushn_eq_repeat_push]
  induction n with
  | zero => simp [Nat.repeat]
  | succ n ih =>
    rw [Nat.repeat, String.toList_push, ih, List.append_assoc, ← List.replicate_succ']

theorem toList_spaces (n : Int) : (spaces n).toList = List.replicate n.toNat ' ' := by
  rw [spaces, toList_pushn]
  rfl

theorem length_spaces {n : Int} (h : 0 ≤ n) : ((spaces n).length : Int) = n := by
  rw [← String.length_toList, toList_spaces, List.length_replicate]
  exact Int.toNat_of_nonneg h

theorem spaces_zero : spaces 0 = "" := rfl

theorem spaces_add {m n : Int} (hm : 0 ≤ m) (hn : 0 ≤ n) :
    spaces (m + n) = spaces m ++ spaces n := by
  apply String.toList_inj.mp
  rw [String.toList_append, toList_spaces, toList_spaces, toList_spaces, Int.toNat_add hm hn,
    List.replicate_append_replicate]

/-! ## One canvas behind another -/

/-- The canvas whose last line goes on with the first line of `d`, with the other lines of `d`
below. -/
def append (c d : Canvas) : Canvas :=
  match d.finished.toList with
  | [] => c.write d.current
  | line :: rest => ⟨c.finished ++ ((c.current ++ line) :: rest).toArray, d.current⟩

theorem append_of_nil {c d : Canvas} (h : d.finished.toList = []) :
    c.append d = c.write d.current := by
  rw [append, h]

theorem append_of_cons {c d : Canvas} {s : String} {l : List String}
    (h : d.finished.toList = s :: l) :
    c.append d = ⟨c.finished ++ ((c.current ++ s) :: l).toArray, d.current⟩ := by
  rw [append, h]

theorem append_empty (c : Canvas) : c.append empty = c := by
  rw [append_of_nil (d := empty) rfl, write, empty, String.append_empty]

/-- What is written goes to the part that was put behind. -/
theorem append_write (c d : Canvas) (s : String) :
    c.append (d.write s) = (c.append d).write s := by
  cases hd : d.finished.toList with
  | nil =>
    rw [append_of_nil hd, append_of_nil (d := d.write s) hd]
    simp only [write, String.append_assoc]
  | cons line rest =>
    rw [append_of_cons hd, append_of_cons (d := d.write s) hd]
    rfl

theorem append_write_empty (c : Canvas) (s : String) : c.append (empty.write s) = c.write s := by
  rw [append_write, append_empty]

/-- A line break goes to the part that was put behind. -/
theorem append_breakLine (c d : Canvas) (indent : Int) :
    c.append (d.breakLine indent) = (c.append d).breakLine indent := by
  cases hd : d.finished.toList with
  | nil =>
    rw [append_of_nil hd, append_of_cons (s := d.current) (l := []) (by simp [breakLine, hd])]
    simp [breakLine, write]
  | cons line rest =>
    rw [append_of_cons hd,
      append_of_cons (s := line) (l := rest ++ [d.current]) (by simp [breakLine, hd])]
    simp [breakLine]

theorem append_assoc (c d e : Canvas) : (c.append d).append e = c.append (d.append e) := by
  cases he : e.finished.toList with
  | nil => rw [append_of_nil he, append_of_nil he, append_write]
  | cons line rest =>
    rw [append_of_cons he, append_of_cons he]
    cases hd : d.finished.toList with
    | nil =>
      rw [append_of_nil hd, append_of_cons (s := d.current ++ line) (l := rest)]
      · simp [write, String.append_assoc]
      · simp [hd]
    | cons first between =>
      rw [append_of_cons hd,
        append_of_cons (s := first) (l := between ++ (d.current ++ line) :: rest)]
      · simp
      · simp [hd]

/-! ## Lines -/

theorem exists_lines_eq_cons (c : Canvas) : ∃ first rest, c.lines = first :: rest :=
  List.exists_cons_of_ne_nil c.lines_ne_nil

theorem lines_append {c d : Canvas} {first : String} {rest : List String}
    (h : d.lines = first :: rest) :
    (c.append d).lines = c.finished.toList ++ (c.current ++ first) :: rest := by
  rw [lines] at h
  cases hd : d.finished.toList with
  | nil =>
    rw [hd, List.nil_append] at h
    injection h with hfirst hrest
    rw [append_of_nil hd, lines_write, hfirst, hrest]
  | cons line between =>
    rw [hd, List.cons_append] at h
    injection h with hfirst hrest
    rw [append_of_cons hd, lines, ← hfirst, ← hrest]
    simp

/-- The lines behind a line break are added to those before it. -/
theorem lines_breakLine_append (c d : Canvas) :
    ((c.breakLine 0).append d).lines = c.lines ++ d.lines := by
  obtain ⟨first, rest, h⟩ := d.exists_lines_eq_cons
  rw [lines_append h, h]
  simp [breakLine, lines, spaces_zero]

theorem size_finished_append (c d : Canvas) :
    (c.append d).finished.size = c.finished.size + d.finished.size := by
  have hsize : d.finished.toList.length = d.finished.size := Array.length_toList
  rw [← hsize]
  cases hd : d.finished.toList with
  | nil => rw [append_of_nil hd]; rfl
  | cons line rest => rw [append_of_cons hd]; simp

/-- Behind a canvas without a line break the finished lines stay as they are. -/
theorem finished_append_of_size_eq_zero (c : Canvas) {d : Canvas} (h : d.finished.size = 0) :
    (c.append d).finished = c.finished := by
  rw [append_of_nil (by simpa using h)]
  rfl

/-! ## The cursor -/

/-- The column at the end of a canvas whose first line begins at column `start`. -/
def cursor (c : Canvas) (start : Int) : Int :=
  if c.finished.size = 0 then start + c.current.length else c.current.length

theorem cursor_write_empty (s : String) (start : Int) :
    (empty.write s).cursor start = start + s.length := by
  simp [cursor, write, empty]

theorem cursor_breakLine (c : Canvas) {indent : Int} (h : 0 ≤ indent) (start : Int) :
    (c.breakLine indent).cursor start = indent := by
  rw [cursor, if_neg (by simp [breakLine])]
  exact length_spaces h

/-- The second canvas begins where the first one ends. -/
theorem cursor_append (c d : Canvas) (start : Int) :
    (c.append d).cursor start = d.cursor (c.cursor start) := by
  have hsize := size_finished_append c d
  by_cases hd : d.finished.size = 0
  · have hcurrent : (c.append d).current = c.current ++ d.current := by
      rw [append_of_nil (by simpa using hd)]
      rfl
    by_cases hc : c.finished.size = 0
    · rw [cursor, cursor, cursor, if_pos (by omega), if_pos hd, if_pos hc, hcurrent,
        String.length_append]
      omega
    · rw [cursor, cursor, cursor, if_neg (by omega), if_pos hd, if_neg hc, hcurrent,
        String.length_append]
      omega
  · obtain ⟨line, rest, hcons⟩ := List.exists_cons_of_ne_nil
      (show d.finished.toList ≠ [] by simpa using hd)
    rw [cursor, cursor, if_neg (by omega), if_neg hd, append_of_cons hcons]

/-! ## A canvas moved to the right -/

/-- The canvas with `k` spaces before every line but the first. -/
def shift (k : Int) (c : Canvas) : Canvas :=
  match c.finished.toList with
  | [] => c
  | line :: rest => ⟨(line :: rest.map (spaces k ++ ·)).toArray, spaces k ++ c.current⟩

theorem shift_of_nil {c : Canvas} (h : c.finished.toList = []) (k : Int) : c.shift k = c := by
  rw [shift, h]

theorem shift_of_cons {c : Canvas} {s : String} {l : List String}
    (h : c.finished.toList = s :: l) (k : Int) :
    c.shift k = ⟨(s :: l.map (spaces k ++ ·)).toArray, spaces k ++ c.current⟩ := by
  rw [shift, h]

theorem lines_shift {c : Canvas} {first : String} {rest : List String}
    (h : c.lines = first :: rest) (k : Int) :
    (c.shift k).lines = first :: rest.map (spaces k ++ ·) := by
  rw [lines] at h
  cases hc : c.finished.toList with
  | nil =>
    rw [hc, List.nil_append] at h
    injection h with hfirst hrest
    rw [shift_of_nil hc, lines, hc, hfirst, ← hrest]
    rfl
  | cons line between =>
    rw [hc, List.cons_append] at h
    injection h with hfirst hrest
    rw [shift_of_cons hc, lines, hfirst, ← hrest]
    simp

theorem shift_append (c d : Canvas) (k : Int) :
    (c.append d).shift k = (c.shift k).append (d.shift k) := by
  cases hd : d.finished.toList with
  | nil =>
    rw [append_of_nil hd, shift_of_nil hd, append_of_nil hd]
    cases hc : c.finished.toList with
    | nil => rw [shift_of_nil hc, shift_of_nil (c := c.write d.current) hc]
    | cons line rest =>
      rw [shift_of_cons hc, shift_of_cons (c := c.write d.current) hc]
      simp only [write, String.append_assoc]
  | cons line rest =>
    rw [append_of_cons hd, shift_of_cons hd, append_of_cons (s := line) rfl]
    cases hc : c.finished.toList with
    | nil =>
      have hempty : c.finished = #[] := by simpa using hc
      rw [shift_of_nil hc, shift_of_cons (s := c.current ++ line) (l := rest) (by simp [hc]),
        hempty]
      simp
    | cons first between =>
      rw [shift_of_cons hc, shift_of_cons (s := first)
        (l := between ++ (c.current ++ line) :: rest) (by simp [hc])]
      simp [String.append_assoc]

theorem shift_breakLine (c : Canvas) {k indent : Int} (hk : 0 ≤ k) (hi : 0 ≤ indent) :
    (c.breakLine indent).shift k = (c.shift k).breakLine (k + indent) := by
  cases hc : c.finished.toList with
  | nil =>
    have hempty : c.finished = #[] := by simpa using hc
    rw [shift_of_nil hc, shift_of_cons (s := c.current) (l := []) (by simp [breakLine, hc]),
      breakLine, breakLine, hempty, spaces_add hk hi]
    rfl
  | cons line rest =>
    rw [shift_of_cons hc, shift_of_cons (s := line) (l := rest ++ [c.current])
      (by simp [breakLine, hc])]
    simp [breakLine, spaces_add hk hi]

end DocLayout.Canvas
