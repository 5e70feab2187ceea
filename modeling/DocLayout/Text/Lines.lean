/-
  Lines of text.

  Ten characters end a line; a carriage return followed by a line feed ends one line, not two.
  `splitLines` cuts a text at all of them and drops a last empty piece, `splitNewlines` cuts at
  line feeds alone and drops nothing. `oneLine` is the test that a text may stand in a single
  line; `oneLine_iff` says that it is the absence of every one of the ten.
-/

namespace DocLayout.Text

/-- The characters that end a line. -/
def boundaries : List Char :=
  ['\n', '\r', '\x0b', '\x0c', '\x1c', '\x1d', '\x1e', '\x85', '\u2028', '\u2029']

/-- Whether a character ends a line. -/
def isBoundary (c : Char) : Bool := boundaries.contains c

/-- The lines of a text, each without the boundary that ends it. A text that ends with a
boundary has no empty line after it, and the empty text has no line. -/
def splitLines : List Char → List (List Char)
  | [] => []
  | '\r' :: '\n' :: rest => [] :: splitLines rest
  | c :: rest =>
    if isBoundary c then [] :: splitLines rest
    else match splitLines rest with
      | [] => [[c]]
      | line :: lines => (c :: line) :: lines

/-- The pieces of a text between its line feeds: one more than it has line feeds. -/
def splitNewlines : List Char → List (List Char)
  | [] => [[]]
  | c :: rest =>
    if c = '\n' then [] :: splitNewlines rest
    else match splitNewlines rest with
      | [] => [[c]]
      | piece :: pieces => (c :: piece) :: pieces

/-- Whether a text is empty or is itself its only line. -/
def oneLine (s : String) : Bool := s.isEmpty || splitLines s.toList == [s.toList]

/-- A text without any boundary. -/
def Unbroken (s : String) : Prop := ∀ c ∈ s.toList, isBoundary c = false

instance (s : String) : Decidable (Unbroken s) := List.decidableBAll _ s.toList

theorem splitLines_cons {c : Char} (hc : isBoundary c = false) (rest : List Char) :
    splitLines (c :: rest) = match splitLines rest with
      | [] => [[c]]
      | line :: lines => (c :: line) :: lines := by
  conv => lhs; unfold splitLines
  split
  · contradiction
  · rename_i heq
    simp only [List.cons.injEq] at heq
    rw [heq.1] at hc
    exact absurd hc (by decide)
  · rename_i heq
    simp only [List.cons.injEq] at heq
    obtain ⟨rfl, rfl⟩ := heq
    simp [hc]

theorem splitLines_boundary {c : Char} (hc : isBoundary c = true) (rest : List Char) :
    ∃ lines, splitLines (c :: rest) = [] :: lines := by
  conv => rhs; intro lines; lhs; unfold splitLines
  split
  · contradiction
  · exact ⟨_, rfl⟩
  · rename_i heq
    simp only [List.cons.injEq] at heq
    obtain ⟨rfl, rfl⟩ := heq
    simp [hc]

/-- A text without boundaries is a line of its own. -/
theorem splitLines_of_unbroken (cs : List Char) (hne : cs ≠ [])
    (h : ∀ x ∈ cs, isBoundary x = false) : splitLines cs = [cs] := by
  induction cs with
  | nil => contradiction
  | cons c cs ih =>
    rw [splitLines_cons (h c (by simp))]
    cases cs with
    | nil => simp [splitLines]
    | cons d ds => rw [ih (by simp) (fun x hx => h x (List.mem_cons_of_mem _ hx))]

/-- Only a text without boundaries is a line of its own. -/
theorem unbroken_of_splitLines (cs : List Char) (h : splitLines cs = [cs]) :
    ∀ x ∈ cs, isBoundary x = false := by
  induction cs with
  | nil => simp
  | cons c cs ih =>
    cases hc : isBoundary c with
    | true =>
      obtain ⟨lines, hl⟩ := splitLines_boundary hc cs
      simp [hl] at h
    | false =>
      rw [splitLines_cons hc] at h
      intro x hx
      cases hs : splitLines cs with
      | nil =>
        rw [hs] at h
        simp only [List.cons.injEq, true_and, and_true] at h
        simp only [← h, List.mem_singleton] at hx
        exact hx ▸ hc
      | cons line lines =>
        rw [hs] at h
        simp only [List.cons.injEq, true_and] at h
        rcases List.mem_cons.mp hx with rfl | hx
        · exact hc
        · exact ih (by rw [hs, h.1, h.2]) x hx

/-- A text may stand in one line exactly if it holds none of the ten characters. -/
theorem oneLine_iff (s : String) : oneLine s = true ↔ Unbroken s := by
  by_cases hs : s = ""
  · subst hs; simp [oneLine, Unbroken]
  · have hne : s.toList ≠ [] := by simpa using hs
    have hem : s.isEmpty = false := by simpa using hs
    simp only [oneLine, hem, Bool.false_or, beq_iff_eq, Unbroken]
    exact ⟨unbroken_of_splitLines _, splitLines_of_unbroken _ hne⟩

theorem splitNewlines_ne_nil (cs : List Char) : splitNewlines cs ≠ [] := by
  cases cs with
  | nil => simp [splitNewlines]
  | cons c cs =>
    unfold splitNewlines
    split
    · simp
    · split <;> simp

end DocLayout.Text
