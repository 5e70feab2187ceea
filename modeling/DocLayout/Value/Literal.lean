import DocLayout.Value.Basic
import DocLayout.Number.Shortest
import DocLayout.Text.Quoted

/-
  The literal form of a value: how it is shown in a message.

  A document is shown as the nesting of its nodes, each by the name of its kind with its parts in
  parentheses; a text is quoted.

  Not every value can be shown. A whole number of too many digits is not written, and parts within
  parts are gone into for so many levels only. `Value.literal` is the text all the same, and
  `Value.fault?` says what keeps it from being made, if anything does. Values are shown part by part, so
  the fault is the one of the first part that has one.
-/

namespace DocLayout

variable {κ : Type}

/-- The items of a tuple between parentheses; a single item keeps its comma. -/
def tupleLiteral : List String → String
  | [item] => "(" ++ item ++ ",)"
  | items => "(" ++ ", ".intercalate items ++ ")"

mutual

/-- The literal form of a value, whether it can be shown or not: what tells of a value goes by
`Value.fault?` first. -/
def Value.literal : Value κ → String
  | .null => "None"
  | .bool b => if b then "True" else "False"
  | .int n => toString n
  | .float x => x.text
  | .str s => Text.quote s
  | .bytes bytes => Text.quoteBytes bytes
  | .list items => "[" ++ ", ".intercalate (literals items) ++ "]"
  | .tuple items => tupleLiteral (literals items)
  | .dict entries => "\x7b" ++ ", ".intercalate (entryLiterals entries) ++ "\x7d"
  | .doc d => docLiteral d
  | .object _ shown _ _ => shown
  | .stream .iterator _ => "<list_iterator>"
  | .stream .generator _ => "<generator>"
  | .displayOf d => "<bound method Doc.display of " ++ docLiteral d ++ ">"
  | .type home name =>
    "<class '" ++ (if home = "builtins" then name else home ++ "." ++ name) ++ "'>"

/-- The literal forms of the items of a sequence. -/
def literals : List (Value κ) → List String
  | [] => []
  | x :: xs => x.literal :: literals xs

/-- The literal forms of keys with their values. -/
def entryLiterals : List (Value κ × Value κ) → List String
  | [] => []
  | (key, value) :: rest => (key.literal ++ ": " ++ value.literal) :: entryLiterals rest

/-- The literal form of a document. -/
def docLiteral : Doc (Value κ) → String
  | .text s => "Text(" ++ Text.quote s ++ ")"
  | .horzNode _ a b => "Horz(" ++ docLiteral a ++ ", " ++ docLiteral b ++ ")"
  | .concatNode _ a b => "Concat(" ++ docLiteral a ++ ", " ++ docLiteral b ++ ")"
  | .vert a b => "Vert(" ++ docLiteral a ++ ", " ++ docLiteral b ++ ")"
  | .choiceNode _ flat broken =>
    "IfFlat(when_flat=" ++ docLiteral flat ++ ", when_broken=" ++ docLiteral broken ++ ")"
  | .fullLine a => "FullLine(" ++ docLiteral a ++ ")"
  | .foreign x _ => x.literal

end

/-! ## Values that cannot be shown -/

/-- What keeps a value from being shown. -/
inductive ShowFault where
  /-- A whole number of too many digits. -/
  | digits
  /-- Parts within parts, too many levels down. -/
  | depth
  deriving Repr, DecidableEq

namespace ShowFault

/-- A whole number is written with so many digits at most. -/
def digitLimit : Nat := 4300

/-- Parts within parts are gone into for so many levels at most: there are a thousand in all, and four
are taken before a value is shown, where nothing but the filling of a template is under way. -/
def levelLimit : Nat := 996

def message : ShowFault → String
  | digits =>
    s!"Exceeds the limit ({digitLimit} digits) for integer string conversion; " ++
      "use sys.set_int_max_str_digits() to increase the limit"
  | depth => "maximum recursion depth exceeded while getting the repr of an object"

end ShowFault

/-- Whether a whole number has more decimal digits than are written. The sign is no digit. -/
def TooLong (n : Int) : Prop := ShowFault.digitLimit < (Nat.toDigits 10 n.natAbs).length

instance : DecidablePred TooLong := fun _ => Nat.decLt _ _

/-- A step in showing a value: the level that it is on, and the whole number that it writes, if it
writes one. -/
structure ShowStep where
  level : Nat
  number : Option Int

namespace ShowStep

/-- What keeps a step from being taken. -/
def fault? (step : ShowStep) : Option ShowFault :=
  if ShowFault.levelLimit < step.level then some .depth
  else if step.number.any (TooLong ·) then some .digits
  else none

/-- Whether a step has a fault where `n` levels are gone into: it writes a whole number of too many
digits, or is further down. -/
def HasFault (n : Nat) (step : ShowStep) : ShowFault → Prop
  | .digits => ∃ k, step.number = some k ∧ TooLong k
  | .depth => n < step.level

/-- What keeps a step from being taken is a fault that it has, also where fewer levels are left. -/
theorem hasFault_of_fault? {step : ShowStep} {fault : ShowFault} (h : step.fault? = some fault)
    {n : Nat} (hn : n ≤ ShowFault.levelLimit) : step.HasFault n fault := by
  unfold fault? at h
  split at h
  · rename_i hdeep
    injection h with h
    exact h ▸ Nat.lt_of_le_of_lt hn hdeep
  split at h
  · rename_i hlong
    injection h with h
    obtain ⟨k, hk, hlong⟩ := (Option.any_eq_true _ _).mp hlong
    exact h ▸ ⟨k, hk, of_decide_eq_true hlong⟩
  · contradiction

/-- A step with a fault is not taken. -/
theorem isSome_fault? {step : ShowStep} {fault : ShowFault}
    (h : step.HasFault ShowFault.levelLimit fault) : step.fault?.isSome := by
  unfold fault?
  split
  · rfl
  · rename_i hlevel
    cases fault with
    | depth => exact absurd h hlevel
    | digits =>
      obtain ⟨k, hk, hlong⟩ := h
      have hany : step.number.any (TooLong ·) = true := by
        rw [hk]
        exact decide_eq_true hlong
      rw [if_pos hany]
      rfl

end ShowStep

mutual

/-- The steps of showing a value that lies on a level, in their order. -/
def Value.showSteps (level : Nat) : Value κ → List ShowStep
  | .int n => [⟨level, some n⟩]
  | .list items | .tuple items => ⟨level, none⟩ :: itemSteps (level + 1) items
  | .dict entries => ⟨level, none⟩ :: entrySteps (level + 1) entries
  | .doc d => docSteps level d
  | .displayOf d => ⟨level, none⟩ :: docSteps (level + 1) d
  | _ => [⟨level, none⟩]

/-- The steps of showing the items of a sequence. -/
def itemSteps (level : Nat) : List (Value κ) → List ShowStep
  | [] => []
  | x :: xs => x.showSteps level ++ itemSteps level xs

/-- The steps of showing keys with their values. -/
def entrySteps (level : Nat) : List (Value κ × Value κ) → List ShowStep
  | [] => []
  | (key, value) :: rest => key.showSteps level ++ (value.showSteps level ++ entrySteps level rest)

/-- The steps of showing a document. A node takes three levels: one for itself, one for the code that
shows it, and one for the call that shows a part of it. -/
def docSteps (level : Nat) : Doc (Value κ) → List ShowStep
  | .text _ => [⟨level, none⟩, ⟨level + 3, none⟩]
  | .horzNode _ a b | .concatNode _ a b | .vert a b | .choiceNode _ a b =>
    ⟨level, none⟩ :: (docSteps (level + 3) a ++ docSteps (level + 3) b)
  | .fullLine a => ⟨level, none⟩ :: docSteps (level + 3) a
  | .foreign x _ => x.showSteps level

end

namespace Value

/-- All steps of showing a value. -/
def steps (v : Value κ) : List ShowStep := v.showSteps 1

/-- What keeps a value from being shown. -/
def fault? (v : Value κ) : Option ShowFault := v.steps.findSome? ShowStep.fault?

/-- Whether a step of showing a value has a fault where `n` levels are gone into. -/
def HasFault (n : Nat) (v : Value κ) (fault : ShowFault) : Prop :=
  ∃ step ∈ v.steps, step.HasFault n fault

/-- What keeps a value from being shown is a fault that it has, also where fewer levels are left. -/
theorem hasFault_of_fault? {v : Value κ} {fault : ShowFault} (h : v.fault? = some fault) {n : Nat}
    (hn : n ≤ ShowFault.levelLimit) : v.HasFault n fault := by
  obtain ⟨step, hstep, h⟩ := List.exists_of_findSome?_eq_some h
  exact ⟨step, hstep, ShowStep.hasFault_of_fault? h hn⟩

/-- A value with a fault is not shown. -/
theorem exists_fault? {v : Value κ} {fault : ShowFault}
    (h : v.HasFault ShowFault.levelLimit fault) : ∃ found, v.fault? = some found := by
  obtain ⟨step, hstep, h⟩ := h
  have hsome : v.fault?.isSome :=
    List.findSome?_isSome_iff.mpr ⟨step, hstep, ShowStep.isSome_fault? h⟩
  exact Option.isSome_iff_exists.mp hsome

end Value

end DocLayout
