import DocLayout.Template.Numbering

/-
  Fields resolved in order.

  A name asks for a numbering by its first part: an empty one asks for the next argument, one of digits
  for the argument that it names, and any other asks for none. `Turn` records what happens to one
  field: the numbering that it met, its answer, and the numbering that it left. `resolve_cases` says
  once what a turn can be, and the invariants of a run are read off it.

  The numbering goes by digits of any kind, the lookup by decimal digits alone. The two agree on every
  first part but one that is made of digits and has one among them that is not decimal (`Misread`).

  Proved:
  * `mode_after`: the mode in use is the one that the first field asked for that asked for any.
  * `nextIndex_after`, `answer_unnumbered`: unnumbered fields are counted, and each is looked up by its
    place among them.
  * `turns_lawful`: what holds of every run, whatever the arguments and whichever fields fail.
  * `refused_iff_mixed`: which fields are refused.
-/

namespace DocLayout.Template

variable {κ : Type}

/-! ## What a name asks for -/

/-- A name whose first part is empty. -/
def Automatic (name : String) : Prop := firstPart name.toList = []

/-- A name whose first part is made of digits of any kind. -/
def Digits (name : String) : Prop := Text.allDigits (firstPart name.toList) = true

/-- A name whose first part is made of decimal digits. -/
def Positional (name : String) : Prop :=
  firstPart name.toList ≠ [] ∧ ∀ c ∈ firstPart name.toList, (Text.decimalValue? c).isSome

/-- A name whose first part is made of digits that are not all decimal. -/
def Misread (name : String) : Prop := Digits name ∧ ¬ Positional name

instance (name : String) : Decidable (Automatic name) :=
  inferInstanceAs (Decidable (firstPart name.toList = []))

instance (name : String) : Decidable (Digits name) :=
  inferInstanceAs (Decidable (Text.allDigits (firstPart name.toList) = true))

instance (name : String) : Decidable (Positional name) :=
  have := List.decidableBAll (fun c => (Text.decimalValue? c).isSome) (firstPart name.toList)
  instDecidableAnd

instance (name : String) : Decidable (Misread name) :=
  inferInstanceAs (Decidable (Digits name ∧ ¬ Positional name))

theorem digits_of_positional {name : String} (h : Positional name) : Digits name := by
  obtain ⟨hne, hdecimal⟩ := h
  rw [Digits, Text.allDigits, Bool.and_eq_true, Bool.not_eq_true', List.isEmpty_eq_false_iff,
    List.all_eq_true]
  refine ⟨hne, fun c hc => ?_⟩
  obtain ⟨n, hn⟩ := Option.isSome_iff_exists.mp (hdecimal c hc)
  exact Text.isDigit_of_decimalValue? hn

theorem not_automatic_of_digits {name : String} (h : Digits name) : ¬ Automatic name := by
  intro hauto
  rw [Digits, hauto] at h
  contradiction

/-- What is read as a number is made of decimal digits. -/
theorem isSome_readPosition {cs : List Char} {value : Nat} {r : Option Nat}
    (h : readPosition value cs = .ok r) :
    r.isSome ↔ ∀ c ∈ cs, (Text.decimalValue? c).isSome := by
  induction cs generalizing value with
  | nil =>
    cases h
    exact ⟨fun _ => List.forall_mem_nil _, fun _ => rfl⟩
  | cons c cs ih =>
    rw [readPosition] at h
    rw [List.forall_mem_cons]
    cases hc : Text.decimalValue? c with
    | none =>
      rw [hc] at h
      cases h
      exact ⟨nofun, fun h => nomatch h.1⟩
    | some digit =>
      rw [hc] at h
      dsimp only at h
      split at h
      · contradiction
      · rw [ih h]
        exact ⟨fun h => ⟨rfl, h⟩, And.right⟩

/-- The first part of a name is looked up as a position if it is made of decimal digits. -/
theorem positional_iff_position {name : String} {key : Value.Key}
    (h : keyOf (firstPart name.toList) = .ok key) : Positional name ↔ ∃ n, key = .position n := by
  rw [Positional]
  rw [keyOf] at h
  split at h
  · rename_i hempty
    cases h
    exact ⟨fun hname => absurd (List.isEmpty_iff.mp hempty) hname.1, nofun⟩
  · rename_i hne
    rw [List.isEmpty_iff] at hne
    cases hr : readPosition 0 (firstPart name.toList) with
    | error e =>
      rw [hr] at h
      contradiction
    | ok r =>
      rw [hr] at h
      rw [← isSome_readPosition hr]
      cases r with
      | none =>
        cases h
        exact ⟨nofun, nofun⟩
      | some n =>
        cases h
        exact ⟨fun _ => ⟨n, rfl⟩, fun _ => ⟨hne, rfl⟩⟩

/-- The numbering that a name asks for, where `Manual` says which names ask for the manual one. -/
def asked (Manual : String → Prop) [DecidablePred Manual] (name : String) : Option Mode :=
  if Automatic name then some .automatic else if Manual name then some .manual else none

theorem modeOf_eq_asked (name : String) : modeOf name.toList = asked Digits name := by
  rw [modeOf, asked]
  split
  · rename_i h
    exact (if_pos (List.isEmpty_iff.mp h)).symm
  · rename_i h
    exact (if_neg (mt List.isEmpty_iff.mpr h)).symm

theorem asked_eq_automatic {name : String} :
    asked Digits name = some .automatic ↔ Automatic name := by
  rw [asked]
  split
  · rename_i h
    exact ⟨fun _ => h, fun _ => rfl⟩
  · rename_i h
    split
    · exact ⟨nofun, fun h' => absurd h' h⟩
    · exact ⟨nofun, fun h' => absurd h' h⟩

theorem asked_eq_manual {name : String} : asked Digits name = some .manual ↔ Digits name := by
  rw [asked]
  split
  · rename_i h
    exact ⟨nofun, fun hdigits => absurd h (not_automatic_of_digits hdigits)⟩
  · split
    · rename_i h
      exact ⟨fun _ => h, fun _ => rfl⟩
    · rename_i h
      exact ⟨nofun, fun h' => absurd h' h⟩

theorem asked_eq_none {name : String} :
    asked Digits name = none ↔ ¬ Automatic name ∧ ¬ Digits name := by
  rw [← asked_eq_automatic, ← asked_eq_manual]
  cases asked Digits name with
  | none => exact ⟨fun _ => ⟨nofun, nofun⟩, fun _ => rfl⟩
  | some m =>
    cases m with
    | automatic => exact ⟨nofun, fun h => absurd rfl h.1⟩
    | manual => exact ⟨nofun, fun h => absurd rfl h.2⟩

/-! ## One field -/

/-- The answer to a name with its number filled in. -/
def Arguments.answer (a : Arguments κ) (name : String) : Except FieldError (Value κ) :=
  (a.lookup name).mapError (.lookup name)

section Resolve

variable {n : Numbering} {a : Arguments κ} {name : String}

theorem resolve_named (hauto : ¬ Automatic name) (hdigits : ¬ Digits name) :
    n.resolve a name = (n, a.answer name) := by
  rw [Numbering.resolve, Numbering.number, modeOf_eq_asked, asked_eq_none.mpr ⟨hauto, hdigits⟩]
  rfl

theorem resolve_mixed {inUse wanted : Mode} (hasked : asked Digits name = some wanted)
    (hmode : n.mode = some inUse) (hne : inUse ≠ wanted) :
    n.resolve a name = (n, .error (.mixed inUse wanted)) := by
  rw [Numbering.resolve, Numbering.number, modeOf_eq_asked, hasked, hmode]
  dsimp only
  rw [Option.any_some, if_pos (decide_eq_true hne)]
  rfl

theorem resolve_automatic (hname : Automatic name) (hmode : n.mode ≠ some .manual) :
    n.resolve a name =
      (⟨some .automatic, n.nextIndex + 1⟩, a.answer (toString n.nextIndex ++ name)) := by
  rw [Numbering.resolve, Numbering.number, modeOf_eq_asked, asked_eq_automatic.mpr hname]
  obtain ⟨_ | _ | _, index⟩ := n
  · rfl
  · rfl
  · exact absurd rfl hmode

theorem resolve_digits (hname : Digits name) (hmode : n.mode ≠ some .automatic) :
    n.resolve a name = (⟨some .manual, n.nextIndex⟩, a.answer name) := by
  rw [Numbering.resolve, Numbering.number, modeOf_eq_asked, asked_eq_manual.mpr hname]
  obtain ⟨_ | _ | _, index⟩ := n
  · rfl
  · exact absurd rfl hmode
  · rfl

end Resolve

/-- A field in its turn: its name, the numbering that it met, its answer, and the numbering that it
left. -/
structure Turn (κ : Type) where
  name : String
  met : Numbering
  answer : Except FieldError (Value κ)
  left : Numbering

/-- The turn of a field. -/
def Numbering.turn (a : Arguments κ) (n : Numbering) (name : String) : Turn κ :=
  ⟨name, n, (n.resolve a name).2, (n.resolve a name).1⟩

/-- What a turn can be. -/
inductive Turn.Legal (a : Arguments κ) : Turn κ → Prop
  /-- A name that asks for no numbering is looked up as it is. -/
  | named {n : Numbering} {name : String} (hauto : ¬ Automatic name) (hdigits : ¬ Digits name) :
    Legal a ⟨name, n, a.answer name, n⟩
  /-- A name that asks for another numbering than the one in use is refused. -/
  | mixed {n : Numbering} {name : String} {inUse wanted : Mode}
    (hasked : asked Digits name = some wanted) (hmode : n.mode = some inUse) (hne : inUse ≠ wanted) :
    Legal a ⟨name, n, .error (.mixed inUse wanted), n⟩
  /-- A name without a number is looked up with the next one, found or not. -/
  | automatic {n : Numbering} {name : String} (hname : Automatic name)
    (hmode : n.mode ≠ some .manual) :
    Legal a ⟨name, n, a.answer (toString n.nextIndex ++ name), ⟨some .automatic, n.nextIndex + 1⟩⟩
  /-- A name with a number is looked up as it is, found or not. -/
  | digits {n : Numbering} {name : String} (hname : Digits name) (hmode : n.mode ≠ some .automatic) :
    Legal a ⟨name, n, a.answer name, ⟨some .manual, n.nextIndex⟩⟩

/-- There are no other turns. -/
theorem turn_legal (n : Numbering) (a : Arguments κ) (name : String) : (n.turn a name).Legal a := by
  rw [Numbering.turn]
  cases hasked : asked Digits name with
  | none =>
    obtain ⟨hauto, hdigits⟩ := asked_eq_none.mp hasked
    rw [resolve_named hauto hdigits]
    exact .named hauto hdigits
  | some wanted =>
    by_cases hclash : ∃ inUse, n.mode = some inUse ∧ inUse ≠ wanted
    · obtain ⟨inUse, hmode, hne⟩ := hclash
      rw [resolve_mixed hasked hmode hne]
      exact .mixed hasked hmode hne
    cases wanted with
    | automatic =>
      have hname := asked_eq_automatic.mp hasked
      have hmode : n.mode ≠ some .manual := fun hmode => hclash ⟨_, hmode, nofun⟩
      rw [resolve_automatic hname hmode]
      exact .automatic hname hmode
    | manual =>
      have hname := asked_eq_manual.mp hasked
      have hmode : n.mode ≠ some .automatic := fun hmode => hclash ⟨_, hmode, nofun⟩
      rw [resolve_digits hname hmode]
      exact .digits hname hmode

namespace Turn

/-- Whether a field was refused for the numbering that it asks for. -/
def refused (t : Turn κ) : Bool :=
  match t.answer with
  | .error (.mixed _ _) => true
  | _ => false

/-- Whether a field without a number was let pass. -/
def unnumbered (t : Turn κ) : Bool := decide (Automatic t.name) && !t.refused

/-- Whether a field changed the mode. -/
def switches (t : Turn κ) : Bool := decide (t.left.mode ≠ t.met.mode)

theorem refused_answer (a : Arguments κ) (name numbered : String) (met left : Numbering) :
    (⟨name, met, a.answer numbered, left⟩ : Turn κ).refused = false := by
  rw [refused, Arguments.answer]
  cases a.lookup numbered with
  | error e => rfl
  | ok v => rfl

section Legal

variable {a : Arguments κ} {t : Turn κ} (h : t.Legal a)
include h

theorem Legal.refused_iff : t.refused = true ↔
    ∃ inUse wanted, asked Digits t.name = some wanted ∧ t.met.mode = some inUse ∧ inUse ≠ wanted := by
  cases h with
  | named hauto hdigits =>
    rw [refused_answer, asked_eq_none.mpr ⟨hauto, hdigits⟩]
    simp
  | mixed hasked hmode hne => exact ⟨fun _ => ⟨_, _, hasked, hmode, hne⟩, fun _ => rfl⟩
  | automatic hname hmode =>
    rw [refused_answer, asked_eq_automatic.mpr hname]
    refine ⟨nofun, fun ⟨inUse, wanted, hasked, hinUse, hne⟩ => ?_⟩
    cases hasked
    cases inUse with
    | automatic => exact absurd rfl hne
    | manual => exact absurd hinUse hmode
  | digits hname hmode =>
    rw [refused_answer, asked_eq_manual.mpr hname]
    refine ⟨nofun, fun ⟨inUse, wanted, hasked, hinUse, hne⟩ => ?_⟩
    cases hasked
    cases inUse with
    | automatic => exact absurd hinUse hmode
    | manual => exact absurd rfl hne

theorem Legal.left_of_refused (hrefused : t.refused = true) : t.left = t.met := by
  cases h with
  | named | mixed => rfl
  | automatic | digits => exact absurd hrefused (by simp [refused_answer])

theorem Legal.of_named (hauto : ¬ Automatic t.name) (hdigits : ¬ Digits t.name) :
    t.refused = false ∧ t.left = t.met := by
  cases h with
  | named => exact ⟨refused_answer _ _ _ _ _, rfl⟩
  | mixed hasked => exact absurd (asked_eq_none.mpr ⟨hauto, hdigits⟩) (by simp [hasked])
  | automatic hname => exact absurd hname hauto
  | digits hname => exact absurd hname hdigits

theorem Legal.of_automatic (hpass : t.refused = false) (hname : Automatic t.name) :
    t.left = ⟨some .automatic, t.met.nextIndex + 1⟩ ∧
      t.answer = a.answer (toString t.met.nextIndex ++ t.name) := by
  cases h with
  | named hauto => exact absurd hname hauto
  | mixed => contradiction
  | automatic => exact ⟨rfl, rfl⟩
  | digits hdigits => exact absurd hname (not_automatic_of_digits hdigits)

theorem Legal.left_of_digits (hpass : t.refused = false) (hname : Digits t.name) :
    t.left = ⟨some .manual, t.met.nextIndex⟩ := by
  cases h with
  | named _ hdigits => exact absurd hname hdigits
  | mixed => contradiction
  | automatic hauto => exact absurd hauto (not_automatic_of_digits hname)
  | digits => rfl

/-- A turn keeps the mode in use, and settles an open one as its name asks. -/
theorem Legal.mode_left : t.left.mode = t.met.mode.or (asked Digits t.name) := by
  cases h with
  | named hauto hdigits => rw [asked_eq_none.mpr ⟨hauto, hdigits⟩, Option.or_none]
  | mixed _ hmode _ => rw [hmode, Option.some_or]
  | @automatic n name hname hmode =>
    rw [asked_eq_automatic.mpr hname]
    obtain ⟨_ | _ | _, index⟩ := n
    · rfl
    · rfl
    · exact absurd rfl hmode
  | @digits n name hname hmode =>
    rw [asked_eq_manual.mpr hname]
    obtain ⟨_ | _ | _, index⟩ := n
    · rfl
    · exact absurd rfl hmode
    · rfl

/-- Only a field without a number that passes is counted. -/
theorem Legal.nextIndex_left :
    t.left.nextIndex = t.met.nextIndex + if t.unnumbered then 1 else 0 := by
  cases h with
  | named hauto => simp [unnumbered, hauto]
  | mixed => simp [unnumbered, refused]
  | automatic hname => simp [unnumbered, hname, refused_answer]
  | digits hname => simp [unnumbered, not_automatic_of_digits hname]

/-- Only a field that asks for a numbering changes the mode, while none is in use. -/
theorem Legal.switches_eq :
    t.switches = (t.met.mode.isNone && (asked Digits t.name).isSome) := by
  rw [switches, h.mode_left]
  cases t.met.mode with
  | none =>
    cases asked Digits t.name with
    | none => rfl
    | some asked => rfl
  | some inUse => exact decide_eq_false fun hne => hne rfl

theorem Legal.settled (hne : t.left.mode ≠ t.met.mode) : t.met.mode = none ∧
    (Automatic t.name ∧ t.left.mode = some .automatic ∨
      Digits t.name ∧ t.left.mode = some .manual) := by
  cases h with
  | named | mixed => exact absurd rfl hne
  | @automatic n _ hname hmode =>
    obtain ⟨_ | _ | _, index⟩ := n
    · exact ⟨rfl, .inl ⟨hname, rfl⟩⟩
    · exact absurd rfl hne
    · exact absurd rfl hmode
  | @digits n _ hname hmode =>
    obtain ⟨_ | _ | _, index⟩ := n
    · exact ⟨rfl, .inr ⟨hname, rfl⟩⟩
    · exact absurd rfl hmode
    · exact absurd rfl hne

/-- Outside of automatic numbering nothing has been counted. -/
theorem Legal.uncounted (hmet : t.met.mode ≠ some .automatic → t.met.nextIndex = 0)
    (hleft : t.left.mode ≠ some .automatic) : t.left.nextIndex = 0 := by
  cases h with
  | named | mixed => exact hmet hleft
  | automatic => exact absurd rfl hleft
  | digits _ hmode => exact hmet hmode

end Legal

end Turn

/-! ## Fields in order -/

/-- The turns of fields in order: each field meets the numbering that the one before it left. -/
def Numbering.turns (a : Arguments κ) : Numbering → List String → List (Turn κ)
  | _, [] => []
  | n, name :: names => n.turn a name :: turns a (n.turn a name).left names

/-- The numbering after fields in order. -/
def Numbering.after (a : Arguments κ) : Numbering → List String → Numbering
  | n, [] => n
  | n, name :: names => after a (n.turn a name).left names

variable {a : Arguments κ}

/-- Every turn is that of a field, on the numbering after the fields before it. -/
theorem exists_of_mem_turns {n : Numbering} {names : List String} {t : Turn κ}
    (h : t ∈ n.turns a names) :
    ∃ before later, names = before ++ t.name :: later ∧ t = (n.after a before).turn a t.name := by
  induction names generalizing n with
  | nil => contradiction
  | cons name names ih =>
    rcases List.mem_cons.mp h with rfl | h
    · exact ⟨[], names, rfl, rfl⟩
    · obtain ⟨before, later, hnames, ht⟩ := ih h
      exact ⟨name :: before, later, congrArg (name :: ·) hnames, ht⟩

theorem legal_of_mem_turns {n : Numbering} {names : List String} {t : Turn κ}
    (h : t ∈ n.turns a names) : t.Legal a := by
  obtain ⟨before, later, -, ht⟩ := exists_of_mem_turns h
  rw [ht]
  exact turn_legal _ a t.name

/-- The mode in use is that of the first field that asks for one, if none was in use before. -/
theorem mode_after (n : Numbering) (a : Arguments κ) (names : List String) :
    (n.after a names).mode = n.mode.or (names.findSome? (asked Digits)) := by
  induction names generalizing n with
  | nil => rw [Numbering.after, List.findSome?_nil, Option.or_none]
  | cons name names ih =>
    rw [Numbering.after, ih, (turn_legal n a name).mode_left, Option.or_assoc, List.findSome?_cons]
    congr 1
    show (asked Digits name).or _ = _
    cases asked Digits name with
    | none => rfl
    | some asked => rfl

/-- The next index counts the fields without a number that pass. -/
theorem nextIndex_after (n : Numbering) (a : Arguments κ) (names : List String) :
    (n.after a names).nextIndex = n.nextIndex + (n.turns a names).countP Turn.unnumbered := by
  induction names generalizing n with
  | nil => rfl
  | cons name names ih =>
    rw [Numbering.after, ih, (turn_legal n a name).nextIndex_left, Numbering.turns, List.countP_cons,
      Nat.add_assoc, Nat.add_comm (List.countP _ _)]
    rfl

/-- A field without a number that passes is looked up by its place among them. -/
theorem answer_unnumbered {n : Numbering} {names : List String} {j : Nat} {t : Turn κ}
    (h : ((n.turns a names).filter Turn.unnumbered)[j]? = some t) :
    t.answer = a.answer (toString (n.nextIndex + j) ++ t.name) := by
  induction names generalizing n j with
  | nil => contradiction
  | cons name names ih =>
    have hlegal := turn_legal n a name
    rw [Numbering.turns] at h
    cases hcount : (n.turn a name).unnumbered with
    | false =>
      rw [List.filter_cons_of_neg (by rw [hcount]; nofun)] at h
      rw [ih h, hlegal.nextIndex_left, hcount]
      rfl
    | true =>
      rw [List.filter_cons_of_pos hcount] at h
      cases j with
      | zero =>
        cases h
        rw [Turn.unnumbered, Bool.and_eq_true, decide_eq_true_eq, Bool.not_eq_true'] at hcount
        exact (hlegal.of_automatic hcount.2 hcount.1).2
      | succ j =>
        rw [ih h, hlegal.nextIndex_left, hcount, if_pos rfl, Nat.add_assoc, Nat.add_comm 1 j]
        rfl

/-- Fields are only counted in automatic numbering. -/
theorem uncounted_after {n : Numbering} (hn : n.mode ≠ some .automatic → n.nextIndex = 0)
    {names : List String} (h : (n.after a names).mode ≠ some .automatic) :
    (n.after a names).nextIndex = 0 := by
  induction names generalizing n with
  | nil => exact hn h
  | cons name names ih => exact ih (fun hleft => (turn_legal n a name).uncounted hn hleft) h

/-- The mode changes once at most, and not at all if one is in use. -/
theorem countP_switches (n : Numbering) (a : Arguments κ) (names : List String) :
    (n.turns a names).countP Turn.switches ≤ if n.mode.isSome then 0 else 1 := by
  induction names generalizing n with
  | nil => exact Nat.zero_le _
  | cons name names ih =>
    have hlegal := turn_legal n a name
    have hnext := ih (n.turn a name).left
    rw [hlegal.mode_left] at hnext
    rw [Numbering.turns, List.countP_cons, hlegal.switches_eq]
    have hmet : (n.turn a name).met.mode = n.mode := rfl
    rw [hmet] at hnext ⊢
    cases hmode : n.mode with
    | some inUse =>
      rw [hmode] at hnext
      exact hnext
    | none =>
      rw [hmode] at hnext
      cases hasked : asked Digits (n.turn a name).name with
      | none =>
        rw [hasked] at hnext
        exact hnext
      | some asked =>
        rw [hasked] at hnext
        exact Nat.succ_le_succ hnext

/-! ## Runs -/

/-- What holds of every run of fields from the start on. -/
structure LawfulRun (a : Arguments κ) (names : List String) : Prop where
  /-- The mode changes once at most. -/
  once : (Numbering.start.turns a names).countP Turn.switches ≤ 1
  /-- It is open before, and settled as the first part of the name says. -/
  settled : ∀ t ∈ Numbering.start.turns a names, t.left.mode ≠ t.met.mode → t.met.mode = none ∧
    (Automatic t.name ∧ t.left.mode = some .automatic ∨ Digits t.name ∧ t.left.mode = some .manual)
  /-- The next index is the number of fields without a number that have passed. -/
  counted : (Numbering.start.after a names).nextIndex =
    (Numbering.start.turns a names).countP Turn.unnumbered
  uncounted : (Numbering.start.after a names).mode ≠ some .automatic →
    (Numbering.start.after a names).nextIndex = 0
  /-- A field that is refused changes nothing. -/
  refused : ∀ t ∈ Numbering.start.turns a names, t.refused = true → t.left = t.met
  /-- A field with a name of its own changes nothing and is never refused. -/
  named : ∀ t ∈ Numbering.start.turns a names, ¬ Automatic t.name → ¬ Digits t.name →
    t.refused = false ∧ t.left = t.met
  /-- A field without a number that passes is counted, found or not. -/
  automatic : ∀ t ∈ Numbering.start.turns a names, t.refused = false → Automatic t.name →
    t.left = ⟨some .automatic, t.met.nextIndex + 1⟩
  /-- A field with a number that passes settles the mode, found or not. -/
  digits : ∀ t ∈ Numbering.start.turns a names, t.refused = false → Digits t.name →
    t.left = ⟨some .manual, t.met.nextIndex⟩
  /-- The `j`-th field without a number that passes is looked up with the number `j` in front. -/
  placed : ∀ (j : Nat) (t : Turn κ),
    ((Numbering.start.turns a names).filter Turn.unnumbered)[j]? = some t →
    t.answer = a.answer (toString j ++ t.name)

/-- The numbering starts without a mode and with nothing counted, and every run from there on is lawful,
whatever the arguments are and whichever fields are refused or not found. -/
theorem turns_lawful (a : Arguments κ) (names : List String) :
    Numbering.start.mode = none ∧ Numbering.start.nextIndex = 0 ∧ LawfulRun a names := by
  have placed : ∀ (j : Nat) (t : Turn κ),
      ((Numbering.start.turns a names).filter Turn.unnumbered)[j]? = some t →
        t.answer = a.answer (toString j ++ t.name) := by
    intro j t h
    have hanswer := answer_unnumbered h
    rwa [Numbering.start, Nat.zero_add] at hanswer
  exact ⟨rfl, rfl, {
    once := countP_switches .start a names
    settled := fun t ht => (legal_of_mem_turns ht).settled
    counted := (nextIndex_after .start a names).trans (Nat.zero_add _)
    uncounted := uncounted_after fun _ => rfl
    refused := fun t ht => (legal_of_mem_turns ht).left_of_refused
    named := fun t ht => (legal_of_mem_turns ht).of_named
    automatic := fun t ht hpass hname => ((legal_of_mem_turns ht).of_automatic hpass hname).1
    digits := fun t ht => (legal_of_mem_turns ht).left_of_digits
    placed := placed }⟩

/-- A text, and one by the name of a superscript two. -/
def squaredArguments : Arguments Empty := ⟨[.str "a"], [("\u00b2", .str "b")]⟩

/-- A field with a name, one without a number, one with the number three in Arabic digits, and one more
without a number. -/
def arabicRun : List String := ["\u00b9x", "", "\u0663", ".b"]

/-- The turns of that run. -/
theorem turns_arabicRun :
    Numbering.start.turns squaredArguments arabicRun =
      [Numbering.start.turn squaredArguments "\u00b9x", Numbering.start.turn squaredArguments "",
        Numbering.turn squaredArguments ⟨some .automatic, 1⟩ "\u0663",
        Numbering.turn squaredArguments ⟨some .automatic, 1⟩ ".b"] := by
  have hnamed : (Numbering.start.turn squaredArguments "\u00b9x").left = .start := by
    decide +kernel
  have hfirst : (Numbering.start.turn squaredArguments "").left = ⟨some .automatic, 1⟩ := by
    decide +kernel
  have hrefused : (Numbering.turn squaredArguments ⟨some .automatic, 1⟩ "\u0663").left =
      ⟨some .automatic, 1⟩ := by decide +kernel
  rw [arabicRun, Numbering.turns, hnamed, Numbering.turns, hfirst, Numbering.turns, hrefused,
    Numbering.turns, Numbering.turns]

theorem turns_lawful_arabicRun :
    (Numbering.start.turns squaredArguments arabicRun).map Turn.refused =
      [false, false, true, false] ∧
    (Numbering.start.turns squaredArguments arabicRun).countP Turn.switches ≤ 1 ∧
    (Numbering.start.after squaredArguments arabicRun).nextIndex = 2 ∧
    (Numbering.turn squaredArguments ⟨some .automatic, 1⟩ ".b").answer =
      squaredArguments.answer (toString 1 ++ ".b") := by
  obtain ⟨-, -, hlawful⟩ := turns_lawful squaredArguments arabicRun
  have hrefused : (Numbering.start.turns squaredArguments arabicRun).map Turn.refused =
      [false, false, true, false] := by
    rw [turns_arabicRun]
    decide +kernel
  refine ⟨hrefused, hlawful.once, ?_, ?_⟩
  · rw [hlawful.counted, turns_arabicRun]
    decide +kernel
  · refine hlawful.placed 1 _ ?_
    rw [turns_arabicRun, List.filter_cons_of_neg (by decide +kernel),
      List.filter_cons_of_pos (by decide +kernel), List.filter_cons_of_neg (by decide +kernel),
      List.filter_cons_of_pos (by decide +kernel)]
    rfl

/-! ## Fields that are refused -/

/-- A name asks for another numbering than the first of some names that asks for one. -/
def Mixed (Manual : String → Prop) [DecidablePred Manual] (names : List String) (name : String) :
    Prop :=
  Automatic name ∧ names.findSome? (asked Manual) = some .manual ∨
    Manual name ∧ names.findSome? (asked Manual) = some .automatic

theorem mixed_digits_iff {names : List String} {name : String} :
    Mixed Digits names name ↔ ∃ inUse wanted, asked Digits name = some wanted ∧
      names.findSome? (asked Digits) = some inUse ∧ inUse ≠ wanted := by
  rw [Mixed, ← asked_eq_automatic, ← asked_eq_manual]
  constructor
  · rintro (⟨hname, hfirst⟩ | ⟨hname, hfirst⟩)
    · exact ⟨_, _, hname, hfirst, nofun⟩
    · exact ⟨_, _, hname, hfirst, nofun⟩
  · rintro ⟨inUse, wanted, hname, hfirst, hne⟩
    cases wanted with
    | automatic =>
      cases inUse with
      | automatic => exact absurd rfl hne
      | manual => exact .inl ⟨hname, hfirst⟩
    | manual =>
      cases inUse with
      | automatic => exact .inr ⟨hname, hfirst⟩
      | manual => exact absurd rfl hne

/-- Where no name is misread, digits are as good as decimal digits. -/
theorem mixed_positional_iff {names : List String} (h : ∀ s ∈ names, ¬ Misread s) {name : String}
    (hname : name ∈ names) : Mixed Positional names name ↔ Mixed Digits names name := by
  have same : ∀ s ∈ names, Positional s ↔ Digits s := fun s hs =>
    ⟨digits_of_positional, fun hdigits => Decidable.by_contra fun hnot => h s hs ⟨hdigits, hnot⟩⟩
  have hasked : names.map (asked Positional) = names.map (asked Digits) :=
    List.map_congr_left fun s hs => by simp only [asked, same s hs]
  have hfirst : names.findSome? (asked Positional) = names.findSome? (asked Digits) := by
    have hmap := congrArg (List.findSome? id) hasked
    rwa [List.findSome?_map, List.findSome?_map] at hmap
  rw [Mixed, Mixed, hfirst, same name hname]

/-- A field that asks for another numbering than the first one is behind that one. -/
theorem findSome?_before {before later : List String} {name : String} {inUse wanted : Mode}
    (hname : asked Digits name = some wanted) (hne : inUse ≠ wanted) :
    (before ++ name :: later).findSome? (asked Digits) = some inUse ↔
      before.findSome? (asked Digits) = some inUse := by
  rw [List.findSome?_append, List.findSome?_cons, hname]
  cases before.findSome? (asked Digits) with
  | none => simp [hne.symm]
  | some mode => rfl

/-- Which fields of a run are refused. -/
theorem refused_iff_mixed_digits {names : List String} {t : Turn κ}
    (ht : t ∈ Numbering.start.turns a names) : t.refused = true ↔ Mixed Digits names t.name := by
  obtain ⟨before, later, hnames, hturn⟩ := exists_of_mem_turns ht
  have hmet : t.met.mode = before.findSome? (asked Digits) := by
    rw [hturn]
    show (Numbering.start.after a before).mode = _
    rw [mode_after, Numbering.start, Option.none_or]
  rw [(legal_of_mem_turns ht).refused_iff, mixed_digits_iff, hmet, hnames]
  constructor
  · rintro ⟨inUse, wanted, hwanted, hfirst, hne⟩
    exact ⟨inUse, wanted, hwanted, (findSome?_before hwanted hne).mpr hfirst, hne⟩
  · rintro ⟨inUse, wanted, hwanted, hfirst, hne⟩
    exact ⟨inUse, wanted, hwanted, (findSome?_before hwanted hne).mp hfirst, hne⟩

/-- The first part of a name that is read as a key is a position if it is made of decimal digits. A field
is refused if it asks for another numbering than the first field of its run that asks for one, where
digits of any kind ask for the manual one. So in a run where no name is misread, the fields that are
refused are those without a number behind a first one that is positional, and the positional ones behind
a first one without a number; any other field goes with either numbering. -/
theorem refused_iff_mixed (a : Arguments κ) (names : List String) :
    (∀ name key, keyOf (firstPart name.toList) = .ok key →
      (Positional name ↔ ∃ n, key = .position n)) ∧
    (∀ t ∈ Numbering.start.turns a names, (t.refused = true ↔ Mixed Digits names t.name)) ∧
    ((∀ s ∈ names, ¬ Misread s) → ∀ t ∈ Numbering.start.turns a names,
      (t.refused = true ↔ Mixed Positional names t.name)) := by
  refine ⟨fun name key => positional_iff_position, fun t => refused_iff_mixed_digits,
    fun hnames t ht => ?_⟩
  obtain ⟨before, later, hsplit, -⟩ := exists_of_mem_turns ht
  have hname : t.name ∈ names := by
    rw [hsplit]
    exact List.mem_append_right _ List.mem_cons_self
  rw [refused_iff_mixed_digits ht, mixed_positional_iff hnames hname]

theorem refused_iff_mixed_arabicRun :
    (∀ s ∈ arabicRun, ¬ Misread s) ∧
    keyOf (firstPart "\u0663".toList) = .ok (.position 3) ∧ Positional "\u0663" ∧
    ∃ t ∈ Numbering.start.turns squaredArguments arabicRun,
      t.name = "\u0663" ∧ t.refused = true ∧ Mixed Positional arabicRun t.name := by
  have hrun : ∀ s ∈ arabicRun, ¬ Misread s := by decide +kernel
  have hkey : keyOf (firstPart "\u0663".toList) = .ok (.position 3) := by rfl
  have hmem : Numbering.turn squaredArguments ⟨some .automatic, 1⟩ "\u0663" ∈
      Numbering.start.turns squaredArguments arabicRun := by
    rw [turns_arabicRun]
    simp
  have hpass : (Numbering.turn squaredArguments ⟨some .automatic, 1⟩ "\u0663").refused = true := by
    decide +kernel
  obtain ⟨hlookup, -, hrefused⟩ := refused_iff_mixed squaredArguments arabicRun
  exact ⟨hrun, hkey, (hlookup _ _ hkey).mpr ⟨3, rfl⟩, _, hmem, rfl, hpass,
    (hrefused hrun _ hmem).mp hpass⟩

/-- A superscript two is a digit and no decimal one: its argument is looked up by that name, but behind a
field without a number the field is refused. -/
theorem superscript_refused :
    squaredArguments.lookup "\u00b2" = .ok (.str "b") ∧ ¬ Positional "\u00b2" ∧
    ¬ ∀ names, ∀ t ∈ Numbering.start.turns squaredArguments names,
      (t.refused = true ↔ Mixed Positional names t.name) := by
  have hlookup : squaredArguments.lookup "\u00b2" = .ok (.str "b") := by
    have hpath : pathOf ("\u00b2".toList.dropWhile (!beginsStep ·)) = ⟨[], none⟩ := by
      show pathOf [] = _
      rw [pathOf]
    rw [Arguments.lookup, hpath]
    rfl
  refine ⟨hlookup, by decide +kernel, fun h => ?_⟩
  have hsecond : (Numbering.start.after squaredArguments [""]).turn squaredArguments "\u00b2" ∈
      Numbering.start.turns squaredArguments ["", "\u00b2"] :=
    List.mem_cons_of_mem _ List.mem_cons_self
  have hmixed := (h _ _ hsecond).mp (by decide +kernel)
  rcases hmixed with ⟨hauto, -⟩ | ⟨hpositional, -⟩
  · exact absurd hauto (by decide +kernel)
  · exact absurd hpositional (by decide +kernel)

end DocLayout.Template
