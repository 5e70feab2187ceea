import DocLayout.Proofs.Filling
import DocLayout.Proofs.TemplateReading

/-
  How the filling of a template fails.

  Where the arguments are plain data, no code runs while a template is filled, and all that can go
  wrong is known in advance. A template that is none, a format that is asked for, a numbering that
  changes, an argument that is not there and a value that no document can be made of are bad
  arguments, and a text that breaks its line is told as such. There are two failures besides. The name
  of a field that is no path, once the steps before the fault are taken, fails for the fault alone.
  A value that no document can be made of is shown in the message, and where it holds a whole number
  of too many digits, or goes too many levels down, the failure is that of showing it.

  How many levels are left depends on who fills the template, so no one number of them is stated: `n`
  stands for any number of levels within the limit, and of a value that goes further down than that
  nothing is said but that it may fail for it.

  Proved:
  * `hereditary_inert`: from plain data, a field leads to plain data.
  * `lookup_path`: a name that fails for a fault of its own has that fault.
  * `settles_cast`: plain data stands for a document, or fails as said.
  * `settles_addPieces`, by induction on the pieces: a draft is put together, or that fails so.
  * `fill_reports`: so does the filling of the template.
  * `fill_unshown`: a value that cannot be shown always makes the template of one field fail so.
-/

namespace DocLayout

open Template

variable {κ : Type}

/-! ## Plain data -/

/-- Data that runs nothing: numbers, texts, documents and types, and sequences and dictionaries of
them. -/
inductive Value.Inert : Value κ → Prop
  | null : Inert .null
  | bool (b : Bool) : Inert (.bool b)
  | int (n : Int) : Inert (.int n)
  | float (x : Binary64) : Inert (.float x)
  | str (s : String) : Inert (.str s)
  | bytes (bs : List UInt8) : Inert (.bytes bs)
  | list {items : List (Value κ)} (h : ∀ x ∈ items, Inert x) : Inert (.list items)
  | tuple {items : List (Value κ)} (h : ∀ x ∈ items, Inert x) : Inert (.tuple items)
  | dict {entries : List (Value κ × Value κ)} (hkeys : ∀ e ∈ entries, Inert e.1)
    (hvalues : ∀ e ∈ entries, Inert e.2) : Inert (.dict entries)
  | doc {d : Doc (Value κ)} (h : d.WellFormed) : Inert (.doc d)
  | displayOf {d : Doc (Value κ)} (h : d.WellFormed) : Inert (.displayOf d)
  | type (home name : String) : Inert (.type home name)

theorem inert_ofDoc {d : Doc (Value κ)} (h : d.WellFormed) : (Value.ofDoc d).Inert := by
  cases d with
  | foreign x w => exact h.elim
  | _ => exact .doc h

/-- The parts of plain data are plain data. -/
theorem hereditary_inert : Hereditary (Value.Inert (κ := κ)) where
  null := .null
  int := .int
  float := .float
  str := .str
  type := .type
  list h := by
    cases h with
    | list h => exact h
  tuple := by
    refine ⟨fun h => ?_, .tuple⟩
    cases h with
    | tuple h => exact h
  dict h := by
    cases h with
    | dict _ hvalues => exact hvalues
  object h := nomatch h
  displayOf := by
    refine ⟨fun h => ?_, fun h => ?_⟩
    · cases h with
      | displayOf h => exact .doc h
    · cases h with
      | doc h => exact .displayOf h
  settled h := by
    cases h with
    | doc h => exact h.settled
  nodeParts h := by
    cases h with
    | doc h => exact forall_nodeParts .str inert_ofDoc h.allParts

/-! ## Failures that are told apart -/

/-- A failure for a text that breaks its line or for a bad argument. -/
def Failure.Reported (e : Failure) : Prop := e.family = .text ∨ e.family = .argument

theorem reported_of_ofText {s : String} {e : Failure}
    (h : (Doc.ofText s : Except Failure (Doc (Value κ))) = .error e) : e.Reported := by
  unfold Doc.ofText at h
  split at h
  · contradiction
  · injection h with h
    exact h ▸ .inl rfl

/-- The failure to show a value that is no document and no text, for a fault that it has where `n`
levels are gone into. -/
def Value.ShowFailure (n : Nat) (v : Value κ) (e : Failure) : Prop :=
  v.isDoc = false ∧ ∃ fault, v.HasFault n fault ∧ e = .unshown fault

/-- What tells of a value is the failure itself, or that the value cannot be shown. -/
theorem told_cases (v : Value κ) (failure : String → Failure) :
    v.told failure = failure v.literal ∨
      ∃ fault, v.fault? = some fault ∧ v.told failure = .unshown fault := by
  unfold Value.told
  cases v.fault? with
  | none => exact .inl rfl
  | some fault => exact .inr ⟨fault, rfl, rfl⟩

/-- Plain data that is neither a document nor a text is refused as such, or cannot be shown. -/
theorem cast_inert (run : Interpreter κ) {v : Value κ} (hv : v.Inert) (hdoc : v.isDoc = false) :
    Build.cast run v = throw (v.told (.notDocument · v.typeName)) := by
  cases hv with
  | doc | str => contradiction
  | _ => rfl

/-- Plain data stands for a document, or the failure to make one of it is reported, or it is that the
data cannot be shown. -/
theorem settles_cast (run : Interpreter κ) {v : Value κ} (hv : v.Inert) {n : Nat}
    (hn : n ≤ ShowFault.levelLimit) :
    (Build.cast run v).Settles Doc.WellFormed fun e => e.Reported ∨ v.ShowFailure n e := by
  cases hdoc : v.isDoc with
  | true =>
    cases hv with
    | doc h => exact settles_pure h
    | str s =>
      exact settles_ofExcept (fun _ => rule_wellFormed.ofText) fun _ h => .inl (reported_of_ofText h)
    | _ => contradiction
  | false =>
    rw [cast_inert run hv hdoc]
    refine settles_throw ?_
    rcases told_cases v (.notDocument · v.typeName) with h | ⟨fault, hfault, h⟩
    · rw [h]
      exact .inl (.inr rfl)
    · rw [h]
      exact .inr ⟨hdoc, fault, Value.hasFault_of_fault? hfault hn, rfl⟩

/-! ## Names that are no paths -/

namespace Template

/-- The fault that a name has as a path, if it has one: in its first part or in the steps after it. -/
def faultOf (name : String) : Option PathFault :=
  match keyOf (firstPart name.toList) with
  | .error fault => some fault
  | .ok _ => (pathOf (name.toList.dropWhile (!beginsStep ·))).fault

/-- A name that fails for a fault has that fault. -/
theorem lookup_path {a : Arguments κ} {name : String} {fault : PathFault}
    (h : a.lookup name = .error (.path fault)) : faultOf name = some fault := by
  unfold faultOf
  rcases error_of_bind_eq_error h with hkey | ⟨key, hkey, h⟩
  · obtain ⟨fault', hkey, hfault⟩ := exists_of_mapError_eq_error hkey
    injection hfault with hfault
    rw [hkey, hfault]
  rw [eq_ok_of_mapError hkey]
  dsimp only
  -- a part that is not there is no fault of the name
  have access {r : Except AccessError (Value κ)} :
      r.mapError LookupError.access ≠ .error (.path fault) := by
    intro hr
    obtain ⟨e, -, he⟩ := exists_of_mapError_eq_error hr
    contradiction
  rcases error_of_bind_eq_error h with hstart | ⟨start, -, h⟩
  · exact absurd hstart access
  rcases error_of_bind_eq_error h with hreached | ⟨reached, -, h⟩
  · exact absurd hreached access
  split at h
  · rename_i found hfound
    injection h with h
    injection h with h
    rw [hfound, h]
  · contradiction

/-- The names under which a field is looked up in a template of so many pieces: its own, or its own with
a number in front if it asks for none. -/
inductive Field.SoughtAs (count : Nat) (f : Field) : String → Prop
  | named (h : modeOf f.name.toList ≠ some .automatic) : SoughtAs count f f.name
  | numbered {k : Nat} (h : modeOf f.name.toList = some .automatic) (hk : k < count) :
    SoughtAs count f (toString k ++ f.name)

/-- A numbering is refused where it changes, and else a field is sought as one of its names. -/
theorem number_cases (n : Numbering) (f : Field) {count : Nat} (hn : n.nextIndex < count) :
    (∃ inUse asked, n.number f.name = .error (.mixed inUse asked)) ∨
      ∃ after name, n.number f.name = .ok (after, name) ∧ f.SoughtAs count name ∧
        after.nextIndex ≤ n.nextIndex + 1 := by
  unfold Numbering.number
  split
  · rename_i hmode
    exact .inr ⟨n, f.name, rfl, .named (by rw [hmode]; nofun), Nat.le_succ _⟩
  · rename_i asked hmode
    split
    · exact .inl ⟨_, _, rfl⟩
    · cases asked with
      | automatic => exact .inr ⟨_, _, rfl, .numbered hmode hn, Nat.le_refl _⟩
      | manual => exact .inr ⟨_, _, rfl, .named (by rw [hmode]; nofun), Nat.le_succ _⟩

/-- The failure of a field whose name, as it is sought, is no path. -/
def Field.PathFailure (count : Nat) (f : Field) (e : Failure) : Prop :=
  ∃ name, f.SoughtAs count name ∧
    ∃ fault, faultOf name = some fault ∧ e = .field (.lookup name (.path fault))

/-- The failure of a field whose name, as it is sought, leads to a value that cannot be shown where `n`
levels are gone into. -/
def Field.ShowFailure (a : Arguments κ) (count n : Nat) (f : Field) (e : Failure) : Prop :=
  ∃ name, f.SoughtAs count name ∧ ∃ v, a.lookup name = .ok v ∧ v.ShowFailure n e

end Template

/-! ## Templates -/

section Filling

variable {run : Interpreter κ} {a : Arguments κ}

theorem settles_fieldDoc (ha : a.All Value.Inert) (n : Numbering) (f : Field) {count : Nat}
    (hn : n.nextIndex < count) {levels : Nat} (hlevels : levels ≤ ShowFault.levelLimit) :
    (fieldDoc run a n f).Settles
      (fun made => made.1.nextIndex ≤ n.nextIndex + 1 ∧ made.2.WellFormed)
      (fun e => e.Reported ∨ f.PathFailure count e ∨ f.ShowFailure a count levels e) := by
  rw [fieldDoc, Numbering.resolve]
  split
  · exact settles_throw (.inl (.inr rfl))
  rcases number_cases n f hn with ⟨inUse, asked, hmixed⟩ | ⟨after, name, hnumber, hname, hafter⟩
  · rw [hmixed]
    exact settles_throw (.inl (.inr rfl))
  rw [hnumber]
  dsimp only
  cases hlookup : a.lookup name with
  | ok v =>
    have hv : v.Inert := hereditary_inert.lookup ha hlookup
    refine settles_bind ((settles_cast run hv hlevels).mono fun e he => ?_) fun d hd =>
      settles_pure ⟨hafter, hd⟩
    exact he.imp_right fun he => .inr ⟨name, hname, v, hlookup, he⟩
  | error e =>
    cases e with
    | path fault => exact settles_throw (.inr (.inl ⟨name, hname, fault, lookup_path hlookup, rfl⟩))
    | access e => exact settles_throw (.inl (.inr rfl))

theorem reported_of_addLines {draft : Draft κ} (h : draft.AllDocs Doc.WellFormed)
    {lines : List (List Char)} {e : Failure} (he : draft.addLines lines = .error e) :
    e.Reported := by
  induction lines generalizing draft with
  | nil => contradiction
  | cons cs lines ih =>
    rcases error_of_bind_eq_error he with hbreak | ⟨broken, hbroken, he⟩
    · obtain ⟨broken, hbroken⟩ := exists_breakLine rule_wellFormed h
      rw [hbroken] at hbreak
      contradiction
    rcases error_of_bind_eq_error he with hd | ⟨d, hd, he⟩
    · exact reported_of_ofText hd
    · exact ih (allDocs_putPart (allDocs_breakLine rule_wellFormed h hbroken)
        (rule_wellFormed.ofText hd)) he

theorem settles_addLiteral {draft : Draft κ} (h : draft.AllDocs Doc.WellFormed) (literal : String) :
    (ofExcept (draft.addLiteral literal) : Effect κ _).Settles (Draft.AllDocs Doc.WellFormed)
      Failure.Reported := by
  refine settles_ofExcept (fun after => allDocs_addLiteral rule_wellFormed h) fun e he => ?_
  unfold Draft.addLiteral at he
  split at he
  · contradiction
  · rcases error_of_bind_eq_error he with hd | ⟨d, hd, he⟩
    · exact reported_of_ofText hd
    · exact reported_of_addLines (allDocs_putPart h (rule_wellFormed.ofText hd)) he

/-- A draft takes up the rest of the pieces of a template, or that fails as one of them may. No field is
numbered beyond the number of pieces. -/
theorem settles_addPieces (ha : a.All Value.Inert) {pieces : List Piece} {n : Numbering}
    {draft : Draft κ} (hdraft : draft.AllDocs Doc.WellFormed) {count : Nat}
    (hcount : n.nextIndex + pieces.length ≤ count) {levels : Nat}
    (hlevels : levels ≤ ShowFault.levelLimit) :
    (addPieces run a n draft pieces).Settles (Draft.AllDocs Doc.WellFormed) fun e =>
      e.Reported ∨ ∃ p ∈ pieces, ∃ f, p.field = some f ∧
        (f.PathFailure count e ∨ f.ShowFailure a count levels e) := by
  induction pieces generalizing n draft with
  | nil => exact settles_pure hdraft
  | cons piece pieces ih =>
    rw [List.length_cons] at hcount
    -- what may fail in the rest may fail here
    have rest {e : Failure}
        (h : e.Reported ∨ ∃ p ∈ pieces, ∃ f, p.field = some f ∧
          (f.PathFailure count e ∨ f.ShowFailure a count levels e)) :
        e.Reported ∨ ∃ p ∈ piece :: pieces, ∃ f, p.field = some f ∧
          (f.PathFailure count e ∨ f.ShowFailure a count levels e) := by
      rcases h with h | ⟨p, hp, hf⟩
      · exact .inl h
      · exact .inr ⟨p, List.mem_cons_of_mem _ hp, hf⟩
    rw [addPieces]
    refine settles_bind ((settles_addLiteral hdraft _).mono fun _ => .inl) fun after hafter => ?_
    split
    · exact (ih hafter (by omega)).mono fun _ => rest
    · rename_i f hfield
      have hn : n.nextIndex < count := by omega
      refine settles_bind ((settles_fieldDoc ha n f hn hlevels).mono fun e he => ?_) fun made hmade => ?_
      · rcases he with he | he
        · exact .inl he
        · exact .inr ⟨piece, List.mem_cons_self, f, hfield, he⟩
      · refine (ih (allDocs_putPart hafter hmade.2) ?_).mono fun _ => rest
        have := hmade.1
        omega

end Filling

namespace Template

/-- A template whose arguments are plain data is filled with a document, or that fails for a text that
breaks its line, for a bad argument, for a field whose name is no path, or for one whose value is no
document and cannot be shown. -/
theorem fill_reports (run : Interpreter κ) (s : String) {a : Arguments κ} (ha : a.All Value.Inert)
    (hname : a.named.any (·.1 == "template") = false) {n : Nat} (hn : n ≤ ShowFault.levelLimit) :
    (∃ d, fill run (.str s) a = pure d ∧ d.WellFormed) ∨
      ∃ e, fill run (.str s) a = throw e ∧ (e.family = .text ∨ e.family = .argument ∨
        ∃ ps, pieces s.toList = .ok ps ∧ ∃ p ∈ ps, ∃ f, p.field = some f ∧
          (f.PathFailure ps.length e ∨ f.ShowFailure a ps.length n e)) := by
  rw [fill, hname]
  show Effect.Settles (ofExcept (piecesOf (.str s)) >>= fun ps =>
    addPieces run a .start .empty ps >>= fun draft => ofExcept draft.finish) _ _
  rw [piecesOf]
  cases hpieces : pieces s.toList with
  | error m => exact settles_throw (.inr (.inl rfl))
  | ok ps =>
    show Effect.Settles (addPieces run a .start .empty ps >>= fun draft => ofExcept draft.finish) _ _
    have hempty : (Draft.empty : Draft κ).AllDocs Doc.WellFormed :=
      ⟨List.forall_mem_nil _, List.forall_mem_nil _⟩
    have hcount : Numbering.start.nextIndex + ps.length ≤ ps.length := Nat.le_of_eq (Nat.zero_add _)
    refine settles_bind ((settles_addPieces ha hempty hcount hn).mono fun e he => ?_)
      fun draft hdraft => ?_
    · rcases he with (he | he) | he
      · exact .inl he
      · exact .inr (.inl he)
      · exact .inr (.inr ⟨ps, rfl, he⟩)
    · obtain ⟨done, hdone⟩ := exists_breakLine rule_wellFormed hdraft
      rw [Draft.finish, hdone]
      exact settles_pure (rule_wellFormed.vertList (allDocs_breakLine rule_wellFormed hdraft hdone).1)

/-- A text and a list, and a tuple with a document by name. -/
def plainArguments : Arguments Empty :=
  ⟨[.str "x", .list [.int 1, .null]], [("pair", .tuple [.doc (.text "c")])]⟩

theorem fill_reports_plainArguments :
    plainArguments.All Value.Inert ∧ plainArguments.named.any (·.1 == "template") = false ∧
    900 ≤ ShowFault.levelLimit ∧
    ((∃ d, fill Empty.elim (.str "\x7bpair[0]\x7d \x7b1[0]\x7d") plainArguments = pure d ∧
        d.WellFormed) ∨
      ∃ e, fill Empty.elim (.str "\x7bpair[0]\x7d \x7b1[0]\x7d") plainArguments = throw e ∧
        (e.family = .text ∨ e.family = .argument ∨
          ∃ ps, pieces "\x7bpair[0]\x7d \x7b1[0]\x7d".toList = .ok ps ∧
            ∃ p ∈ ps, ∃ f, p.field = some f ∧ (f.PathFailure ps.length e ∨
              f.ShowFailure plainArguments ps.length 900 e))) := by
  have hdoc : (Doc.text "c" : Doc (Value Empty)).WellFormed := (by decide : Text.Unbroken "c")
  have hlist : (Value.list [.int 1, .null] : Value Empty).Inert :=
    .list (List.forall_mem_cons.mpr ⟨.int 1, List.forall_mem_singleton.mpr .null⟩)
  have hpair : (Value.tuple [.doc (.text "c")] : Value Empty).Inert :=
    .tuple (List.forall_mem_singleton.mpr (.doc hdoc))
  have hinert : plainArguments.All Value.Inert :=
    ⟨List.forall_mem_cons.mpr ⟨.str "x", List.forall_mem_singleton.mpr hlist⟩,
      List.forall_mem_singleton.mpr hpair⟩
  exact ⟨hinert, by decide, by decide, fill_reports Empty.elim _ hinert (by decide) (by decide)⟩

/-- A template that is a single field fails as the field does. -/
theorem fill_field {run : Interpreter κ} {a : Arguments κ} {s : String} {f : Field} {e : Failure}
    (hname : a.named.any (·.1 == "template") = false)
    (hpieces : pieces s.toList = .ok [⟨"", some f⟩]) (hfield : fieldDoc run a .start f = throw e) :
    fill run (.str s) a = throw e := by
  rw [fill, piecesOf, hpieces, hname]
  show (fieldDoc run a .start f >>= fun made => addPieces run a made.1 _ []) >>= _ = _
  rw [hfield]
  rfl

/-- Plain data that cannot be shown, and is neither a document nor a text, fails for that alone in the
place of a field. -/
theorem fill_unshown (run : Interpreter κ) {v : Value κ} (hv : v.Inert) (hdoc : v.isDoc = false)
    {fault : ShowFault} (h : v.HasFault ShowFault.levelLimit fault) :
    ∃ found, fill run (.str "\x7b\x7d") ⟨[v], []⟩ = throw (.unshown found) := by
  obtain ⟨found, hfound⟩ := Value.exists_fault? h
  have hcast : Build.cast run v = throw (.unshown found) := by
    rw [cast_inert run hv hdoc, Value.told, hfound]
  have hresolve : Numbering.start.resolve (⟨[v], []⟩ : Arguments κ) "" =
      (⟨some .automatic, 1⟩, .ok v) :=
    resolve_next nofun (Nat.zero_le _) rfl
  have hpieces : pieces "\x7b\x7d".toList = .ok [⟨"", some ⟨"", "", none⟩⟩] := by
    show pieces ['\x7b', '\x7d'] = _
    rw [pieces_field, pieces_nil]
    rfl
  have hfield : fieldDoc run (⟨[v], []⟩ : Arguments κ) .start ⟨"", "", none⟩ =
      throw (.unshown found) := by
    rw [fieldDoc, hresolve]
    show (Build.cast run v >>= fun d => pure (_, d)) = _
    rw [hcast]
    rfl
  exact ⟨found, fill_field rfl hpieces hfield⟩

/-- One argument, a text. -/
def textArgument : Arguments Empty := ⟨[.str "x"], []⟩

/-- A name that stops at a point fails for that alone, and the failure is no bad argument. -/
theorem fill_unreported :
    textArgument.All Value.Inert ∧ textArgument.named.any (·.1 == "template") = false ∧
    fill Empty.elim (.str "\x7b0.\x7d") textArgument =
      throw (.field (.lookup "0." (.path .emptyPart))) ∧
    ¬ (fill Empty.elim (.str "\x7b0.\x7d") textArgument).Settles (fun _ => True)
      Failure.Reported := by
  have hinert : textArgument.All Value.Inert :=
    ⟨List.forall_mem_singleton.mpr (.str "x"), List.forall_mem_nil _⟩
  have hname : textArgument.named.any (·.1 == "template") = false := rfl
  have hpath : pathOf ("0.".toList.dropWhile (!beginsStep ·)) = .stop .emptyPart := by
    show pathOf ['.'] = _
    rw [pathOf]
    rfl
  have hlookup : textArgument.lookup "0." = .error (.path .emptyPart) := by
    rw [Arguments.lookup, hpath]
    rfl
  have hresolve : Numbering.start.resolve textArgument "0." =
      (⟨some .manual, 0⟩, .error (.lookup "0." (.path .emptyPart))) := by
    show (_, (textArgument.lookup "0.").mapError (FieldError.lookup "0.")) = _
    rw [hlookup]
    rfl
  have hpieces : pieces "\x7b0.\x7d".toList = .ok [⟨"", some ⟨"0.", "", none⟩⟩] := by
    rw [pieces]
    show (do return (⟨"", some ⟨"0.", "", none⟩⟩ : Piece) :: (← pieces [])) = _
    rw [pieces_nil]
    rfl
  have hfield : fieldDoc Empty.elim textArgument .start ⟨"0.", "", none⟩ =
      throw (.field (.lookup "0." (.path .emptyPart))) := by
    rw [fieldDoc, hresolve]
    rfl
  have hfill : fill Empty.elim (.str "\x7b0.\x7d") textArgument =
      throw (.field (.lookup "0." (.path .emptyPart))) := fill_field hname hpieces hfield
  refine ⟨hinert, hname, hfill, fun h => ?_⟩
  rw [hfill] at h
  rcases of_settles_throw h with h | h
  · contradiction
  · contradiction

end Template

end DocLayout
