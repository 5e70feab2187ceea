import DocLayout.Build
import DocLayout.Proofs.Keeping

/-
  What values hold.

  A value may be a document, hold some among its items, or stand for a stream that has some still to
  come. `v.AllDocs P` says that `P` is true of every document that can be had from `v` by looking at
  its parts; `s.AllDocs P` says the same of everything that is left of the streams of a session. What
  the method of an object makes is up to its interpreter, so `Heeds P` is asked of that.

  A `Rule` is a property that the parts of a document share and that building keeps. A choice is the
  one way of building that need not keep it: it does where the broken alternative cannot stand on one
  line, or where the two are the same.

  Holding nothing that breaks a rule is one of the properties that the parts of a value share with it.
  What is true of the parts of all of these is said of `Hereditary` properties.

  Proved:
  * `Hereditary.member`, `Hereditary.item`: the parts of a value share what is hereditary.
  * `hereditary_allDocs`: the parts of a value hold what the value holds.
  * `answered_next`: reading a stream gives and leaves nothing new.
  * `keeps_eachItem`: treating every item of a value keeps the rule if treating one does.
-/

namespace DocLayout

variable {κ : Type} {P : Doc (Value κ) → Prop}

/-- `P` holds of every document that can be had from a value by looking at its parts. -/
inductive Value.AllDocs (P : Doc (Value κ) → Prop) : Value κ → Prop
  | null : AllDocs P .null
  | bool (b : Bool) : AllDocs P (.bool b)
  | int (n : Int) : AllDocs P (.int n)
  | float (x : Binary64) : AllDocs P (.float x)
  | str (s : String) : AllDocs P (.str s)
  | bytes (bs : List UInt8) : AllDocs P (.bytes bs)
  | list {items : List (Value κ)} (h : ∀ x ∈ items, AllDocs P x) : AllDocs P (.list items)
  | tuple {items : List (Value κ)} (h : ∀ x ∈ items, AllDocs P x) : AllDocs P (.tuple items)
  | dict {entries : List (Value κ × Value κ)} (hkeys : ∀ e ∈ entries, AllDocs P e.1)
    (hvalues : ∀ e ∈ entries, AllDocs P e.2) : AllDocs P (.dict entries)
  | doc {d : Doc (Value κ)} (h : P d) : AllDocs P (.doc d)
  | object {className shown : String} {attributes : List (String × Value κ)} {method : Option κ}
    (h : ∀ a ∈ attributes, AllDocs P a.2) : AllDocs P (.object className shown attributes method)
  | stream (kind : StreamKind) (handle : Nat) : AllDocs P (.stream kind handle)
  | displayOf {d : Doc (Value κ)} (h : P d) : AllDocs P (.displayOf d)
  | type (home name : String) : AllDocs P (.type home name)

/-- A property of documents that their parts share and that every way of building keeps, up to
choices between two layouts that can both stand on one line. -/
structure Rule (P : Doc (Value κ) → Prop) : Prop where
  settled : ∀ {d}, P d → d.flatWidth.Settled
  parts : ∀ {d}, P d → ∀ part ∈ Value.nodeParts d, part.2.AllDocs P
  text : ∀ {s}, Text.Unbroken s → P (.text s)
  horz : ∀ {a b}, P a → P b → P (.horz a b)
  concat : ∀ {a b}, P a → P b → P (.concat a b)
  vert : ∀ {a b}, P a → P b → P (.vert a b)
  fullLine : ∀ {a}, P a → P (.fullLine a)
  choice : ∀ {flat broken}, P flat → P broken → broken.flatWidth = .never ∨ flat = broken →
    P (.choice flat broken)

/-- What holds of fewer documents holds less. -/
theorem Value.AllDocs.mono {Q : Doc (Value κ) → Prop} (hPQ : ∀ d, P d → Q d) {v : Value κ}
    (h : v.AllDocs P) : v.AllDocs Q := by
  induction h with
  | null => exact .null
  | bool b => exact .bool b
  | int n => exact .int n
  | float x => exact .float x
  | str s => exact .str s
  | bytes bs => exact .bytes bs
  | list _ ih => exact .list ih
  | tuple _ ih => exact .tuple ih
  | dict _ _ ihkeys ihvalues => exact .dict ihkeys ihvalues
  | doc hd => exact .doc (hPQ _ hd)
  | object _ ih => exact .object ih
  | stream kind handle => exact .stream kind handle
  | displayOf hd => exact .displayOf (hPQ _ hd)
  | type home name => exact .type home name

/-! ## Parts of nodes -/

/-- `P` holds of the documents directly under a node, and there is a node. -/
def Doc.AllParts {α : Type} (P : Doc α → Prop) : Doc α → Prop
  | .text _ => True
  | .horzNode _ a b | .concatNode _ a b | .vert a b | .choiceNode _ a b => P a ∧ P b
  | .fullLine a => P a
  | .foreign _ _ => False

/-- What is true of texts and of the documents under a node is true of the parts of the node. -/
theorem forall_nodeParts {T : Value κ → Prop} (hstr : ∀ s, T (.str s))
    (hdoc : ∀ {a}, P a → T (Value.ofDoc a)) {d : Doc (Value κ)} (h : d.AllParts P) :
    ∀ part ∈ Value.nodeParts d, T part.2 := by
  have pair : ∀ {a b : Doc (Value κ)} {s t : String}, P a ∧ P b →
      ∀ part ∈ [(s, Value.ofDoc a), (t, Value.ofDoc b)], T part.2 := by
    intro a b s t hab
    simp only [List.forall_mem_cons]
    exact ⟨hdoc hab.1, hdoc hab.2, List.forall_mem_nil _⟩
  cases d with
  | text s => exact List.forall_mem_singleton.mpr (hstr s)
  | horzNode w a b | concatNode w a b | vert a b | choiceNode w a b => exact pair h
  | fullLine a => exact List.forall_mem_singleton.mpr (hdoc h)
  | foreign x w => exact h.elim

/-- The parts of a node hold what is asked of the documents under it. -/
theorem allDocs_nodeParts (hforeign : ∀ x w, ¬ P (.foreign x w)) {d : Doc (Value κ)}
    (h : d.AllParts P) : ∀ part ∈ Value.nodeParts d, part.2.AllDocs P := by
  refine forall_nodeParts .str (fun {a} ha => ?_) h
  cases a with
  | foreign x w => exact absurd ha (hforeign x w)
  | _ => exact .doc ha

theorem Doc.WellFormed.allParts {d : Doc (Value κ)} (h : d.WellFormed) :
    d.AllParts Doc.WellFormed := by
  cases d with
  | text s => trivial
  | horzNode w a b | concatNode w a b | choiceNode w flat broken => exact h.2
  | vert a b | fullLine a => exact h
  | foreign x w => exact h.elim

/-- Being well formed is kept by every way of building. -/
theorem rule_wellFormed : Rule (Doc.WellFormed (α := Value κ)) where
  settled h := h.settled
  parts h := allDocs_nodeParts (fun _ _ h => h) h.allParts
  text h := h
  horz ha hb := ⟨rfl, ha, hb⟩
  concat ha hb := ⟨rfl, ha, hb⟩
  vert ha hb := ⟨ha, hb⟩
  fullLine ha := ha
  choice hflat hbroken _ := ⟨rfl, hflat, hbroken⟩

/-! ## Parts of values -/

theorem mem_of_lookup {β : Type} {l : List (String × β)} {name : String} {x : β}
    (h : l.lookup name = some x) : (name, x) ∈ l := by
  obtain ⟨before, after, rfl, -⟩ := List.lookup_eq_some_iff.mp h
  exact List.mem_append_right before List.mem_cons_self

/-- A property that atoms have and that the parts of a value share with it. -/
structure Hereditary (T : Value κ → Prop) : Prop where
  null : T .null
  int : ∀ n, T (.int n)
  float : ∀ x, T (.float x)
  str : ∀ s, T (.str s)
  type : ∀ home name, T (.type home name)
  list : ∀ {items}, T (.list items) → ∀ x ∈ items, T x
  tuple : ∀ {items}, T (.tuple items) ↔ ∀ x ∈ items, T x
  dict : ∀ {entries}, T (.dict entries) → ∀ e ∈ entries, T e.2
  object : ∀ {className shown attributes method},
    T (.object className shown attributes method) → ∀ a ∈ attributes, T a.2
  displayOf : ∀ {d}, T (.displayOf d) ↔ T (.doc d)
  settled : ∀ {d}, T (.doc d) → d.flatWidth.Settled
  nodeParts : ∀ {d}, T (.doc d) → ∀ part ∈ Value.nodeParts d, T part.2

namespace Hereditary

variable {T : Value κ → Prop} (hT : Hereditary T)
include hT

theorem ofFlatWidth {w : FlatWidth (Value κ)} (h : w.Settled) : T (.ofFlatWidth w) := by
  cases w with
  | never => exact hT.null
  | columns n => exact hT.int n
  | claimed x => exact h.elim

theorem parts {v : Value κ} (h : T v) : ∀ part ∈ v.parts, T part.2 := by
  cases v with
  | doc d =>
    simp only [Value.parts, List.forall_mem_append, List.forall_mem_cons]
    refine ⟨hT.nodeParts h, hT.ofFlatWidth (hT.settled h), hT.displayOf.mpr h, ?_, hT.str _,
      List.forall_mem_nil _⟩
    refine hT.tuple.mpr fun x hx => ?_
    obtain ⟨part, -, rfl⟩ := List.mem_map.mp hx
    exact hT.str _
  | displayOf d =>
    simp only [Value.parts, List.forall_mem_cons]
    exact ⟨hT.displayOf.mp h, hT.str _, hT.str _, hT.str _, List.forall_mem_nil _⟩
  | object className shown attributes method => exact hT.object h
  | int n =>
    simp only [Value.parts, List.forall_mem_cons]
    exact ⟨hT.int _, hT.int _, hT.int _, hT.int _, List.forall_mem_nil _⟩
  | bool b =>
    simp only [Value.parts, List.forall_mem_cons]
    exact ⟨hT.int _, hT.int _, hT.int _, hT.int _, List.forall_mem_nil _⟩
  | float x =>
    simp only [Value.parts, List.forall_mem_cons]
    exact ⟨hT.float _, hT.float _, List.forall_mem_nil _⟩
  | type home name =>
    simp only [Value.parts, List.forall_mem_cons]
    exact ⟨hT.str _, hT.str _, hT.str _, List.forall_mem_nil _⟩
  | null | str _ | bytes _ | list _ | tuple _ | dict _ | stream _ _ =>
    exact List.forall_mem_nil _

/-- What is hereditary is true of the members of a value that it is true of. -/
theorem member {v x : Value κ} (h : T v) {name : String} (hx : v.member name = .ok x) : T x := by
  rw [Value.member] at hx
  split at hx
  · rename_i value hlookup
    injection hx with hx
    subst hx
    rcases List.mem_append.mp (mem_of_lookup hlookup) with hmem | hmem
    · exact hT.parts h _ hmem
    · rw [List.mem_singleton, Prod.mk.injEq] at hmem
      exact hmem.2 ▸ hT.type _ _
  · contradiction

theorem sequence {v : Value κ} (h : T v) {kind : SequenceKind} {items : List (Value κ)}
    (hs : v.sequence? = some (kind, items)) : ∀ x ∈ items, T x := by
  cases v with
  | list xs => injection hs with hs; injection hs with _ hs; exact hs ▸ hT.list h
  | tuple xs => injection hs with hs; injection hs with _ hs; exact hs ▸ hT.tuple.mp h
  | str s =>
    injection hs with hs
    injection hs with _ hs
    subst hs
    intro x hx
    obtain ⟨c, -, rfl⟩ := List.mem_map.mp hx
    exact hT.str _
  | bytes bs =>
    injection hs with hs
    injection hs with _ hs
    subst hs
    intro x hx
    obtain ⟨b, -, rfl⟩ := List.mem_map.mp hx
    exact hT.int _
  | null | bool _ | int _ | float _ | dict _ | doc _ | object _ _ _ _ | stream _ _ | displayOf _
  | type _ _ => contradiction

/-- What is hereditary is true of the items of a value that it is true of. -/
theorem item {v x : Value κ} (h : T v) {key : Value.Key} (hx : v.item key = .ok x) : T x := by
  unfold Value.item at hx
  split at hx
  · rw [Value.entry] at hx
    split at hx
    · rename_i e hfind
      injection hx with hx
      exact hx ▸ hT.dict h e (List.mem_of_find?_eq_some hfind)
    · contradiction
  · contradiction
  · split at hx
    · contradiction
    · contradiction
    · rename_i hs
      split at hx
      · rename_i hget
        injection hx with hx
        exact hx ▸ hT.sequence h hs _ (List.mem_of_getElem? hget)
      · contradiction

end Hereditary

/-- The parts of a value hold nothing that the value does not hold. -/
theorem hereditary_allDocs (hP : Rule P) : Hereditary (Value.AllDocs P) where
  null := .null
  int := .int
  float := .float
  str := .str
  type := .type
  list h := by
    cases h with
    | list h => exact h
  tuple := by
    refine ⟨fun h => ?_, .tuple⟩
    cases h with
    | tuple h => exact h
  dict h := by
    cases h with
    | dict _ hvalues => exact hvalues
  object h := by
    cases h with
    | object h => exact h
  displayOf := by
    refine ⟨fun h => ?_, fun h => ?_⟩
    · cases h with
      | displayOf h => exact .doc h
    · cases h with
      | doc h => exact .displayOf h
  settled h := by
    cases h with
    | doc h => exact hP.settled h
  nodeParts h := by
    cases h with
    | doc h => exact hP.parts h

/-! ## Streams -/

/-- `P` holds of every document that can come from a source by itself. -/
def Source.AllDocs (P : Doc (Value κ) → Prop) : Source κ → Prop
  | .items rest => ∀ x ∈ rest, x.AllDocs P
  | .stream _ => True

/-- `P` holds of every document in what is left of a stream. -/
def Stream.AllDocs (P : Doc (Value κ) → Prop) : Stream κ → Prop
  | .items rest => ∀ x ∈ rest, x.AllDocs P
  | .waiting separator source => separator.AllDocs P ∧ source.AllDocs P
  | .spacing separator held source =>
    separator.AllDocs P ∧ (∀ x, held = some x → x.AllDocs P) ∧ source.AllDocs P

/-- `P` holds of every document in what is left of the streams of a session. -/
def Session.AllDocs (P : Doc (Value κ) → Prop) (s : Session κ) : Prop :=
  ∀ (handle : Nat) (stream : Stream κ), s.streams[handle]? = some stream → stream.AllDocs P

theorem allDocs_empty : (Session.empty : Session κ).AllDocs P := by
  intro handle stream h
  contradiction

theorem allDocs_source {v : Value κ} (h : v.AllDocs P) {source : Source κ}
    (hs : v.source? = some source) : source.AllDocs P := by
  cases h with
  | list hxs => injection hs with hs; exact hs ▸ hxs
  | tuple hxs => injection hs with hs; exact hs ▸ hxs
  | stream kind handle => injection hs with hs; exact hs ▸ trivial
  | str s =>
    injection hs with hs
    subst hs
    intro x hx
    obtain ⟨c, -, rfl⟩ := List.mem_map.mp hx
    exact .str _
  | bytes bs =>
    injection hs with hs
    subst hs
    intro x hx
    obtain ⟨b, -, rfl⟩ := List.mem_map.mp hx
    exact .int _
  | dict hkeys _ =>
    injection hs with hs
    subst hs
    intro x hx
    obtain ⟨e, he, rfl⟩ := List.mem_map.mp hx
    exact hkeys e he
  | null | bool _ | int _ | float _ | doc _ | object _ | displayOf _ | type _ _ => contradiction

theorem allDocs_put {s : Session κ} (hs : s.AllDocs P) (handle : Nat) {stream : Stream κ}
    (h : stream.AllDocs P) : (s.put handle stream).AllDocs P := by
  intro i other hi
  rw [Session.put, Array.getElem?_setIfInBounds] at hi
  split at hi
  · split at hi
    · injection hi with hi
      exact hi ▸ h
    · contradiction
  · exact hs i other hi

theorem Stream.AllDocs.mono {Q : Doc (Value κ) → Prop} (hPQ : ∀ d, P d → Q d) {stream : Stream κ}
    (h : stream.AllDocs P) : stream.AllDocs Q := by
  cases stream with
  | items rest => exact fun x hx => (h x hx).mono hPQ
  | waiting separator source => exact ⟨h.1.mono hPQ, h.2.mono hPQ⟩
  | spacing separator held source =>
    refine ⟨h.1.mono hPQ, fun x hx => (h.2.1 x hx).mono hPQ, ?_⟩
    cases source with
    | items rest => exact fun x hx => (h.2.2 x hx).mono hPQ
    | stream handle => trivial

theorem allDocs_opened {s : Session κ} (hs : s.AllDocs P) {stream : Stream κ}
    (h : stream.AllDocs P) : (s.opened stream).2.AllDocs P := by
  intro i other hi
  rw [Session.opened, Array.getElem?_push] at hi
  split at hi
  · injection hi with hi
    exact hi ▸ h
  · exact hs i other hi

theorem allDocs_put_done {s : Session κ} (hs : s.AllDocs P) (handle : Nat) :
    (s.put handle (.items [])).AllDocs P := allDocs_put hs handle (List.forall_mem_nil _)

/-- An answer, and the session after it, with nothing in them that breaks the rule. -/
def Answered (P : Doc (Value κ) → Prop) (answer : Session.Answer κ) (s : Session κ) : Prop :=
  s.AllDocs P ∧ ∀ v, answer = .ok (some v) → v.AllDocs P

theorem answered_nextOf {s : Session κ} (hs : s.AllDocs P) {handle : Nat} {source : Source κ}
    (hsource : source.AllDocs P)
    (older : ∀ i < handle, Answered P (s.next i).1 (s.next i).2) :
    Answered P (s.nextOf handle source).1 (s.nextOf handle source).2.2 ∧
      (s.nextOf handle source).2.1.AllDocs P := by
  cases source with
  | items rest =>
    cases rest with
    | nil =>
      rw [Session.nextOf]
      exact ⟨⟨hs, fun v hv => by simp at hv⟩, hsource⟩
    | cons x xs =>
      rw [Session.nextOf]
      have hx := List.forall_mem_cons.mp hsource
      refine ⟨⟨hs, fun v hv => ?_⟩, hx.2⟩
      injection hv with hv
      injection hv with hv
      exact hv ▸ hx.1
  | stream i =>
    rw [Session.nextOf]
    split
    · rename_i hi
      exact ⟨older i hi, trivial⟩
    · exact ⟨⟨hs, fun v hv => by simp at hv⟩, trivial⟩

/-- Reading a stream gives and leaves nothing that was not there. -/
theorem answered_next {s : Session κ} (hs : s.AllDocs P) (handle : Nat) :
    Answered P (s.next handle).1 (s.next handle).2 := by
  -- a stream reads only streams that are older
  induction handle using Nat.strongRecOn with
  | ind handle older =>
    have none_answered {s : Session κ} (hs : s.AllDocs P) : Answered P (.ok none) s :=
      ⟨hs, fun v hv => by simp at hv⟩
    have some_answered {x : Value κ} {s : Session κ} (hx : x.AllDocs P) (hs : s.AllDocs P) :
        Answered P (.ok (some x)) s := by
      refine ⟨hs, fun v hv => ?_⟩
      injection hv with hv
      injection hv with hv
      exact hv ▸ hx
    rw [Session.next]
    split
    · exact none_answered hs
    · exact none_answered hs
    · rename_i x xs hget
      have hx := List.forall_mem_cons.mp (hs handle _ hget)
      exact some_answered hx.1 (allDocs_put hs handle hx.2)
    · rename_i separator source hget
      obtain ⟨hseparator, hsource⟩ := hs handle _ hget
      split
      · exact ⟨allDocs_put_done hs handle, fun v hv => by simp at hv⟩
      · rename_i src hsrc
        have hof := answered_nextOf hs (allDocs_source hsource hsrc) older
        rw [Session.nextFirst]
        split
        · rename_i item rest after heq
          rw [heq] at hof
          exact some_answered (hof.1.2 item rfl)
            (allDocs_put hof.1.1 handle ⟨hseparator, fun x hx => by simp at hx, hof.2⟩)
        · rename_i answer rest after hne heq
          rw [heq] at hof
          exact ⟨allDocs_put_done hof.1.1 handle, hof.1.2⟩
    · rename_i separator item source hget
      obtain ⟨hseparator, hitem, hsource⟩ := hs handle _ hget
      exact some_answered (hitem item rfl)
        (allDocs_put hs handle ⟨hseparator, fun x hx => by simp at hx, hsource⟩)
    · rename_i separator source hget
      obtain ⟨hseparator, -, hsource⟩ := hs handle _ hget
      have hof := answered_nextOf hs hsource older
      split
      · rename_i item rest after heq
        rw [heq] at hof
        refine some_answered hseparator (allDocs_put hof.1.1 handle ⟨hseparator, ?_, hof.2⟩)
        intro x hx
        injection hx with hx
        exact hx ▸ hof.1.2 item rfl
      · rename_i answer rest after hne heq
        rw [heq] at hof
        exact ⟨allDocs_put_done hof.1.1 handle, hof.1.2⟩

/-! ## Reading the items of a value -/

theorem run_readStream (handle : Nat) (s : Session κ) :
    (readStream handle).run.run s = s.next handle := by
  show (ofExcept (s.next handle).1 : Effect κ _).run.run (s.next handle).2 = s.next handle
  obtain ⟨_ | read, after⟩ := s.next handle
  · rfl
  · rfl

theorem keeps_readStream (handle : Nat) :
    (readStream handle : Effect κ (Option (Value κ))).Keeps (Session.AllDocs P)
      fun read => ∀ v, read = some v → v.AllDocs P := by
  intro s read s' hs hrun
  obtain ⟨hafter, hread⟩ := answered_next hs handle
  rw [run_readStream] at hrun
  rw [hrun] at hafter hread
  exact ⟨fun v hv => hread v (congrArg Except.ok hv), hafter⟩

/-- Reading a stream to its end keeps the rule if treating one item does. -/
theorem keeps_eachOfStream {β : Type} {f : Value κ → Effect κ β} {Q : β → Prop}
    (hf : ∀ x, x.AllDocs P → (f x).Keeps (Session.AllDocs P) Q) (handle fuel : Nat) :
    (eachOfStream f handle fuel).Keeps (Session.AllDocs P) fun ys => ∀ y ∈ ys, Q y := by
  induction fuel with
  | zero => exact keeps_pure (List.forall_mem_nil _)
  | succ fuel ih =>
    rw [eachOfStream]
    refine keeps_bind (keeps_readStream handle) fun read hread => ?_
    cases read with
    | none => exact keeps_pure (List.forall_mem_nil _)
    | some v =>
      refine keeps_bind (hf v (hread v rfl)) fun y hy => ?_
      refine keeps_bind ih fun ys hys => ?_
      exact keeps_pure (List.forall_mem_cons.mpr ⟨hy, hys⟩)

/-- Treating every item of a value keeps the rule if treating one does. -/
theorem keeps_eachItem {β : Type} {f : Value κ → Effect κ β} {Q : β → Prop} (otherwise : Failure)
    {v : Value κ} (hv : v.AllDocs P)
    (hf : ∀ x, x.AllDocs P → (f x).Keeps (Session.AllDocs P) Q) :
    (eachItem otherwise v f).Keeps (Session.AllDocs P) fun ys => ∀ y ∈ ys, Q y := by
  rw [eachItem]
  split
  · exact keeps_throw otherwise
  · rename_i xs hsource
    have hxs : ∀ x ∈ xs, x.AllDocs P := allDocs_source hv hsource
    exact (keeps_mapM fun x hx => hf x (hxs x hx)).mono fun ys hys => hys.2
  · rename_i handle hsource
    intro s ys s' hs hrun
    exact keeps_eachOfStream hf handle _ s ys s' hs hrun

end DocLayout
