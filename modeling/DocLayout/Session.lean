import DocLayout.Failure

/-
  Sessions: what values share while documents are built from them.

  A stream can be read once. What is left of every stream is the state of a session, kept under
  handles; a failure ends a computation, and what it has read until then stays read. An
  interspersed stream reads its source only when it is read itself, and puts a separator before
  every item but the first. It can only read streams that are older than it is.

  The methods of objects are run by an interpreter that comes with the session.
-/

namespace DocLayout

/-- What an interspersed stream reads from. -/
inductive Source (κ : Type) where
  | items (rest : List (Value κ))
  | stream (handle : Nat)

/-- What is left of a stream. -/
inductive Stream (κ : Type) where
  /-- The items that have not been read. -/
  | items (rest : List (Value κ))
  /-- Items to be interspersed, of which none has been asked for. -/
  | waiting (separator source : Value κ)
  /-- Items being interspersed; `held` is the item that follows the separator read last. -/
  | spacing (separator : Value κ) (held : Option (Value κ)) (source : Source κ)

/-- The streams of a session by their handles. -/
structure Session (κ : Type) where
  streams : Array (Stream κ)

/-- A session without streams. -/
def Session.empty {κ : Type} : Session κ := ⟨#[]⟩

/-- A computation in a session. -/
abbrev Effect (κ : Type) := ExceptT Failure (StateM (Session κ))

/-- What it means to run the code of a method. -/
abbrev Interpreter (κ : Type) := κ → Effect κ (Value κ)

variable {κ : Type}

/-- Where the items of a value come from, if it has any: the characters of a text, the keys of a
dictionary, the numbers of bytes, the items of a sequence or of a stream. -/
def Value.source? : Value κ → Option (Source κ)
  | .list xs | .tuple xs => some (.items xs)
  | .str s => some (.items (s.toList.map fun c => .str c.toString))
  | .bytes bs => some (.items (bs.map fun b => .int b.toNat))
  | .dict entries => some (.items (entries.map (·.1)))
  | .stream _ handle => some (.stream handle)
  | _ => none

namespace Session

/-- The session with a new stream under the next handle. -/
def opened (s : Session κ) (stream : Stream κ) : Nat × Session κ :=
  (s.streams.size, ⟨s.streams.push stream⟩)

/-- The session with something else left of a stream. -/
def put (s : Session κ) (handle : Nat) (stream : Stream κ) : Session κ :=
  ⟨s.streams.setIfInBounds handle stream⟩

/-- An answer of a stream: the next item, nothing any more, or a failure. -/
abbrev Answer (κ : Type) := Except Failure (Option (Value κ))

mutual

/-- The next item of a stream. -/
def next (s : Session κ) (handle : Nat) : Answer κ × Session κ :=
  match s.streams[handle]? with
  | none => (.ok none, s)
  | some (.items []) => (.ok none, s)
  | some (.items (x :: xs)) => (.ok (some x), s.put handle (.items xs))
  | some (.waiting separator source) =>
    match source.source? with
    | none => (.error (.notIterable source.typeName), s.put handle (.items []))
    | some source => nextFirst s handle separator source
  | some (.spacing separator (some item) source) =>
    (.ok (some item), s.put handle (.spacing separator none source))
  | some (.spacing separator none source) =>
    match nextOf s handle source with
    | (.ok (some item), source, s) =>
      (.ok (some separator), s.put handle (.spacing separator (some item) source))
    | (answer, _, s) => (answer, s.put handle (.items []))
termination_by (handle, 2)

/-- The first item of an interspersed stream, which has no separator before it. -/
def nextFirst (s : Session κ) (handle : Nat) (separator : Value κ) (source : Source κ) :
    Answer κ × Session κ :=
  match nextOf s handle source with
  | (.ok (some item), source, s) =>
    (.ok (some item), s.put handle (.spacing separator none source))
  | (answer, _, s) => (answer, s.put handle (.items []))
termination_by (handle, 1)

/-- The next item of what the stream under `handle` reads from. -/
def nextOf (s : Session κ) (handle : Nat) :
    Source κ → Answer κ × Source κ × Session κ
  | .items [] => (.ok none, .items [], s)
  | .items (x :: xs) => (.ok (some x), .items xs, s)
  | .stream older =>
    if older < handle then
      let (answer, s) := next s older
      (answer, .stream older, s)
    else (.ok none, .stream older, s)
termination_by (handle, 0)

end

mutual

/-- A bound on the number of items that a stream still has. -/
def remaining (s : Session κ) (handle : Nat) : Nat :=
  match s.streams[handle]? with
  | none => 0
  | some (.items xs) => xs.length
  | some (.waiting _ source) =>
    match source.source? with
    | none => 1
    | some source => 2 * remainingOf s handle source
  | some (.spacing _ _ source) => 2 * remainingOf s handle source + 1
termination_by (handle, 1)

/-- The number of items that can still come from what the stream under `handle` reads. -/
def remainingOf (s : Session κ) (handle : Nat) : Source κ → Nat
  | .items xs => xs.length
  | .stream older => if older < handle then remaining s older else 0
termination_by (handle, 0)

end

end Session

/-- Opens a stream; the value that stands for it. -/
def openStream (kind : StreamKind) (stream : Stream κ) : Effect κ (Value κ) := do
  let (handle, s) := (← get).opened stream
  set s
  return .stream kind handle

/-- Reads the next item of a stream. -/
def readStream (handle : Nat) : Effect κ (Option (Value κ)) := do
  let (answer, s) := (← get).next handle
  set s
  ofExcept answer

/-- Reads a stream to its end and treats every item as it comes. A stream never grows, so `fuel`
items are enough if there were no more at the start. -/
def eachOfStream {β : Type} (f : Value κ → Effect κ β) (handle : Nat) :
    (fuel : Nat) → Effect κ (List β)
  | 0 => return []
  | fuel + 1 => do
    match ← readStream handle with
    | none => return []
    | some v =>
      let first ← f v
      return first :: (← eachOfStream f handle fuel)

/-- Treats every item of a value as it comes; `otherwise` is the failure for a value without
items. -/
def eachItem {β : Type} (otherwise : Failure) (v : Value κ) (f : Value κ → Effect κ β) :
    Effect κ (List β) :=
  match v.source? with
  | none => throw otherwise
  | some (.items xs) => xs.mapM f
  | some (.stream handle) => do eachOfStream f handle ((← get).remaining handle + 1)

/-- The items of a value. -/
def itemsOf (otherwise : Failure) (v : Value κ) : Effect κ (List (Value κ)) :=
  eachItem otherwise v pure

end DocLayout
