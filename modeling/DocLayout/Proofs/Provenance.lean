import DocLayout.Proofs.Calls
import DocLayout.Proofs.Composition
import DocLayout.Proofs.Safety
import Mathlib

/-
  Where documents come from.

  A bench is a session together with the documents that calls have returned in it. A step on a bench
  makes one more document by a call, or opens one more stream. The arguments of the call and the items
  of the stream may be any values, as long as no document is found in them that was not made on the
  bench before. So no node is ever put together by hand, and what a caller does between two calls is
  left open. What the methods of objects do is up to the interpreter.

  A document is composed if some steps make it whatever the methods of objects do.

  Proved:
  * `makes_call`: every call makes well formed documents of well formed ones.
  * `wellFormed_step`, `wellFormed_reached`: so does a step, and with it a series of steps.
  * `makeable_of_wellFormed`: every well formed document can be made on every bench.
  * `composed_wellFormed`: composed documents are the well formed ones, and where methods return
    composed documents too, whatever is made can be laid out on every page.
-/

namespace DocLayout

variable {κ : Type}

/-- A session with the documents that were made in it, the last one first. -/
structure Bench (κ : Type) where
  session : Session κ
  made : List (Doc (Value κ))

namespace Bench

/-- A bench on which nothing has been made. -/
def empty : Bench κ := ⟨.empty, []⟩

/-- One more stream, or one more document by a call that returns. Nothing but documents that were
made before goes into either. -/
inductive Step (run : Interpreter κ) : Bench κ → Bench κ → Prop
  | opened {b : Bench κ} (stream : Stream κ) (hstream : stream.AllDocs (· ∈ b.made)) :
    Step run b ⟨(b.session.opened stream).2, b.made⟩
  | made {b : Bench κ} (c : Call κ) (harguments : ∀ v ∈ c.arguments, v.AllDocs (· ∈ b.made))
    {d : Doc (Value κ)} {after : Session κ}
    (hreturns : (c.perform run).run.run b.session = (.ok d, after)) :
    Step run b ⟨after, d :: b.made⟩

/-- Any number of steps. -/
abbrev Reaches (run : Interpreter κ) : Bench κ → Bench κ → Prop := Relation.ReflTransGen (Step run)

/-- A bench with nothing but well formed documents on it. -/
structure WellFormed (b : Bench κ) : Prop where
  session : b.session.AllDocs Doc.WellFormed
  made : ∀ d ∈ b.made, d.WellFormed

end Bench

/-- A document that some steps make, whatever the methods of objects do. -/
def Doc.Composed (d : Doc (Value κ)) : Prop :=
  ∀ run : Interpreter κ, ∃ b, Bench.empty.Reaches run b ∧ d ∈ b.made

/-! ## Calls make well formed documents -/

variable {run : Interpreter κ}

theorem makes_choice (hrun : Heeds Doc.WellFormed run) {flat broken : Value κ}
    (hflat : flat.AllDocs Doc.WellFormed) (hbroken : broken.AllDocs Doc.WellFormed) :
    Makes Doc.WellFormed (Build.choice run flat broken) := by
  refine keeps_bind (makes_cast rule_wellFormed hrun hflat) fun a ha => ?_
  refine keeps_bind (makes_cast rule_wellFormed hrun hbroken) fun b hb => ?_
  rw [Join.choice_settled ha.settled hb.settled]
  exact keeps_pure ⟨rfl, ha, hb⟩

/-- Every way of making a document makes well formed documents of well formed ones. -/
theorem makes_call (hrun : Heeds Doc.WellFormed run) {c : Call κ}
    (h : ∀ v ∈ c.arguments, v.AllDocs Doc.WellFormed) : Makes Doc.WellFormed (c.perform run) := by
  by_cases hc : c.IsChoice
  · cases c with
    | choice flat broken =>
      exact makes_choice hrun (h flat (by simp [Call.arguments])) (h broken (by simp [Call.arguments]))
    | _ => exact hc.elim
  · exact makes_perform rule_wellFormed hrun hc h

/-! ## Benches stay well formed -/

theorem wellFormed_empty : (Bench.empty : Bench κ).WellFormed :=
  ⟨allDocs_empty, List.forall_mem_nil _⟩

/-- A step leaves nothing but well formed documents on a bench. -/
theorem wellFormed_step (hrun : Heeds Doc.WellFormed run) {b b' : Bench κ} (h : b.Step run b')
    (hb : b.WellFormed) : b'.WellFormed := by
  cases h with
  | opened stream hstream =>
    exact ⟨allDocs_opened hb.session (hstream.mono hb.made), hb.made⟩
  | made c harguments hreturns =>
    have hmakes := makes_call hrun fun v hv => (harguments v hv).mono hb.made
    obtain ⟨hd, hafter⟩ := hmakes _ _ _ hb.session hreturns
    exact ⟨hafter, List.forall_mem_cons.mpr ⟨hd, hb.made⟩⟩

/-- Whatever is reached by steps has nothing but well formed documents on it. -/
theorem wellFormed_reached (hrun : Heeds Doc.WellFormed run) {b b' : Bench κ}
    (h : b.Reaches run b') (hb : b.WellFormed) : b'.WellFormed := by
  induction h with
  | refl => exact hb
  | tail _ hstep ih => exact wellFormed_step hrun hstep ih

/-! ## Every well formed document can be made -/

/-- A document that some steps add to a bench. -/
def Makeable (run : Interpreter κ) (b : Bench κ) (d : Doc (Value κ)) : Prop :=
  ∃ b', b.Reaches run b' ∧ (∀ e ∈ b.made, e ∈ b'.made) ∧ d ∈ b'.made

/-- A call that needs nothing but what is on the bench makes its document there. -/
theorem makeable_call {b : Bench κ} {c : Call κ}
    (harguments : ∀ v ∈ c.arguments, v.AllDocs (· ∈ b.made)) {d : Doc (Value κ)}
    (h : c.perform run = pure d) : Makeable run b d := by
  refine ⟨⟨b.session, d :: b.made⟩, .single (.made c harguments ?_),
    fun e he => List.mem_cons_of_mem d he, List.mem_cons_self⟩
  rw [h]
  rfl

/-- What can be made where another document has been made can be made after it. -/
theorem Makeable.andThen {b : Bench κ} {d e : Doc (Value κ)} (hd : Makeable run b d)
    (he : ∀ b', (∀ x ∈ b.made, x ∈ b'.made) → d ∈ b'.made → Makeable run b' e) :
    Makeable run b e := by
  obtain ⟨b', hreach, hkept, hmade⟩ := hd
  obtain ⟨b'', hreach', hkept', hmade'⟩ := he b' hkept hmade
  exact ⟨b'', hreach.trans hreach', fun x hx => hkept' x (hkept x hx), hmade'⟩

/-- Two documents can be made one after the other, and then what a call makes of both. -/
theorem makeable_pair {a b e : Doc (Value κ)} (ha : ∀ x, Makeable run x a)
    (hb : ∀ x, Makeable run x b) {c : Call κ} (harguments : c.arguments = [.doc a, .doc b])
    (h : c.perform run = pure e) (x : Bench κ) : Makeable run x e := by
  refine (ha x).andThen fun y _ hay => (hb y).andThen fun z hkept hbz => makeable_call ?_ h
  rw [harguments]
  simp only [List.forall_mem_cons]
  exact ⟨.doc (hkept a hay), .doc hbz, List.forall_mem_nil _⟩

theorem choice_docs {flat broken : Doc (Value κ)} (hflat : flat.WellFormed)
    (hbroken : broken.WellFormed) :
    Build.choice run (.doc flat) (.doc broken) = pure (.choice flat broken) := by
  rw [Build.choice, Build.cast_doc, Build.cast_doc, pure_bind, pure_bind,
    Join.choice_settled hflat.settled hbroken.settled]
  rfl

/-- Every well formed document can be made on every bench, part by part. -/
theorem makeable_of_wellFormed {d : Doc (Value κ)} (hd : d.WellFormed) (b : Bench κ) :
    Makeable run b d := by
  induction d generalizing b with
  | text s =>
    refine makeable_call (c := .text (.str s)) (List.forall_mem_singleton.mpr (.str s)) ?_
    rw [Call.perform, Value.toText, ofText_unbroken hd]
    rfl
  | horzNode v first second ih₁ ih₂ =>
    obtain ⟨rfl, h₁, h₂⟩ := hd
    exact makeable_pair (ih₁ h₁) (ih₂ h₂) (c := .horz [.doc first, .doc second]) rfl
      (horz_docs run h₁ h₂) b
  | concatNode v first second ih₁ ih₂ =>
    obtain ⟨rfl, h₁, h₂⟩ := hd
    exact makeable_pair (ih₁ h₁) (ih₂ h₂) (c := .concat [.doc first, .doc second]) rfl
      (concat_docs run h₁ h₂) b
  | vert first second ih₁ ih₂ =>
    exact makeable_pair (ih₁ hd.1) (ih₂ hd.2) (c := .vert [.doc first, .doc second]) rfl
      (vert_docs run) b
  | choiceNode v flat broken ih₁ ih₂ =>
    obtain ⟨rfl, h₁, h₂⟩ := hd
    exact makeable_pair (ih₁ h₁) (ih₂ h₂) (c := .choice (.doc flat) (.doc broken)) rfl
      (choice_docs h₁ h₂) b
  | fullLine a ih =>
    refine (ih hd b).andThen fun b' _ ha => makeable_call (c := .fullLine (.doc a)) ?_ rfl
    exact List.forall_mem_singleton.mpr (.doc ha)
  | foreign x w => exact hd.elim

/-- The composed documents are the well formed ones. -/
theorem composed_iff {d : Doc (Value κ)} : d.Composed ↔ d.WellFormed := by
  constructor
  · intro h
    obtain ⟨b, hreach, hd⟩ := h fun _ => throw .noWidth
    exact (wellFormed_reached (fun _ => keeps_throw _) hreach wellFormed_empty).made d hd
  · intro h run
    obtain ⟨b, hreach, -, hd⟩ := makeable_of_wellFormed h Bench.empty
    exact ⟨b, hreach, hd⟩

/-! ## What is made can be laid out -/

/-- The composed documents are the trees of the six kinds of node whose texts hold no boundary and
whose widths are what their parts give. Where every method returns composed documents, each document
that any steps make is one. So no layout of it meets a foreign leaf, and it is shown as one line or
more on a page of any number of columns. -/
theorem composed_wellFormed :
    (∀ d : Doc (Value κ), d.Composed ↔ d.WellFormed) ∧
    ∀ run : Interpreter κ, Heeds Doc.Composed run →
      ∀ b : Bench κ, Bench.empty.Reaches run b → ∀ d ∈ b.made,
        d.WellFormed ∧
        (∀ (canvas : Canvas) (indent column : Int) (margin : Margin (Value κ)) (x : Value κ),
          (d.layOut canvas indent column margin).2 ≠ .error (.foreign x)) ∧
        ∀ w : Int, ∃ lines, Page.display run (.doc d) (.int w) = pure lines ∧ lines ≠ [] := by
  refine ⟨fun d => composed_iff, ?_⟩
  intro run hrun b hreach d hd
  have hsame : Doc.Composed (κ := κ) = Doc.WellFormed := funext fun d => propext composed_iff
  rw [hsame] at hrun
  have hwf : d.WellFormed := (wellFormed_reached hrun hreach wellFormed_empty).made d hd
  refine ⟨hwf, ?_, ?_⟩
  · intro canvas indent column margin x h
    obtain ⟨⟨e, he⟩, -⟩ := layOut_error hwf h
    contradiction
  · intro w
    obtain ⟨lines, hlines⟩ : ∃ lines, d.display (.ofValue (.int w)) = .ok lines :=
      exists_display hwf trivial
    refine ⟨lines, ?_, display_ne_nil hlines⟩
    rw [display_doc, Doc.lines, hlines]
    rfl

/-- Every object makes the same document of itself. -/
def nameTag : Interpreter Unit := fun _ => return .doc (.text "name")

/-- A text and an object, to be read once, with a comma between them. -/
def tagStream : Stream Unit :=
  .waiting (.str ",") (.list [.str "a", .object "Tag" "<tag>" [] (some ())])

/-- What is read from that stream, on top of each other. -/
def tagList : Doc (Value Unit) := .vert (.vert (.text "a") (.text ",")) (.text "name")

theorem reaches_tagList : ∃ b, Bench.empty.Reaches nameTag b ∧ tagList ∈ b.made := by
  have opened : Bench.empty.Step nameTag ⟨(Session.empty.opened tagStream).2, []⟩ := by
    refine .opened tagStream ⟨.str _, .list ?_⟩
    simp only [List.forall_mem_cons]
    exact ⟨.str _, .object (List.forall_mem_nil _), List.forall_mem_nil _⟩
  have returns : (((Call.vertList (.stream .generator 0)).perform nameTag).run.run
      (Session.empty.opened tagStream).2).1 = .ok tagList := by cbv
  have made := Bench.Step.made (b := ⟨(Session.empty.opened tagStream).2, []⟩)
    (.vertList (.stream .generator 0)) (List.forall_mem_singleton.mpr (.stream _ _))
    (Prod.ext returns rfl)
  exact ⟨_, .tail (.single opened) made, List.mem_cons_self⟩

theorem composed_wellFormed_tagList :
    Heeds Doc.Composed nameTag ∧
    (∃ b, Bench.empty.Reaches nameTag b ∧ tagList ∈ b.made) ∧
    tagList.WellFormed ∧
    (∀ (canvas : Canvas) (indent column : Int) (margin : Margin (Value Unit)) (x : Value Unit),
      (tagList.layOut canvas indent column margin).2 ≠ .error (.foreign x)) ∧
    ∀ w : Int, ∃ lines, Page.display nameTag (.doc tagList) (.int w) = pure lines ∧ lines ≠ [] := by
  obtain ⟨composed, reached⟩ := composed_wellFormed (κ := Unit)
  have name : (Doc.text "name" : Doc (Value Unit)).WellFormed := by
    show Text.Unbroken "name"
    decide
  have hrun : Heeds Doc.Composed nameTag := fun _ => keeps_pure (.doc ((composed _).mpr name))
  obtain ⟨b, hreach, hd⟩ := reaches_tagList
  exact ⟨hrun, ⟨b, hreach, hd⟩, reached nameTag hrun b hreach tagList hd⟩

end DocLayout
