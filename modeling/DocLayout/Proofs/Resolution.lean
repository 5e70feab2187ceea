import DocLayout.Proofs.Room
import DocLayout.Proofs.Writing

/-
  Documents with their choices resolved.

  `d.Resolves r` says that `r` is what becomes of the tree of `d` when every choice in it is
  replaced by one of its two alternatives, whichever. The widths of the nodes that stay are worked
  out anew. A document with `n` choices one beside the other has two to the power of `n` resolutions;
  the flat width that it keeps in its nodes is found without looking at them.

  Proved:
  * `Doc.Resolves.wellFormed`, `Doc.Resolves.choiceFree`: a resolution of a well formed document is
    one, and has no choice left.
  * `exists_level_resolution`, `le_textLength_of_level`: the flat width is the length of the texts in
    some resolution that stands on one line, and in no such resolution are they shorter.
  * `flatWidth_minimum`: so the flat width is a minimum over all resolutions on one line, and it is
    missing exactly if there is no such resolution.
-/

namespace DocLayout

variable {α : Type}

namespace Doc

/-- A tree that comes of another one by replacing every choice by one of its alternatives. -/
inductive Resolves : Doc α → Doc α → Prop
  | text (s : String) : Resolves (.text s) (.text s)
  | horz {v : FlatWidth α} {a b ra rb : Doc α} :
    Resolves a ra → Resolves b rb → Resolves (.horzNode v a b) (.horz ra rb)
  | concat {v : FlatWidth α} {a b ra rb : Doc α} :
    Resolves a ra → Resolves b rb → Resolves (.concatNode v a b) (.concat ra rb)
  | vert {a b ra rb : Doc α} : Resolves a ra → Resolves b rb → Resolves (.vert a b) (.vert ra rb)
  | flat {v : FlatWidth α} {flat broken r : Doc α} :
    Resolves flat r → Resolves (.choiceNode v flat broken) r
  | broken {v : FlatWidth α} {flat broken r : Doc α} :
    Resolves broken r → Resolves (.choiceNode v flat broken) r
  | fullLine {a ra : Doc α} : Resolves a ra → Resolves (.fullLine a) (.fullLine ra)
  | foreign (x : α) (v : FlatWidth α) : Resolves (.foreign x v) (.foreign x v)

/-- A document with no choice in it. -/
def ChoiceFree : Doc α → Prop
  | text _ | foreign _ _ => True
  | horzNode _ a b | concatNode _ a b | vert a b => a.ChoiceFree ∧ b.ChoiceFree
  | choiceNode _ _ _ => False
  | fullLine a => a.ChoiceFree

/-- A document with no `vert` and no `fullLine` in it. -/
def Level : Doc α → Prop
  | text _ | foreign _ _ => True
  | horzNode _ a b | concatNode _ a b | choiceNode _ a b => a.Level ∧ b.Level
  | vert _ _ | fullLine _ => False

/-- The number of characters in the texts of a document. -/
def textLength : Doc α → Nat
  | text s => s.length
  | horzNode _ a b | concatNode _ a b | vert a b | choiceNode _ a b => a.textLength + b.textLength
  | fullLine a => a.textLength
  | foreign _ _ => 0

/-! ## What a resolution is -/

theorem Resolves.choiceFree {d r : Doc α} (h : d.Resolves r) : r.ChoiceFree := by
  induction h with
  | text s => trivial
  | horz _ _ iha ihb => exact ⟨iha, ihb⟩
  | concat _ _ iha ihb => exact ⟨iha, ihb⟩
  | vert _ _ iha ihb => exact ⟨iha, ihb⟩
  | flat _ ih => exact ih
  | broken _ ih => exact ih
  | fullLine _ ih => exact ih
  | foreign x v => trivial

theorem Resolves.wellFormed {d r : Doc α} (h : d.Resolves r) (hd : d.WellFormed) :
    r.WellFormed := by
  induction h with
  | text s => exact hd
  | horz _ _ iha ihb => exact ⟨rfl, iha hd.2.1, ihb hd.2.2⟩
  | concat _ _ iha ihb => exact ⟨rfl, iha hd.2.1, ihb hd.2.2⟩
  | vert _ _ iha ihb => exact ⟨iha hd.1, ihb hd.2⟩
  | flat _ ih => exact ih hd.2.1
  | broken _ ih => exact ih hd.2.2
  | fullLine _ ih => exact ih hd
  | foreign x v => exact hd.elim

end Doc

/-! ## The flat width as a minimum -/

/-- The narrower of two widths is one of them. -/
theorem narrower_eq_columns {v u : FlatWidth α} {n : Nat} (h : v.narrower u = .columns n) :
    v = .columns n ∨ u = .columns n := by
  cases v with
  | never => cases u <;> first | exact .inr h | contradiction
  | claimed x => cases u <;> first | exact .inr h | contradiction
  | columns m =>
    cases u with
    | never => exact .inl h
    | claimed x => exact .inl h
    | columns k =>
      injection h with h
      rcases Nat.le_total m k with hle | hle
      · exact .inl (by rw [← h, Nat.min_eq_left hle])
      · exact .inr (by rw [← h, Nat.min_eq_right hle])

variable {d : Doc α}

/-- A flat width is the length of the texts in some resolution that stands on one line. -/
theorem exists_level_resolution (hd : d.WellFormed) {n : Nat} (hn : d.flatWidth = .columns n) :
    ∃ r, d.Resolves r ∧ r.Level ∧ r.textLength = n := by
  induction d generalizing n with
  | text s =>
    injection hn with hn
    exact ⟨.text s, .text s, trivial, hn⟩
  | horzNode v a b iha ihb =>
    obtain ⟨m, k, hm, hk, rfl⟩ := add_eq_columns (hd.1.symm.trans hn)
    obtain ⟨ra, hra, hla, rfl⟩ := iha hd.2.1 hm
    obtain ⟨rb, hrb, hlb, rfl⟩ := ihb hd.2.2 hk
    exact ⟨.horz ra rb, .horz hra hrb, ⟨hla, hlb⟩, rfl⟩
  | concatNode v a b iha ihb =>
    obtain ⟨m, k, hm, hk, rfl⟩ := add_eq_columns (hd.1.symm.trans hn)
    obtain ⟨ra, hra, hla, rfl⟩ := iha hd.2.1 hm
    obtain ⟨rb, hrb, hlb, rfl⟩ := ihb hd.2.2 hk
    exact ⟨.concat ra rb, .concat hra hrb, ⟨hla, hlb⟩, rfl⟩
  | vert a b iha ihb => contradiction
  | choiceNode v flat broken ihf ihb =>
    -- the alternative that the width was taken from has the resolution
    rcases narrower_eq_columns (hd.1.symm.trans hn) with hflat | hbroken
    · obtain ⟨r, hr, hl, hlength⟩ := ihf hd.2.1 hflat
      exact ⟨r, .flat hr, hl, hlength⟩
    · obtain ⟨r, hr, hl, hlength⟩ := ihb hd.2.2 hbroken
      exact ⟨r, .broken hr, hl, hlength⟩
  | fullLine a ih => contradiction
  | foreign x v => exact hd.elim

/-- A document with a resolution on one line has a flat width, and it is no greater than the length
of the texts there. -/
theorem le_textLength_of_level {r : Doc α} (hd : d.WellFormed) (h : d.Resolves r) (hl : r.Level) :
    ∃ n, d.flatWidth = .columns n ∧ n ≤ r.textLength := by
  induction h with
  | text s => exact ⟨s.length, rfl, Nat.le_refl _⟩
  | horz _ _ iha ihb =>
    obtain ⟨m, hm, hlea⟩ := iha hd.2.1 hl.1
    obtain ⟨k, hk, hleb⟩ := ihb hd.2.2 hl.2
    refine ⟨m + k, ?_, Nat.add_le_add hlea hleb⟩
    rw [Doc.flatWidth, hd.1, hm, hk]
    rfl
  | concat _ _ iha ihb =>
    obtain ⟨m, hm, hlea⟩ := iha hd.2.1 hl.1
    obtain ⟨k, hk, hleb⟩ := ihb hd.2.2 hl.2
    refine ⟨m + k, ?_, Nat.add_le_add hlea hleb⟩
    rw [Doc.flatWidth, hd.1, hm, hk]
    rfl
  | vert _ _ _ _ => exact hl.elim
  | flat _ ih =>
    obtain ⟨m, hm, hle⟩ := ih hd.2.1 hl
    obtain ⟨n, hn, hmin⟩ := narrower_le_left m hd.2.2.settled
    exact ⟨n, by rw [Doc.flatWidth, hd.1, hm, hn], Nat.le_trans hmin hle⟩
  | broken _ ih =>
    obtain ⟨m, hm, hle⟩ := ih hd.2.2 hl
    obtain ⟨n, hn, hmin⟩ := narrower_le_right m hd.2.1.settled
    exact ⟨n, by rw [Doc.flatWidth, hd.1, hm, hn], Nat.le_trans hmin hle⟩
  | fullLine _ _ => exact hl.elim
  | foreign x v => exact hd.elim

/-- The flat width of a document is the least number of characters that its texts come to when
every choice is resolved so that all of it stands on one line. It has none exactly if no resolution
stands on one line. -/
theorem flatWidth_minimum (hd : d.WellFormed) :
    (∀ n, d.flatWidth = .columns n ↔
      (∃ r, d.Resolves r ∧ r.Level ∧ r.textLength = n) ∧
        ∀ r, d.Resolves r → r.Level → n ≤ r.textLength) ∧
    (d.flatWidth = .never ↔ ¬ ∃ r, d.Resolves r ∧ r.Level) := by
  constructor
  · intro n
    constructor
    · intro hn
      refine ⟨exists_level_resolution hd hn, ?_⟩
      intro r hr hl
      obtain ⟨m, hm, hle⟩ := le_textLength_of_level hd hr hl
      rw [hn] at hm
      injection hm with hm
      omega
    · rintro ⟨⟨r, hr, hl, hlength⟩, hleast⟩
      obtain ⟨m, hm, hle⟩ := le_textLength_of_level hd hr hl
      obtain ⟨least, hleastr, hleastl, hattained⟩ := exists_level_resolution hd hm
      have hnm := hleast least hleastr hleastl
      rw [hm, FlatWidth.columns.injEq]
      omega
  · constructor
    · rintro hnever ⟨r, hr, hl⟩
      obtain ⟨n, hn, -⟩ := le_textLength_of_level hd hr hl
      rw [hnever] at hn
      contradiction
    · intro hnone
      have hsettled := hd.settled
      cases hw : d.flatWidth with
      | never => rfl
      | columns n =>
        obtain ⟨r, hr, hl, -⟩ := exists_level_resolution hd hw
        exact absurd ⟨r, hr, hl⟩ hnone
      | claimed x =>
        rw [hw] at hsettled
        exact hsettled.elim

/-- Two choices side by side. The first one has a flat alternative of two lines, so its width is that
of the broken one; the second one is narrower broken than flat. -/
def mixedPair : Doc Empty :=
  .horz (.choice (.vert (.text "a") (.text "b")) (.text "cc")) (.choice (.text "ddd") (.text "e"))

theorem flatWidth_minimum_mixedPair :
    mixedPair.WellFormed ∧ mixedPair.flatWidth = .columns 3 ∧
    (∃ r, mixedPair.Resolves r ∧ r.Level ∧ r.textLength = 3) ∧
    (∀ r, mixedPair.Resolves r → r.Level → 3 ≤ r.textLength) ∧
    ¬ mixedPair.flatWidth = .never := by
  have unbroken : ∀ s ∈ ["a", "b", "cc", "ddd", "e"], Text.Unbroken s := by decide
  have hd : mixedPair.WellFormed :=
    ⟨rfl, ⟨rfl, ⟨unbroken "a" (by simp), unbroken "b" (by simp)⟩, unbroken "cc" (by simp)⟩, rfl,
      unbroken "ddd" (by simp), unbroken "e" (by simp)⟩
  obtain ⟨hleast, hnever⟩ := flatWidth_minimum hd
  obtain ⟨⟨r, hr, hl, hlength⟩, hle⟩ := (hleast 3).mp rfl
  exact ⟨hd, rfl, ⟨r, hr, hl, hlength⟩, hle, fun h => hnever.mp h ⟨r, hr, hl⟩⟩

end DocLayout
