import PuzzleKit.Proofs.Reading

/-!
# Compact text reads back as its tree

`SExpr.parse` of `Tree.render t` succeeds and gives the same program as `t`, the same bytes at
every atom and the same pairs, for every tree in which no atom is written with a final
newline (`parse_render_same`). The proof follows the tree: the text of each atom and of each
list, followed by a character that ends its last run, scans to tokens (`Scans`) that the
reader turns back into the part (`Reads`, `ReadsTail`).

The condition cannot be dropped. A symbol that is bare up to one final newline, such as `a`
followed by a newline, is written bare, newline included; the reader takes the newline for a
blank and reads the symbol `a` (`parse_render_newline_symbol`).
-/

namespace PuzzleKit

namespace Tree

/-- Whether some atom of a tree is written with a final newline, which only a symbol that is
bare up to that newline can be. -/
def hasNewlineAtom : Tree → Bool
  | .atom b h => (renderAtom b h).toList.getLast? == some '\n'
  | .cons f r => f.hasNewlineAtom || r.hasNewlineAtom

theorem renderWith_cons (f r : Tree) :
    renderWith renderAtom (.cons f r) =
      "(" ++ renderWith renderAtom f ++ renderTail renderAtom r ++ ")" := by
  cases f <;> rfl

end Tree

namespace SExpr

/-- The text of a part: it starts with a character that is no blank, and it scans, before any
character that is no atom character, to tokens that read back as the part. -/
def TextReads (t : Tree) : Prop :=
  (∃ c cs, (Tree.renderWith renderAtom t).toList = c :: cs ∧ Text.isBlank c = false) ∧
    ∃ ks, Scans (fun c => !isAtomChar c) (Tree.renderWith renderAtom t).toList ks ∧ Reads ks t

/-- The text of the rest of a list with its closing parenthesis: it starts with a space or
the parenthesis, and it scans to tokens that close the list with the tail `t`. -/
def TailReads (t : Tree) : Prop :=
  (∃ cs, (Tree.renderTail renderAtom t ++ ")").toList = ' ' :: cs ∨
    (Tree.renderTail renderAtom t ++ ")").toList = ')' :: cs) ∧
    ∃ ks, Scans (fun _ => true) (Tree.renderTail renderAtom t ++ ")").toList ks ∧ ReadsTail ks t

theorem not_isAtomChar_of_start {c : Char} {cs : List Char} (h : c = ' ' ∨ c = ')') :
    ∀ d ∈ (c :: cs).head?, (!isAtomChar d) = true := by
  intro d hd
  cases hd
  rcases h with rfl | rfl <;> decide

theorem atomText_reads {b : List UInt8} {x : String} (ha : AtomText b x) (h : Hint) :
    (∃ c cs, x.toList = c :: cs ∧ Text.isBlank c = false) ∧
      ∃ ks, Scans (fun c => !isAtomChar c) x.toList ks ∧ Reads ks (.atom b h) := by
  cases ha with
  | empty hb =>
    subst hb
    refine ⟨⟨'(', [')'], rfl, by decide⟩, _, ?_, reads_empty h⟩
    exact (scans_opening.append scans_closing (by simp) (by simp)).mono (fun _ _ => rfl)
  | word hne hw hdot hat =>
    obtain ⟨c, cs, hcs⟩ := List.exists_cons_of_ne_nil hne
    have hc := hw c (by simp [hcs])
    refine ⟨⟨c, cs, hcs, ?_⟩, _, ?_, reads_word hdot hat h⟩
    · simp only [isAtomChar, Bool.and_eq_true, Bool.not_eq_true'] at hc
      exact hc.1.1.1.1.1.1.1
    · have hs := scans_word hne hw
      rwa [String.ofList_toList] at hs
  | quoted hu =>
    subst hu
    exact ⟨⟨'"', _, toList_quote _, by decide⟩, _, (scans_quote _).mono (fun _ _ => rfl),
      reads_quote _ h⟩

theorem textReads_atom {b : List UInt8} {h : Hint} (hn : (Tree.atom b h).hasNewlineAtom = false) :
    TextReads (.atom b h) := by
  have hl : (renderAtom b h).toList.getLast? ≠ some '\n' := by
    simpa [Tree.hasNewlineAtom] using hn
  exact atomText_reads (atomText_renderAtom b h hl) h

theorem tailReads_atom {b : List UInt8} {h : Hint} (hn : (Tree.atom b h).hasNewlineAtom = false) :
    TailReads (.atom b h) := by
  by_cases hb : b.isEmpty
  · -- the list ends without a dot
    have hnil : b = [] := List.isEmpty_iff.mp hb
    subst hnil
    have ht : (Tree.renderTail renderAtom (.atom [] h) ++ ")").toList = [')'] := by
      simp [Tree.renderTail]
    rw [TailReads, ht]
    exact ⟨⟨[], .inr rfl⟩, _, scans_closing, readsTail_nil h⟩
  · -- a space, the dot, a space, the atom, and the parenthesis
    obtain ⟨⟨c, cs, hcs, hc⟩, ks, hscan, hread⟩ := textReads_atom hn
    have ht : (Tree.renderTail renderAtom (.atom b h) ++ ")").toList =
        [' '] ++ ['.'] ++ [' '] ++ (Tree.renderWith renderAtom (.atom b h)).toList ++ [')'] := by
      simp [Tree.renderTail, Tree.renderWith, hb]
    have hdot : Scans (fun c => !isAtomChar c) ['.'] [(.atom, ".")] :=
      scans_word (by simp) (List.all_eq_true.mp (by decide))
    have hj : ∀ (s : Char → Bool) (d : Char), s d = true → ∀ c ∈ [d].head?, s c = true :=
      fun _ _ hd c hc => by
        cases hc
        exact hd
    have hs := ((((scans_space.append hdot (by simp) (hj _ _ (by decide))).append scans_space
      (by simp) (hj _ _ (by decide))).append hscan (by simp [hcs]) (by simp [hcs, hc])).append
      scans_closing (by simp) (hj _ _ (by decide)))
    refine ⟨⟨_, .inl (by rw [ht]; rfl)⟩, _, ?_, readsTail_dot hread⟩
    rw [ht]
    simpa using hs

theorem textReads_cons {f r : Tree} (hf : TextReads f) (hr : TailReads r) :
    TextReads (.cons f r) := by
  obtain ⟨⟨c, cs, hcs, -⟩, ks₁, hs₁, hr₁⟩ := hf
  obtain ⟨⟨ds, hds⟩, ks₂, hs₂, hr₂⟩ := hr
  have ht : (Tree.renderWith renderAtom (.cons f r)).toList =
      ['('] ++ (Tree.renderWith renderAtom f).toList ++
        (Tree.renderTail renderAtom r ++ ")").toList := by
    simp [Tree.renderWith_cons]
  have hstart : ∀ d ∈ (Tree.renderTail renderAtom r ++ ")").toList.head?,
      (!isAtomChar d) = true := by
    rcases hds with h | h <;> rw [h] <;> exact not_isAtomChar_of_start (by simp)
  have hne : (Tree.renderTail renderAtom r ++ ")").toList ≠ [] := by
    rcases hds with h | h <;> simp [h]
  have hs := (scans_opening.append hs₁ (by simp [hcs]) (by simp)).append hs₂ hne hstart
  refine ⟨⟨'(', _, by rw [ht]; rfl, by decide⟩, _, ?_, reads_cons hr₁ hr₂⟩
  rw [ht]
  simpa using hs.mono (fun _ _ => rfl)

theorem tailReads_cons {f r : Tree} (hf : TextReads f) (hr : TailReads r) :
    TailReads (.cons f r) := by
  obtain ⟨⟨c, cs, hcs, hc⟩, ks₁, hs₁, hr₁⟩ := hf
  obtain ⟨⟨ds, hds⟩, ks₂, hs₂, hr₂⟩ := hr
  have ht : (Tree.renderTail renderAtom (.cons f r) ++ ")").toList =
      [' '] ++ (Tree.renderWith renderAtom f).toList ++
        (Tree.renderTail renderAtom r ++ ")").toList := by
    simp [Tree.renderTail]
  have hstart : ∀ d ∈ (Tree.renderTail renderAtom r ++ ")").toList.head?,
      (!isAtomChar d) = true := by
    rcases hds with h | h <;> rw [h] <;> exact not_isAtomChar_of_start (by simp)
  have hne : (Tree.renderTail renderAtom r ++ ")").toList ≠ [] := by
    rcases hds with h | h <;> simp [h]
  have hs := (scans_space.append hs₁ (by simp [hcs]) (by simp [hcs, hc])).append hs₂ hne hstart
  refine ⟨⟨_, .inl (by rw [ht]; rfl)⟩, _, ?_, readsTail_cons hr₁ hr₂⟩
  rw [ht]
  simpa using hs

/-- Every part and every list tail of a tree with no newline atom reads back from its text,
by induction on the tree. -/
theorem textReads_of_hasNewlineAtom (t : Tree) (hn : t.hasNewlineAtom = false) :
    TextReads t ∧ TailReads t := by
  induction t with
  | atom b h => exact ⟨textReads_atom hn, tailReads_atom hn⟩
  | cons f r ihf ihr =>
    simp only [Tree.hasNewlineAtom, Bool.or_eq_false_iff] at hn
    have hf := (ihf hn.1).1
    have hr := (ihr hn.2).2
    exact ⟨textReads_cons hf hr, tailReads_cons hf hr⟩

/-- The reader a text starts with. -/
def Reader.initial : Reader := ⟨⟨[], none, Pos.start, [], false⟩, [], [], {}⟩

theorem parse_of_feedAll {s : String} (el : Noted) (rm : Remarks)
    (hfault : (scan s).2 = none)
    (hfeed : Reader.initial.feedAll (scan s).1 = .ok (Reader.initial.push el rm)) :
    parse s = .ok el.tree := by
  have hs : scan s = ((scan s).1, none) := Prod.ext rfl hfault
  unfold parse readOne readAll
  rw [hs]
  dsimp only
  simp only [Reader.initial] at hfeed
  rw [hfeed]
  rfl

/-- Compact text reads back as the tree it was written from, the same bytes at every atom and
the same pairs, whenever no atom of the tree is written with a final newline. -/
theorem parse_render_same (t : Tree) (hn : t.hasNewlineAtom = false) :
    ∃ u, parse t.render = .ok u ∧ u.same t = true := by
  obtain ⟨-, ks, hscan, hread⟩ := (textReads_of_hasNewlineAtom t hn).1
  have hr : t.render.toList = (Tree.renderWith renderAtom t).toList := by
    rw [Tree.render, Tree.renderOnto_eq, String.empty_append]
  obtain ⟨ts, p', hk, hsolid, hfault⟩ := hscan [] Pos.start (by simp)
  have hend : scanFrom [] .idle p' = ([], none) := rfl
  simp only [List.append_nil, hend, solid, List.filter_nil] at hsolid hfault
  have hplain : Reader.initial.Plain := ⟨rfl, by simp [Reader.initial]⟩
  have hopen : Reader.initial.Open := by
    intro d hd
    simp [Reader.initial, Reader.current] at hd
  obtain ⟨el, rm, hsame, hfeed⟩ := hread Reader.initial ts [] hplain hopen hk
  refine ⟨el.tree, parse_of_feedAll el rm ?_ ?_, hsame⟩
  · rw [scan, hr, hfault]
  · rw [← feedAll_solid, scan, hr]
    unfold solid
    rw [hsolid, ← List.append_nil ts, hfeed]
    rfl

/-- A list of a bare symbol, a quoted text and a negative integer reads back from its text. -/
theorem parse_render_same_mixed_list :
    (Tree.ofList [Tree.symbol "ab", Tree.string "hi there", Tree.ofInt (-5)] Tree.nil).hasNewlineAtom =
        false ∧
      ∃ u, parse (Tree.ofList [Tree.symbol "ab", Tree.string "hi there", Tree.ofInt (-5)]
        Tree.nil).render = .ok u ∧
        u.same (Tree.ofList [Tree.symbol "ab", Tree.string "hi there", Tree.ofInt (-5)] Tree.nil) =
          true :=
  ⟨by decide +kernel, parse_render_same _ (by decide +kernel)⟩

/-- A symbol that is bare up to a final newline is written with that newline, and reads back
without it. -/
theorem parse_render_newline_symbol :
    (Tree.symbol "a\n").hasNewlineAtom = true ∧
      (parse (Tree.symbol "a\n").render).toOption = some (Tree.symbol "a") ∧
      (Tree.symbol "a").same (Tree.symbol "a\n") = false := by
  refine ⟨by decide +kernel, by decide +kernel, by decide +kernel⟩

end SExpr

end PuzzleKit
