import PuzzleKit.Proofs.TokenKinds
import PuzzleKit.Tree.Layout

/-!
# Indented text reads as compact text

The indented layout writes a part on one line, or opens its list on a line of its own and puts
every other element on lines below it. Remarks take lines of their own, and the closing
parenthesis ends the last line. Joined by line breaks, the lines scan to the tokens of the
compact text, remark lines aside, and the remark lines read as the remarks of the parts the
layout writes (`Style.block_reads`). The induction follows the layout
itself: a part, then the elements of its list after those on its first line (`Style.chain`).

Two things can break this, and the theorem excludes both. A remark with a line break in it
puts the rest of the remark on a line of its own, where it is read as code. And with operators
written by name, an atom that carries a remark and stands first in a list is written as any
atom is, not by its operator name.
-/

namespace PuzzleKit.SExpr

theorem intercalate_append {A B : List String} (hA : A ≠ []) (hB : B ≠ []) :
    "\n".intercalate (A ++ B) = "\n".intercalate A ++ "\n" ++ "\n".intercalate B := by
  induction A with
  | nil => exact absurd rfl hA
  | cons a A ih =>
    cases A with
    | nil =>
      obtain ⟨b, B, rfl⟩ := List.exists_cons_of_ne_nil hB
      simp [String.intercalate_cons_cons]
    | cons a' A =>
      rw [List.cons_append, List.cons_append, String.intercalate_cons_cons, ← List.cons_append,
        ih (by simp), String.intercalate_cons_cons]
      simp [String.append_assoc]

theorem intercalate_closeLast {L : List String} (hL : L ≠ []) :
    "\n".intercalate (Style.closeLast L) = "\n".intercalate L ++ ")" := by
  obtain ⟨init, last, rfl⟩ : ∃ init last, L = init ++ [last] :=
    ⟨L.dropLast, L.getLast hL, (List.dropLast_append_getLast hL).symm⟩
  have hc : Style.closeLast (init ++ [last]) = init ++ [last ++ ")"] := by
    simp [Style.closeLast]
  rw [hc]
  by_cases hi : init = []
  · subst hi
    simp
  · rw [intercalate_append hi (by simp), intercalate_append hi (by simp)]
    simp [String.append_assoc]

theorem closeLast_ne_nil (L : List String) : Style.closeLast L ≠ [] := by
  unfold Style.closeLast
  split <;> simp

/-- The texts of the remarks among tokens, as the reader keeps them: the `;` dropped and the
text trimmed. -/
def remarksOf (ks : List (Group × String)) : List String :=
  ks.filterMap fun k =>
    if k.1 = .remark then some (Text.trim (String.ofList (k.2.toList.drop 1))) else none

theorem remarksOf_append (ks ks' : List (Group × String)) :
    remarksOf (ks ++ ks') = remarksOf ks ++ remarksOf ks' :=
  List.filterMap_append

theorem remarksOf_of_unremarked {ks : List (Group × String)} (h : ∀ k ∈ ks, k.1 ≠ .remark) :
    remarksOf ks = [] := by
  unfold remarksOf
  rw [List.filterMap_eq_nil_iff]
  intro k hk
  simp [h k hk]

/-- What a remark line `; c` reads back as. -/
def reread (c : String) : String := Text.trim (String.ofList (' ' :: c.toList))

/-- Lines that, joined by line breaks, scan to tokens whose kinds other than remarks are those
of `ks`, before any character that is no atom character, and whose remarks read as `ns`. -/
def LinesRead (L : List String) (ks : List (Group × String)) (ns : List String) : Prop :=
  L ≠ [] ∧ ("\n".intercalate L).toList ≠ [] ∧
    ∃ ks', Scans (fun c => !isAtomChar c) ("\n".intercalate L).toList ks' ∧
      visible ks' = visible ks ∧ remarksOf ks' = ns

theorem scans_newline : Scans (fun _ => true) ['\n'] [] :=
  scans_blanks (by simp) (by simp [isBlank_newline])

theorem LinesRead.append {A B : List String} {ks ks' : List (Group × String)}
    {ns ns' : List String} (hA : LinesRead A ks ns) (hB : LinesRead B ks' ns') :
    LinesRead (A ++ B) (ks ++ ks') (ns ++ ns') := by
  obtain ⟨hA, -, as, has, hva, hra⟩ := hA
  obtain ⟨hB, hBne, bs, hbs, hvb, hrb⟩ := hB
  have hall := (has.append scans_newline (by simp) (by simp [isAtomChar_newline])).append hbs
    hBne (fun _ _ => rfl)
  refine ⟨by simp [hA], by simp [intercalate_append hA hB], as ++ bs, ?_, ?_, ?_⟩
  · rw [intercalate_append hA hB]
    simpa using hall
  · rw [visible_append, visible_append, hva, hvb]
  · rw [remarksOf_append, hra, hrb]

theorem LinesRead.closeLast {L : List String} {ks : List (Group × String)} {ns : List String}
    (h : LinesRead L ks ns) : LinesRead (Style.closeLast L) (ks ++ [(.closing, ")")]) ns := by
  obtain ⟨hL, -, ls, hls, hvl, hrl⟩ := h
  have hall := hls.append scans_closing (by simp) (by simp [isAtomChar_closing])
  refine ⟨closeLast_ne_nil L, by simp [intercalate_closeLast hL], ls ++ [(.closing, ")")], ?_, ?_,
    ?_⟩
  · rw [intercalate_closeLast hL]
    simpa using hall.mono (fun _ _ => rfl)
  · rw [visible_append, visible_append, hvl]
  · rw [remarksOf_append, hrl]
    simp [remarksOf]

/-- One line: blanks, then text that scans to kinds `ks` with no remark. -/
theorem LinesRead.line {indent x : String} {ks : List (Group × String)}
    (hi : ∀ c ∈ indent.toList, c = ' ') (hne : x.toList ≠ [])
    (hx : Scans (fun c => !isAtomChar c) x.toList ks) (hk : ∀ k ∈ ks, k.1 ≠ .remark) :
    LinesRead [indent ++ x] ks [] :=
  ⟨by simp, by simp [hne], ks, by simpa using hx.indent hne hi, rfl, remarksOf_of_unremarked hk⟩

theorem LinesRead.remarks {cs : List String} {indent : String} {L : List String}
    {ks : List (Group × String)} {ns : List String} (hc : ∀ c ∈ cs, '\n' ∉ c.toList)
    (hi : ∀ c ∈ indent.toList, c = ' ') (hL : LinesRead L ks ns) :
    LinesRead (cs.map (fun c => indent ++ "; " ++ c) ++ L) ks (cs.map reread ++ ns) := by
  induction cs with
  | nil => simpa using hL
  | cons c cs ih =>
    obtain ⟨hR, hRne, rs, hrs, hvis, hrem⟩ := ih fun d hd => hc d (by simp [hd])
    have hnl : '\n' ∉ ' ' :: c.toList := by
      simp only [List.mem_cons, not_or]
      exact ⟨by decide, hc c (by simp)⟩
    have hrm := (scans_remark hnl).indent (by simp) hi
    have hall := (hrm.append scans_newline (by simp) (by simp)).append hrs hRne (fun _ _ => rfl)
    have hR' : cs.map (fun c => indent ++ "; " ++ c) ++ L ≠ [] := hR
    have htext : ("\n".intercalate ((indent ++ "; " ++ c) ::
        (cs.map (fun c => indent ++ "; " ++ c) ++ L))).toList =
        indent.toList ++ ';' :: ' ' :: c.toList ++ ['\n'] ++
          ("\n".intercalate (cs.map (fun c => indent ++ "; " ++ c) ++ L)).toList := by
      obtain ⟨l, ls, hls⟩ := List.exists_cons_of_ne_nil hR'
      rw [hls, String.intercalate_cons_cons]
      simp
    refine ⟨by simp, by rw [List.map_cons, List.cons_append, htext]; simp,
      [(.remark, String.ofList (';' :: ' ' :: c.toList))] ++ [] ++ rs, ?_, ?_, ?_⟩
    · rw [List.map_cons, List.cons_append, htext]
      exact hall
    · rw [visible_append, visible_append, hvis]
      simp [visible]
    · rw [remarksOf_append, remarksOf_append, hrem]
      simp [remarksOf, reread]

theorem LinesRead.append_opt {A B : List String} {ks ks' : List (Group × String)}
    {ns ns' : List String} (hA : LinesRead A ks ns)
    (hB : (B = [] ∧ ks' = [] ∧ ns' = []) ∨ LinesRead B ks' ns') :
    LinesRead (A ++ B) (ks ++ ks') (ns ++ ns') := by
  rcases hB with ⟨rfl, rfl, rfl⟩ | hB
  · simpa using hA
  · exact hA.append hB

theorem remarkLines_scan : ∀ (cs : List String), cs ≠ [] → (∀ c ∈ cs, '\n' ∉ c.toList) →
    ∃ ks, Scans (· == '\n') ("\n".intercalate (cs.map ("; " ++ ·))).toList ks ∧ visible ks = [] ∧
      remarksOf ks = cs.map reread
  | [], hne, _ => absurd rfl hne
  | [c], _, hc => by
    have hnl : '\n' ∉ ' ' :: c.toList := by
      simp only [List.mem_cons, not_or]
      exact ⟨by decide, hc c (by simp)⟩
    exact ⟨_, by simpa using scans_remark hnl, by simp [visible], by simp [remarksOf, reread]⟩
  | c :: c' :: cs, _, hc => by
    have hnl : '\n' ∉ ' ' :: c.toList := by
      simp only [List.mem_cons, not_or]
      exact ⟨by decide, hc c (by simp)⟩
    obtain ⟨ks, hks, hvis, hrem⟩ :=
      remarkLines_scan (c' :: cs) (by simp) fun d hd => hc d (by simp [hd])
    have hall := ((scans_remark hnl).append scans_newline (by simp) (by simp)).append hks
      (by simp) (fun _ _ => rfl)
    refine ⟨[(.remark, String.ofList (';' :: ' ' :: c.toList))] ++ [] ++ ks, ?_, ?_, ?_⟩
    · simp only [List.map_cons, String.intercalate_cons_cons]
      simpa using hall
    · rw [visible_append, visible_append, hvis]
      simp [visible]
    · rw [remarksOf_append, remarksOf_append, hrem]
      simp [remarksOf, reread]

/-- Lines followed by remark lines scan, to the end of the text, to the tokens of the lines and
the remarks, which read as the lines' remarks and then the remark texts. -/
theorem LinesRead.trailing {L : List String} {ks : List (Group × String)} {ns : List String}
    (h : LinesRead L ks ns) {tr : List String} (htr : ∀ c ∈ tr, '\n' ∉ c.toList) :
    ∃ ks', Scans (fun _ => false) ("\n".intercalate (L ++ tr.map ("; " ++ ·))).toList ks' ∧
      visible ks' = visible ks ∧ remarksOf ks' = ns ++ tr.map reread := by
  obtain ⟨hL, -, ls, hls, hvl, hrl⟩ := h
  by_cases htr' : tr = []
  · subst htr'
    exact ⟨ls, by simpa using hls.mono (fun _ h => by cases h), hvl, by simp [hrl]⟩
  · obtain ⟨rs, hrs, hrvis, hrrem⟩ := remarkLines_scan tr htr' htr
    have hall := (hls.append scans_newline (by simp) (by simp [isAtomChar_newline])).append hrs
      (by obtain ⟨c, cs, rfl⟩ := List.exists_cons_of_ne_nil htr'
          cases cs <;> simp [String.intercalate_cons_cons])
      (fun _ _ => rfl)
    have htext : "\n".intercalate (L ++ tr.map ("; " ++ ·)) =
        "\n".intercalate L ++ "\n" ++ "\n".intercalate (tr.map ("; " ++ ·)) :=
      intercalate_append hL (by simpa using htr')
    refine ⟨ls ++ [] ++ rs, ?_, ?_, ?_⟩
    · rw [htext]
      simpa using hall.mono (fun _ h => by cases h)
    · rw [visible_append, visible_append, hrvis, hvl]
      simp [visible]
    · rw [remarksOf_append, remarksOf_append, hrl, hrrem]
      simp [remarksOf]

end PuzzleKit.SExpr

namespace PuzzleKit

open SExpr

namespace Noted

/-- Whether some remark of a part, or of a part inside it, runs over a line break. -/
def remarkBreaks (rm : Remarks) (n : Noted) : Bool :=
  (n.notesIn rm).any (fun c => c.toList.contains '\n') ||
    match n with
    | .cons f r _ => f.remarkBreaks rm || r.remarkBreaks rm
    | .atom .. => false

mutual

/-- Whether some list inside a part starts with an atom that carries a remark. -/
def remarkedHead (rm : Remarks) : Noted → Bool
  | .cons f r _ => (f.isAtom && f.hasNotes rm) || f.remarkedHead rm || remarkedHeadAfter rm r
  | .atom .. => false

/-- Whether some list inside the elements of a chain starts with an atom that carries a
remark. -/
def remarkedHeadAfter (rm : Remarks) : Noted → Bool
  | .cons f r _ => f.remarkedHead rm || remarkedHeadAfter rm r
  | .atom .. => false

end

theorem notes_of_remarkBreaks {rm : Remarks} {n : Noted} (h : n.remarkBreaks rm = false) :
    ∀ c ∈ n.notesIn rm, '\n' ∉ c.toList := by
  intro c hc hnl
  unfold remarkBreaks at h
  simp only [Bool.or_eq_false_iff, List.any_eq_false] at h
  exact absurd (List.contains_iff_mem.mpr hnl) (by simpa using h.1 c hc)

theorem remarkBreaks_cons {rm : Remarks} {f r : Noted} {t : Tag}
    (h : (Noted.cons f r t).remarkBreaks rm = false) :
    f.remarkBreaks rm = false ∧ r.remarkBreaks rm = false := by
  unfold remarkBreaks at h
  simp only [Bool.or_eq_false_iff] at h
  exact h.2

mutual

/-- The remarks the layout writes for a part: its own, then those of each element of its list
and of a tail that is not an empty atom. -/
def shownNotes (rm : Remarks) : Noted → List String
  | .atom b h t => (Noted.atom b h t).notesIn rm
  | .cons f r t => (Noted.cons f r t).notesIn rm ++ f.shownNotes rm ++ chainShown rm r

/-- The remarks the layout writes for the elements of a chain and for its tail; an empty atom
that ends the chain is not written, and neither are its remarks. -/
def chainShown (rm : Remarks) : Noted → List String
  | .cons f r _ => f.shownNotes rm ++ chainShown rm r
  | .atom b h t => if b.isEmpty then [] else (Noted.atom b h t).notesIn rm

end

theorem shown_of_hasNotes {rm : Remarks} :
    ∀ {n : Noted}, n.hasNotes rm = false → n.shownNotes rm = [] ∧ chainShown rm n = []
  | .atom b h t, hn => by
    simp only [hasNotes, Bool.not_eq_false', List.isEmpty_iff] at hn
    by_cases hb : b.isEmpty <;> simp [shownNotes, chainShown, hb, hn]
  | .cons f r t, hn => by
    simp only [hasNotes, Bool.or_eq_false_iff, Bool.not_eq_false', List.isEmpty_iff] at hn
    have hf := (shown_of_hasNotes hn.1.2).1
    have hr := (shown_of_hasNotes hn.2).2
    simp [shownNotes, chainShown, hn.1.1, hf, hr]

theorem chainShown_of_chainHasNotes {rm : Remarks} :
    ∀ {n : Noted}, n.chainHasNotes rm = false → chainShown rm n = []
  | .atom b h t, hn => by
    by_cases hb : b.isEmpty
    · simp [chainShown, hb]
    · have hnotes : (Noted.atom b h t).hasNotes rm = false := by
        simpa [chainHasNotes, isNil, hb] using hn
      have := (shown_of_hasNotes hnotes).2
      exact this
  | .cons f r t, hn => by
    simp only [chainHasNotes, Bool.or_eq_false_iff] at hn
    simp [chainShown, (shown_of_hasNotes hn.1).1, chainShown_of_chainHasNotes hn.2]

end Noted

namespace Style

variable (st : Style) (sn : Remarks)

/-- How the style writes an atom that stands first in a list. -/
def headText : List UInt8 → Hint → String := if st.keywords then keywordAtom else renderAtom

theorem flat_eq (n : Noted) : st.flat n = Tree.renderWith st.headText n.tree := by
  unfold flat headText Tree.renderKeywords Tree.render
  split <;> simp [Tree.renderOnto_eq]

theorem headName_eq (b : List UInt8) (h : Hint) : st.headName b h = st.headText b h := by
  unfold headName headText
  split <;> rfl

theorem unremarked_headText (b : List UInt8) (h : Hint) : Unremarked (st.headText b h) := by
  unfold headText
  split
  · exact unremarked_keywordAtom b h
  · exact unremarked_renderAtom b h

theorem scans_flat (n : Noted) :
    (st.flat n).toList ≠ [] ∧
      Scans (fun c => !isAtomChar c) (st.flat n).toList (treeKinds st.headText n.tree) := by
  rw [flat_eq]
  exact (scans_renderWith st.unremarked_headText n.tree).1

theorem kindsOf_flat (n : Noted) : kindsOf (st.flat n) = treeKinds st.headText n.tree :=
  (st.scans_flat n).2.kindsOf_eq

theorem tailKinds_takeItems (hd : List UInt8 → Hint → String) :
    ∀ (k : Nat) (r : Noted), tailKinds hd r.tree =
      ((takeItems k r).map Noted.tree).flatMap (treeKinds hd) ++ tailKinds hd (dropItems k r).tree
  | 0, r => by simp [takeItems, dropItems]
  | k + 1, .cons f r _ => by
    simp [takeItems, dropItems, Noted.tree, tailKinds, tailKinds_takeItems hd k r]
  | _ + 1, .atom .. => by simp [takeItems, dropItems]

theorem dropItems_atom (k : Nat) (b : List UInt8) (h : Hint) (t : Tag) :
    dropItems k (.atom b h t) = .atom b h t := by
  cases k <;> rfl

/-! ### What each layout step returns -/

theorem block_cons_ok {f r : Noted} {tg : Tag} {indent : String} {depth : Nat}
    {L : List String} (h : st.block sn (.cons f r tg) indent depth = .ok L) :
    (st.fitsFlat sn (.cons f r tg) indent = .ok true ∧
      L = noteLines sn (.cons f r tg) indent ++ [indent ++ st.flat (.cons f r tg)]) ∨
    (∃ b hi k rest, headAtom? sn f = some (b, hi) ∧
      st.onHeadLine sn (indent ++ indentStep) (headArgs (st.headName b hi)) r = .ok k ∧
      st.chain sn r (indent ++ indentStep) (depth + 1) k = .ok rest ∧
      L = closeLast (noteLines sn (.cons f r tg) indent ++
        [indent ++ "(" ++ " ".intercalate (st.headName b hi :: (takeItems k r).map st.flat)] ++
        rest)) ∨
    (headAtom? sn f = none ∧ ∃ a c, st.block sn f (indent ++ indentStep) (depth + 1) = .ok a ∧
      st.chain sn r (indent ++ indentStep) (depth + 1) 0 = .ok c ∧
      L = closeLast (noteLines sn (.cons f r tg) indent ++ [indent ++ "("] ++ a ++ c)) := by
  rw [block] at h
  simp only [bind, Except.bind, pure, Except.pure] at h
  split at h
  · cases h
  · split at h
    · cases h
    · split at h
      · cases h
      · next fl hfl =>
        split at h
        · next hfit =>
          rw [hfit] at hfl
          exact .inl ⟨hfl, by injection h with h; exact h.symm⟩
        · split at h
          · next b hi hhead =>
            split at h
            · cases h
            · next k hk =>
              split at h
              · cases h
              · next rest hrest =>
                injection h with h
                exact .inr (.inl ⟨b, hi, k, rest, hhead, hk, hrest, h.symm⟩)
          · next hhead =>
            split at h
            · cases h
            · next a ha =>
              split at h
              · cases h
              · next c hc =>
                injection h with h
                exact .inr (.inr ⟨hhead, a, c, ha, hc, h.symm⟩)

theorem leaf_ok {n : Noted} {indent : String} {depth : Nat} {L : List String}
    (h : st.leaf sn n indent depth = .ok L) : L = noteLines sn n indent ++ [indent ++ st.flat n] := by
  simp only [leaf, bind, Except.bind, pure, Except.pure] at h
  split at h
  · cases h
  · split at h
    · cases h
    · injection h with h
      exact h.symm

theorem chain_cons_succ (f r : Noted) (t : Tag) (indent : String) (depth k : Nat) :
    st.chain sn (.cons f r t) indent depth (k + 1) = st.chain sn r indent depth k := by
  rw [chain]

theorem chain_cons_zero_ok {f r : Noted} {t : Tag} {indent : String} {depth : Nat}
    {L : List String} (h : st.chain sn (.cons f r t) indent depth 0 = .ok L) :
    ∃ a c, st.block sn f indent depth = .ok a ∧ st.chain sn r indent depth 0 = .ok c ∧
      L = a ++ c := by
  rw [chain] at h
  simp only [bind, Except.bind] at h
  split at h
  · cases h
  · next a ha =>
    split at h
    · cases h
    · next c hc =>
      injection h with h
      exact ⟨a, c, ha, hc, h.symm⟩

theorem chain_atom_ok {b : List UInt8} {h : Hint} {t : Tag} {indent : String} {depth k : Nat}
    {L : List String} (hc : st.chain sn (.atom b h t) indent depth k = .ok L) :
    (b.isEmpty = true ∧ L = []) ∨
      (b.isEmpty = false ∧ L = (indent ++ ".") :: (noteLines sn (.atom b h t) indent ++
        [indent ++ st.flat (.atom b h t)])) := by
  rw [chain] at hc
  · split at hc
    · next hb =>
      injection hc with hc
      exact .inl ⟨by simpa [Noted.isNil] using hb, hc.symm⟩
    · next hb =>
      cases hl : st.leaf sn (.atom b h t) indent depth with
      | error e => simp [hl, Except.map] at hc
      | ok ls =>
        simp only [hl, Except.map, Except.ok.injEq] at hc
        exact .inr ⟨by simpa [Noted.isNil] using hb, by rw [← hc, st.leaf_ok sn hl]⟩
  all_goals simp

/-! ### The layout scans to the compact text's tokens -/

theorem headAtom?_some {f : Noted} {b : List UInt8} {h : Hint} (hf : headAtom? sn f = some (b, h)) :
    ∃ t, f = .atom b h t ∧ (Noted.atom b h t).notesIn sn = [] := by
  cases f with
  | atom b' h' t =>
    simp only [headAtom?] at hf
    split_ifs at hf with hn
    simp only [Option.some.injEq, Prod.mk.injEq] at hf
    obtain ⟨rfl, rfl⟩ := hf
    exact ⟨t, rfl, List.isEmpty_iff.mp hn⟩
  | cons => cases hf

theorem remarkedHead_cons {f r : Noted} {t : Tag} (h : (Noted.cons f r t).remarkedHead sn = false) :
    (f.isAtom && f.hasNotes sn) = false ∧ f.remarkedHead sn = false ∧
      r.remarkedHeadAfter sn = false := by
  simpa [Noted.remarkedHead, and_assoc] using h

theorem remarkedHeadAfter_cons {f r : Noted} {t : Tag}
    (h : (Noted.cons f r t).remarkedHeadAfter sn = false) :
    f.remarkedHead sn = false ∧ r.remarkedHeadAfter sn = false := by
  simpa [Noted.remarkedHeadAfter] using h

theorem treeKinds_of_headAtom_none {f r : Noted} {t : Tag} (hf : headAtom? sn f = none)
    (hk : st.keywords = true → (Noted.cons f r t).remarkedHead sn = false) :
    treeKinds st.headText (Noted.cons f r t).tree =
      (.opening, "(") :: treeKinds st.headText f.tree ++ tailKinds st.headText r.tree ++
        [(.closing, ")")] := by
  cases f with
  | cons => rfl
  | atom b h tf =>
    have hnotes : (Noted.atom b h tf).hasNotes sn = true := by
      simp only [headAtom?] at hf
      split_ifs at hf with hne
      simpa [Noted.hasNotes] using hne
    have hhead : st.headText b h = renderAtom b h := by
      unfold headText
      split
      · next hkw =>
        have := (remarkedHead_cons sn (hk hkw)).1
        simp [Noted.isAtom, hnotes] at this
      · rfl
    simp [Noted.tree, treeKinds, hhead]

theorem flatLines_read {n : Noted} {indent : String} (hi : ∀ c ∈ indent.toList, c = ' ')
    (hn : ∀ c ∈ n.notesIn sn, '\n' ∉ c.toList) :
    LinesRead (noteLines sn n indent ++ [indent ++ st.flat n]) (treeKinds st.headText n.tree)
      ((n.notesIn sn).map reread) := by
  obtain ⟨hne, hs⟩ := st.scans_flat n
  have hline := LinesRead.line hi hne hs (treeKinds_unremarked st.unremarked_headText n.tree).1
  simpa [noteLines] using LinesRead.remarks hn hi hline

theorem headLine_read {indent : String} (hi : ∀ c ∈ indent.toList, c = ' ') (b : List UInt8)
    (h : Hint) (args : List Noted) :
    LinesRead [indent ++ ("(" ++ " ".intercalate (st.headName b h :: args.map st.flat))]
      ((.opening, "(") :: kindsOf (st.headText b h) ++
        (args.map Noted.tree).flatMap (treeKinds st.headText)) [] := by
  have hwords : ∀ x ∈ st.headName b h :: args.map st.flat,
      x.toList ≠ [] ∧ Scans (fun c => !isAtomChar c) x.toList (kindsOf x) := by
    intro x hx
    simp only [List.mem_cons, List.mem_map] at hx
    rcases hx with rfl | ⟨e, -, rfl⟩
    · rw [headName_eq]
      exact ⟨(st.unremarked_headText b h).1, (st.unremarked_headText b h).2.1⟩
    · rw [kindsOf_flat]
      exact st.scans_flat e
  obtain ⟨hne, hs⟩ := scans_spaced _ (by simp) hwords
  have hall := scans_opening.append hs hne (fun _ _ => rfl)
  have hk : (.opening, "(") :: kindsOf (st.headText b h) ++
      (args.map Noted.tree).flatMap (treeKinds st.headText) =
      [(.opening, "(")] ++ (st.headName b h :: args.map st.flat).flatMap kindsOf := by
    simp [headName_eq, List.flatMap_map, kindsOf_flat]
  have hunrem : ∀ k ∈ (.opening, "(") :: kindsOf (st.headText b h) ++
      (args.map Noted.tree).flatMap (treeKinds st.headText), k.1 ≠ .remark := by
    intro k hk'
    simp only [List.cons_append, List.mem_cons, List.mem_append, List.mem_flatMap,
      List.mem_map] at hk'
    rcases hk' with rfl | hk' | ⟨_, ⟨e, -, rfl⟩, hk'⟩
    · simp
    · exact (st.unremarked_headText b h).2.2 k hk'
    · exact (treeKinds_unremarked st.unremarked_headText e.tree).1 k hk'
  rw [hk] at hunrem ⊢
  exact LinesRead.line hi (by simp) (by simpa using hall) hunrem

theorem indent_step {indent : String} (hi : ∀ c ∈ indent.toList, c = ' ') :
    ∀ c ∈ (indent ++ indentStep).toList, c = ' ' := by
  intro c hc
  simp only [String.toList_append, List.mem_append] at hc
  rcases hc with hc | hc
  · exact hi c hc
  · simpa [indentStep] using hc

/-! ### The remarks a layout writes -/

theorem chainHasNotes_of_fitsFlat {n : Noted} {indent : String}
    (h : st.fitsFlat sn n indent = .ok true) : n.chainHasNotes sn = false := by
  unfold fitsFlat at h
  split at h
  · simp [pure, Except.pure] at h
  · next hn => simpa using hn

theorem onHeadLine_unnoted {indent : String} : ∀ {k : Nat} {r : Noted} {j : Nat},
    st.onHeadLine sn indent k r = .ok j → ∀ e ∈ takeItems j r, e.hasNotes sn = false
  | 0, r, j, h => by
    simp only [onHeadLine, Except.ok.injEq] at h
    subst h
    simp [takeItems]
  | k + 1, .cons f r _, j, h => by
    rw [onHeadLine] at h
    split at h
    · cases h
      simp [takeItems]
    · next hf =>
      simp only [bind, Except.bind, pure, Except.pure] at h
      split at h
      · cases h
      · split at h
        · cases h
          simp [takeItems]
        · split at h
          · cases h
          · next j' hj' =>
            cases h
            intro e he
            simp only [takeItems, List.mem_cons] at he
            rcases he with rfl | he
            · simpa using hf
            · exact onHeadLine_unnoted hj' e he
  | _ + 1, .atom .., j, h => by
    simp only [onHeadLine, Except.ok.injEq] at h
    subst h
    simp [takeItems]

theorem chainShown_takeItems : ∀ (j : Nat) (r : Noted),
    Noted.chainShown sn r =
      (takeItems j r).flatMap (Noted.shownNotes sn) ++ Noted.chainShown sn (dropItems j r)
  | 0, r => by simp [takeItems, dropItems]
  | j + 1, .cons f r _ => by
    simp [takeItems, dropItems, Noted.chainShown, chainShown_takeItems j r]
  | _ + 1, .atom .. => by simp [takeItems, dropItems]

theorem chain_reads_opt {L : List String} {ks : List (Group × String)} {ns : List String}
    (h : (L = [] ∧ ks = [] ∧ ns = []) ∨ LinesRead L ks (ns.map reread)) :
    (L = [] ∧ ks = [] ∧ ns.map reread = []) ∨ LinesRead L ks (ns.map reread) :=
  h.imp_left fun ⟨hL, hk, hn⟩ => ⟨hL, hk, by simp [hn]⟩

mutual

/-- Every part laid out in lines scans, up to remarks, to the tokens of its compact text, and its
remark lines are those of the parts it writes. The induction follows the layout: a part, then the
elements of its list after those on its first line. -/
theorem block_reads : ∀ (n : Noted) (indent : String) (depth : Nat) (L : List String),
    (∀ c ∈ indent.toList, c = ' ') → n.remarkBreaks sn = false →
    (st.keywords = true → n.remarkedHead sn = false) →
    st.block sn n indent depth = .ok L →
    LinesRead L (treeKinds st.headText n.tree) ((n.shownNotes sn).map reread)
  | .atom b h t, indent, depth, L, hi, hbr, _, hb => by
    rw [block] at hb
    · rw [st.leaf_ok sn hb]
      exact st.flatLines_read sn hi (Noted.notes_of_remarkBreaks hbr)
    all_goals simp
  | .cons f r t, indent, depth, L, hi, hbr, hhead, hb => by
    have hnotes := Noted.notes_of_remarkBreaks hbr
    obtain ⟨hbf, hbr'⟩ := Noted.remarkBreaks_cons hbr
    have hchild := indent_step hi
    obtain ⟨hfit, rfl⟩ | ⟨b, h, k, rest, hf, hk, hrest, rfl⟩ | ⟨hf, a, c, ha, hc, rfl⟩ :=
      st.block_cons_ok sn hb
    · -- one line: nothing inside carries a remark
      have hin : (Noted.cons f r t).chainHasNotes sn = false := st.chainHasNotes_of_fitsFlat sn hfit
      simp only [Noted.chainHasNotes, Bool.or_eq_false_iff] at hin
      have hshown : (Noted.cons f r t).shownNotes sn = (Noted.cons f r t).notesIn sn := by
        simp [Noted.shownNotes, (Noted.shown_of_hasNotes hin.1).1,
          Noted.chainShown_of_chainHasNotes hin.2]
      rw [hshown]
      exact st.flatLines_read sn hi hnotes
    · -- the head atom and the arguments that fit open the first line; the rest follows
      obtain ⟨tf, rfl, hfn⟩ := headAtom?_some sn hf
      have hrest' := chain_reads r _ _ k rest hchild hbr'
        (fun hk => (remarkedHead_cons sn (hhead hk)).2.2) hrest
      have hline := st.headLine_read hi b h (takeItems k r)
      have hall := (LinesRead.remarks hnotes hi (hline.append_opt (chain_reads_opt hrest'))).closeLast
      have hkinds : treeKinds st.headText (Noted.cons (.atom b h tf) r t).tree =
          (.opening, "(") :: kindsOf (st.headText b h) ++
            ((takeItems k r).map Noted.tree).flatMap (treeKinds st.headText) ++
            tailKinds st.headText (dropItems k r).tree ++ [(.closing, ")")] := by
        simp [Noted.tree, treeKinds, tailKinds_takeItems st.headText k r]
      -- the arguments on the head line carry no remarks
      have hargs : (takeItems k r).flatMap (Noted.shownNotes sn) = [] := by
        rw [List.flatMap_eq_nil_iff]
        intro e he
        exact (Noted.shown_of_hasNotes (st.onHeadLine_unnoted sn hk e he)).1
      have hshown : (Noted.cons (.atom b h tf) r t).shownNotes sn =
          (Noted.cons (.atom b h tf) r t).notesIn sn ++ Noted.chainShown sn (dropItems k r) := by
        rw [Noted.shownNotes, chainShown_takeItems sn k r, hargs]
        simp [Noted.shownNotes, hfn]
      rw [hkinds, hshown, List.append_assoc, List.append_assoc]
      simpa [noteLines, List.append_assoc, String.append_assoc] using hall
    · -- the first element on lines of its own, then the rest
      have hfirst := block_reads f _ _ a hchild hbf
        (fun hk => (remarkedHead_cons sn (hhead hk)).2.1) ha
      have hrest' := chain_reads r _ _ 0 c hchild hbr'
        (fun hk => (remarkedHead_cons sn (hhead hk)).2.2) hc
      have hopen : LinesRead [indent ++ "("] [(.opening, "(")] [] :=
        LinesRead.line hi (by simp) (scans_opening.mono (fun _ _ => rfl)) (by simp)
      have hall :=
        (LinesRead.remarks hnotes hi ((hopen.append hfirst).append_opt (chain_reads_opt hrest'))).closeLast
      rw [st.treeKinds_of_headAtom_none sn hf hhead]
      simpa [noteLines, dropItems, Noted.shownNotes, List.append_assoc] using hall

theorem chain_reads : ∀ (n : Noted) (indent : String) (depth skip : Nat) (L : List String),
    (∀ c ∈ indent.toList, c = ' ') → n.remarkBreaks sn = false →
    (st.keywords = true → n.remarkedHeadAfter sn = false) →
    st.chain sn n indent depth skip = .ok L →
    (L = [] ∧ tailKinds st.headText (dropItems skip n).tree = [] ∧
        Noted.chainShown sn (dropItems skip n) = []) ∨
      LinesRead L (tailKinds st.headText (dropItems skip n).tree)
        ((Noted.chainShown sn (dropItems skip n)).map reread)
  | .cons f r t, indent, depth, k + 1, L, hi, hbr, hhead, hc => by
    rw [chain_cons_succ] at hc
    exact chain_reads r indent depth k L hi (Noted.remarkBreaks_cons hbr).2
      (fun hk => (remarkedHeadAfter_cons sn (hhead hk)).2) hc
  | .cons f r t, indent, depth, 0, L, hi, hbr, hhead, hc => by
    obtain ⟨a, c, ha, hc', rfl⟩ := st.chain_cons_zero_ok sn hc
    obtain ⟨hbf, hbr'⟩ := Noted.remarkBreaks_cons hbr
    have hfirst := block_reads f indent depth a hi hbf
      (fun hk => (remarkedHeadAfter_cons sn (hhead hk)).1) ha
    have hrest := chain_reads r indent depth 0 c hi hbr'
      (fun hk => (remarkedHeadAfter_cons sn (hhead hk)).2) hc'
    right
    simpa [dropItems, Noted.tree, tailKinds, Noted.chainShown] using
      hfirst.append_opt (chain_reads_opt hrest)
  | .atom b h t, indent, depth, skip, L, hi, hbr, _, hc => by
    rw [dropItems_atom]
    rcases st.chain_atom_ok sn hc with ⟨hb, rfl⟩ | ⟨hb, rfl⟩
    · left
      simp [Noted.tree, tailKinds, Noted.chainShown, hb]
    · -- the dot on a line of its own, then the tail
      right
      have hdot : LinesRead [indent ++ "."] [(.atom, ".")] [] :=
        LinesRead.line hi (by simp)
          (scans_word (by simp) (by simp [isAtomChar, Text.isBlank, Text.blankRanges])) (by simp)
      have hall := hdot.append (st.flatLines_read sn hi (Noted.notes_of_remarkBreaks hbr))
      simpa [Noted.tree, tailKinds, Noted.chainShown, hb, treeKinds] using hall

end

/-! ### The texts read alike -/

theorem write_scan {trailing : List String} {n : Noted} {s : String} (hind : st.indented = true)
    (htrail : ∀ c ∈ trailing, '\n' ∉ c.toList) (hbr : n.remarkBreaks sn = false)
    (hkw : st.keywords = true → n.remarkedHead sn = false) (hw : st.write sn trailing n = .ok s) :
    (scan s).2 = none ∧
      ((scan s).1.filter Token.significant).map Token.kind = treeKinds st.headText n.tree := by
  simp only [write, hind, Bool.not_true, Bool.false_eq_true, if_false] at hw
  cases hb : st.block sn n "" 0 with
  | error e => simp [hb, Except.map] at hw
  | ok ls =>
    simp only [hb, Except.map, Except.ok.injEq] at hw
    subst hw
    obtain ⟨ks, hks, hvis, -⟩ :=
      LinesRead.trailing (st.block_reads sn n "" 0 ls (by simp) hbr hkw hb) htrail
    obtain ⟨h₁, h₂⟩ := hks.scan
    refine ⟨h₁, ?_⟩
    rw [h₂, hvis, visible_of_unremarked (treeKinds_unremarked st.unremarked_headText n.tree).1]

/-- The indented text of a part reads as the same tree as its compact text, or both fail to
read, whenever no remark it writes runs over a line break and, where operators are written by
name, no list starts with an atom that carries a remark. -/
theorem indented_reads_as_compact (st : Style) (sn : Remarks) (trailing : List String)
    (n : Noted) (s : String) (hind : st.indented = true)
    (htrail : ∀ c ∈ trailing, '\n' ∉ c.toList) (hbr : n.remarkBreaks sn = false)
    (hkw : st.keywords = true → n.remarkedHead sn = false)
    (hw : st.write sn trailing n = .ok s) :
    ∃ c, ({ st with indented := false }).write sn trailing n = .ok c ∧
      (parse s).toOption = (parse c).toOption := by
  refine ⟨st.flat n, by simp [write, flat], ?_⟩
  obtain ⟨h₁, h₂⟩ := st.write_scan sn hind htrail hbr hkw hw
  obtain ⟨h₃, h₄⟩ := (st.scans_flat n).2.scan
  have hunrem := visible_of_unremarked (treeKinds_unremarked st.unremarked_headText n.tree).1
  exact parse_congr h₁ h₃ (by rw [h₂, h₄, hunrem])

/-- A list of one integer with a remark before it: the remark takes a line of its own, and the
text reads as the compact one does. -/
theorem indented_reads_as_compact_one :
    ({ indented := true } : Style).write {} []
        (.cons (.atom [1] .int (.own ["one"])) (.atom [] .bytes (.own [])) (.own [])) =
      .ok "(\n  ; one\n  1)" ∧
    ∃ c, ({ ({ indented := true } : Style) with indented := false }).write {} []
        (.cons (.atom [1] .int (.own ["one"])) (.atom [] .bytes (.own [])) (.own [])) = .ok c ∧
      (parse "(\n  ; one\n  1)").toOption = (parse c).toOption := by
  have hw : ({ indented := true } : Style).write {} []
      (.cons (.atom [1] .int (.own ["one"])) (.atom [] .bytes (.own [])) (.own [])) =
      .ok "(\n  ; one\n  1)" := by
    rfl
  exact ⟨hw, indented_reads_as_compact _ _ _ _ _ rfl (by simp) (by decide) (by simp) hw⟩

end Style

end PuzzleKit
