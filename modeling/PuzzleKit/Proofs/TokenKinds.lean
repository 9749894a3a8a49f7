import PuzzleKit.Proofs.ReaderShape
import PuzzleKit.Opcode

/-!
# What texts scan to, by kind

The reader sees a token's class and text, never where it stands, and it skips blanks and
remarks. Two texts whose other tokens agree in class and text therefore parse alike
(`parse_congr`).

`kindsOf x` is what a text scans to on its own. The text of every atom scans to tokens that are
no remarks (`Unremarked`), also in operator place. `treeKinds hd t` is what the compact text of
a tree scans to, where `hd` writes the atoms that stand first in a list (`scans_renderWith`).
A run of blanks is invisible whatever follows it (`scanFrom_blank_run`), and a remark runs to
the end of its line (`scans_remark`).
-/

namespace PuzzleKit.SExpr

/-! ## Blanks and remarks -/

/-- A run of blanks leaves nothing the reader sees: what follows scans as if the run had not
begun. -/
theorem scanFrom_blank_run (cs : List Char) (f : Pos) (acc : List Char) (p : Pos) :
    solid (scanFrom cs (.run .blank f acc) p).1 = solid (scanFrom cs .idle p).1 ∧
      (scanFrom cs (.run .blank f acc) p).2 = (scanFrom cs .idle p).2 := by
  induction cs generalizing f acc p with
  | nil => exact ⟨by simp [scanFrom, Partial.finish, solid], rfl⟩
  | cons c cs ih =>
    by_cases hb : Text.isBlank c
    · have hrun : step (.run .blank f acc) c p = ([], .ok (.run .blank f (c :: acc))) := by
        simp [step, continues, hb]
      have hidle : step .idle c p = ([], .ok (.run .blank p [c])) := by
        simp [step, begin, hb]
      rw [scanFrom_cons_of_step hrun, scanFrom_cons_of_step hidle]
      obtain ⟨h₁, h₂⟩ := ih f (c :: acc) (p.advance c)
      obtain ⟨h₃, h₄⟩ := ih p [c] (p.advance c)
      simp only [List.nil_append]
      exact ⟨h₁.trans h₃.symm, h₂.trans h₄.symm⟩
    · have hstop : ∀ d ∈ (c :: cs).head?, continues .blank d = false := by
        intro d hd
        cases hd
        simpa [continues] using hb
      rw [scanFrom_run_of_stop hstop, solid_cons_blank rfl]
      exact ⟨rfl, rfl⟩

theorem scans_blanks {x : List Char} (hne : x ≠ []) (hx : ∀ c ∈ x, Text.isBlank c = true) :
    Scans (fun _ => true) x [] := by
  intro rest p _
  obtain ⟨c, cs, rfl⟩ := List.exists_cons_of_ne_nil hne
  have hs : step .idle c p = ([], .ok (.run .blank p [c])) := by
    simp [step, begin, hx c (by simp)]
  have hcont : ∀ d ∈ cs, continues .blank d = true := fun d hd => by
    simpa [continues] using hx d (by simp [hd])
  have hrun := @scanFrom_run_of_continues .blank p cs hcont [c] rest (p.advance c)
  obtain ⟨h₁, h₂⟩ := scanFrom_blank_run rest p (cs.reverse ++ [c]) ((p.advance c).advanceAll cs)
  refine ⟨[], (p.advance c).advanceAll cs, rfl, ?_, ?_⟩
  · rw [List.cons_append, scanFrom_cons_of_step hs, hrun, List.nil_append, h₁]
    rfl
  · rw [List.cons_append, scanFrom_cons_of_step hs, hrun, h₂]

/-- A remark runs to the end of its line. -/
theorem scans_remark {x : List Char} (hx : '\n' ∉ x) :
    Scans (· == '\n') (';' :: x) [(.remark, String.ofList (';' :: x))] := by
  intro rest p hrest
  have hs : step .idle ';' p = ([], .ok (.run .remark p [';'])) := by
    simp [step, begin, Text.isBlank, Text.blankRanges]
  have hcont : ∀ d ∈ x, continues .remark d = true := fun d hd => by
    simp only [continues, ne_eq, decide_eq_true_eq]
    rintro rfl
    exact hx hd
  have hstop : ∀ d ∈ rest.head?, continues .remark d = false := by
    intro d hd
    simpa [continues] using hrest d hd
  have hrun := @scanFrom_run_of_continues .remark p x hcont [';'] rest (p.advance ';')
  refine ⟨[⟨.remark, String.ofList (';' :: x), p⟩], (p.advance ';').advanceAll x, rfl, ?_, ?_⟩
  · rw [List.cons_append, scanFrom_cons_of_step hs, hrun, scanFrom_run_of_stop hstop,
      List.nil_append, solid_cons_of_ne (by simp)]
    simp
  · rw [List.cons_append, scanFrom_cons_of_step hs, hrun, scanFrom_run_of_stop hstop]

theorem isBlank_newline : Text.isBlank '\n' = true := by
  simp [Text.isBlank, Text.blankRanges]

theorem isAtomChar_newline : isAtomChar '\n' = false := by
  simp [isAtomChar, isBlank_newline]

theorem isBlank_space : Text.isBlank ' ' = true := by
  simp [Text.isBlank, Text.blankRanges]

theorem isAtomChar_space : isAtomChar ' ' = false := by
  simp [isAtomChar, isBlank_space]

theorem isAtomChar_closing : isAtomChar ')' = false := by
  simp [isAtomChar]

theorem Scans.indent {s : Char → Bool} {i x : List Char} {ks : List (Group × String)}
    (hx : Scans s x ks) (hne : x ≠ []) (hi : ∀ c ∈ i, c = ' ') : Scans s (i ++ x) ks := by
  cases i with
  | nil => exact hx
  | cons c cs =>
    have hb : Scans (fun _ => true) (c :: cs) [] :=
      scans_blanks (by simp) fun d hd => by rw [hi d hd]; decide
    simpa using hb.append hx hne (fun _ _ => rfl)

/-! ## The text of an atom -/

/-- The kinds of the tokens other than blanks that a text scans to on its own. -/
def kindsOf (x : String) : List (Group × String) := (solid (scan x).1).map Token.kind

theorem Scans.kindsOf_eq {s : Char → Bool} {x : String} {ks : List (Group × String)}
    (h : Scans s x.toList ks) : kindsOf x = ks := by
  obtain ⟨ts, p', hk, hsolid, -⟩ := h [] Pos.start (by simp)
  have hend : scanFrom [] .idle p' = ([], none) := rfl
  simp only [List.append_nil, hend] at hsolid
  rw [kindsOf, scan, hsolid]
  simpa [solid] using hk

/-- Text that scans, before any character that is no atom character, to tokens none of which
is a remark. -/
def Unremarked (x : String) : Prop :=
  x.toList ≠ [] ∧ Scans (fun c => !isAtomChar c) x.toList (kindsOf x) ∧
    ∀ k ∈ kindsOf x, k.1 ≠ .remark

theorem Unremarked.of_scans {x : String} {ks : List (Group × String)} (hne : x.toList ≠ [])
    (h : Scans (fun c => !isAtomChar c) x.toList ks) (hk : ∀ k ∈ ks, k.1 ≠ .remark) :
    Unremarked x := by
  rw [Unremarked, h.kindsOf_eq]
  exact ⟨hne, h, hk⟩

theorem Unremarked.word {w : String} (hne : w.toList ≠ []) (hw : ∀ c ∈ w.toList, isAtomChar c = true) :
    Unremarked w := by
  have hs := scans_word hne hw
  rw [String.ofList_toList] at hs
  exact .of_scans hne hs (by simp)

theorem AtomText.unremarked {b : List UInt8} {x : String} (ha : AtomText b x) : Unremarked x := by
  cases ha with
  | empty hb =>
    have hs : Scans (fun c => !isAtomChar c) ['(', ')'] _ :=
      (scans_opening.append scans_closing (by simp) (by simp)).mono (fun _ _ => rfl)
    exact .of_scans (by decide) hs (by simp)
  | word hne hw _ _ => exact .word hne hw
  | quoted hu =>
    exact .of_scans (by simp [toList_quote]) ((scans_quote _).mono (fun _ _ => rfl)) (by simp)

theorem toList_of_beforeFinalNewline (s : String) :
    s.toList = Text.beforeFinalNewline s ∨ s.toList = Text.beforeFinalNewline s ++ ['\n'] := by
  unfold Text.beforeFinalNewline
  split
  · next rest h =>
    right
    rw [← List.reverse_reverse s.toList, h]
    simp
  · left
    rfl

theorem Unremarked.bare {s : String} (hs : Text.isBareSymbol s = true) : Unremarked s := by
  simp only [Text.isBareSymbol, Bool.and_eq_true, Bool.not_eq_true', bne_iff_ne, ne_eq] at hs
  obtain ⟨⟨⟨⟨⟨hne, hall⟩, -⟩, -⟩, -⟩, -⟩ := hs
  have hne' : Text.beforeFinalNewline s ≠ [] := by simpa using hne
  have hw : ∀ c ∈ Text.beforeFinalNewline s, isAtomChar c = true := fun c hc =>
    isAtomChar_of_isSymbolChar (List.all_eq_true.mp hall c hc)
  have hword := scans_word hne' hw
  rcases toList_of_beforeFinalNewline s with h | h
  · exact .of_scans (by rw [h]; exact hne') (by rw [h]; exact hword) (by simp)
  · have hnl : Scans (fun _ => true) ['\n'] [] := scans_blanks (by simp) (by simp [isBlank_newline])
    have hs : Scans (fun c => !isAtomChar c) (Text.beforeFinalNewline s ++ ['\n']) _ :=
      (hword.append hnl (by simp) (by simp [isAtomChar_newline])).mono (fun _ _ => rfl)
    exact .of_scans (by simp [h]) (by rw [h]; simpa using hs) (by simp)

theorem unremarked_renderAtom (b : List UInt8) (h : Hint) : Unremarked (renderAtom b h) := by
  unfold renderAtom
  split_ifs with he hi hss
  · exact (AtomText.empty (List.isEmpty_iff.mp he)).unremarked
  · exact (atomText_toString (by simp at hi; exact hi.2)).unremarked
  · have hb : b ≠ [] := fun h => by simp [h] at he
    cases hd : decodeUtf8? b with
    | none => exact (atomText_hexLiteral hb).unremarked
    | some s =>
      dsimp only
      split_ifs with hbare hq
      · exact .bare (by simp at hbare; exact hbare.2)
      · exact (atomText_quote hd).unremarked
      · exact (atomText_hexLiteral hb).unremarked
  · exact (atomText_hexLiteral fun h => by simp [h] at he).unremarked

theorem operators_symbols :
    ∀ p ∈ operators, p.2.toList ≠ [] ∧ p.2.toList.all Text.isSymbolChar = true := by
  decide

theorem unremarked_keywordAtom (b : List UInt8) (h : Hint) : Unremarked (keywordAtom b h) := by
  unfold keywordAtom
  split
  · next x =>
    cases hn : operatorName? x.toNat with
    | none => exact unremarked_renderAtom _ h
    | some name =>
      obtain ⟨p, hp, rfl⟩ := Option.map_eq_some_iff.mp hn
      obtain ⟨hne, hw⟩ := operators_symbols p (List.mem_of_find?_eq_some hp)
      exact .word hne fun c hc => isAtomChar_of_isSymbolChar (List.all_eq_true.mp hw c hc)
  · exact unremarked_renderAtom b h

/-- The kinds of tokens other than remarks. -/
def visible (ks : List (Group × String)) : List (Group × String) := ks.filter (·.1 != .remark)

theorem visible_append (ks ks' : List (Group × String)) :
    visible (ks ++ ks') = visible ks ++ visible ks' := List.filter_append _ _

theorem visible_of_unremarked {ks : List (Group × String)} (h : ∀ k ∈ ks, k.1 ≠ .remark) :
    visible ks = ks :=
  List.filter_eq_self.mpr fun k hk => by simpa using h k hk

theorem map_kind_filter_significant (ts : List Token) :
    (ts.filter Token.significant).map Token.kind = visible ((solid ts).map Token.kind) := by
  induction ts with
  | nil => rfl
  | cons t ts ih =>
    cases hg : t.group <;>
      simp [solid, visible, Token.significant, Token.kind, hg, ih] at ih ⊢

/-- A whole text that scans to kinds `ks` scans without a fault, to tokens whose kinds other
than blanks and remarks are those of `ks`. -/
theorem Scans.scan {s : Char → Bool} {x : String} {ks : List (Group × String)}
    (h : Scans s x.toList ks) :
    (SExpr.scan x).2 = none ∧
      ((SExpr.scan x).1.filter Token.significant).map Token.kind = visible ks := by
  obtain ⟨ts, p', hk, hsolid, hfault⟩ := h [] Pos.start (by simp)
  have hend : scanFrom [] .idle p' = ([], none) := rfl
  simp only [List.append_nil, hend] at hsolid hfault
  refine ⟨hfault, ?_⟩
  rw [SExpr.scan, map_kind_filter_significant, hsolid]
  simp [solid, hk]

theorem scans_spaced : ∀ (xs : List String), xs ≠ [] →
    (∀ x ∈ xs, x.toList ≠ [] ∧ Scans (fun c => !isAtomChar c) x.toList (kindsOf x)) →
    (" ".intercalate xs).toList ≠ [] ∧
      Scans (fun c => !isAtomChar c) (" ".intercalate xs).toList (xs.flatMap kindsOf)
  | [], hne, _ => absurd rfl hne
  | [x], _, hx => by simpa using hx x (by simp)
  | x :: y :: ys, _, hx => by
    obtain ⟨hxne, hxs⟩ := hx x (by simp)
    obtain ⟨hrne, hrs⟩ := scans_spaced (y :: ys) (by simp) fun z hz => hx z (by simp [hz])
    have hsp : Scans (fun _ => true) [' '] [] := scans_blanks (by simp) (by simp [isBlank_space])
    have hall := (hxs.append hsp (by simp) (by simp [isAtomChar_space])).append hrs hrne
      (fun _ _ => rfl)
    rw [String.intercalate_cons_cons]
    refine ⟨by simp [hxne], ?_⟩
    simpa using hall

/-! ## Compact text -/

section Compact

variable (hd : List UInt8 → Hint → String)

mutual

/-- The kinds of the tokens of a tree's compact text, where `hd` writes the atoms that stand
first in a list. -/
def treeKinds : Tree → List (Group × String)
  | .atom b h => kindsOf (renderAtom b h)
  | .cons (.atom b h) r => (.opening, "(") :: kindsOf (hd b h) ++ tailKinds r ++ [(.closing, ")")]
  | .cons f r => (.opening, "(") :: treeKinds f ++ tailKinds r ++ [(.closing, ")")]

/-- The kinds of the tokens of the rest of a list after its first element. -/
def tailKinds : Tree → List (Group × String)
  | .cons f r => treeKinds f ++ tailKinds r
  | .atom b h => if b.isEmpty then [] else (.atom, ".") :: kindsOf (renderAtom b h)

end

variable {hd} (hhd : ∀ b h, Unremarked (hd b h))
include hhd

/-- The compact text of a tree scans to its kinds, before any character that is no atom
character; the rest of a list, with its closing parenthesis, starts with a space or that
parenthesis and scans to the kinds of the rest, whatever follows. -/
theorem scans_renderWith (t : Tree) :
    ((Tree.renderWith hd t).toList ≠ [] ∧
      Scans (fun c => !isAtomChar c) (Tree.renderWith hd t).toList (treeKinds hd t)) ∧
    (∃ c cs, (Tree.renderTail hd t ++ ")").toList = c :: cs ∧ (c = ' ' ∨ c = ')')) ∧
      Scans (fun _ => true) (Tree.renderTail hd t ++ ")").toList
        (tailKinds hd t ++ [(.closing, ")")]) := by
  induction t with
  | atom b h =>
    obtain ⟨hne, hs, -⟩ := unremarked_renderAtom b h
    refine ⟨⟨hne, hs⟩, ?_⟩
    by_cases hb : b.isEmpty
    · simp only [Tree.renderTail, hb, if_true, tailKinds, List.nil_append]
      exact ⟨⟨')', [], rfl, .inr rfl⟩, scans_closing⟩
    · -- a space, the dot, a space, the atom and the parenthesis
      have hsp : Scans (fun _ => true) [' '] [] := scans_blanks (by simp) (by simp [isBlank_space])
      have hdot : Scans (fun c => !isAtomChar c) ['.'] [(.atom, ".")] :=
        scans_word (by simp) (by simp [isAtomChar, Text.isBlank, Text.blankRanges])
      have hall := (((hsp.append hdot (by simp) (fun _ _ => rfl)).append hsp (by simp)
        (by simp [isAtomChar_space])).append hs hne (fun _ _ => rfl)).append scans_closing
        (by simp) (by simp [isAtomChar_closing])
      simp only [Tree.renderTail, hb, Bool.false_eq_true, if_false, tailKinds]
      refine ⟨⟨' ', '.' :: ' ' :: ((renderAtom b h).toList ++ [')']), by simp, .inl rfl⟩, ?_⟩
      simpa using hall
  | cons f r ihf ihr =>
    obtain ⟨⟨hfne, hfs⟩, -⟩ := ihf
    obtain ⟨-, ⟨c, cs, hcs, hc⟩, hrs⟩ := ihr
    have hstart : ∀ d ∈ (Tree.renderTail hd r ++ ")").toList.head?, (!isAtomChar d) = true := by
      rw [hcs]
      intro d hd
      cases hd
      rcases hc with rfl | rfl
      · simp [isAtomChar_space]
      · simp [isAtomChar_closing]
    have hne : (Tree.renderTail hd r ++ ")").toList ≠ [] := by simp [hcs]
    refine ⟨?_, ⟨' ', (Tree.renderWith hd f).toList ++ ((Tree.renderTail hd r).toList ++ [')']),
      by simp [Tree.renderTail], .inl rfl⟩, ?_⟩
    · cases f with
      | atom b h =>
        obtain ⟨hhne, hhs, -⟩ := hhd b h
        have hall := (scans_opening.append hhs hhne (fun _ _ => rfl)).append hrs hne hstart
        simp only [Tree.renderWith, treeKinds]
        refine ⟨by simp, ?_⟩
        simpa using hall.mono (fun _ _ => rfl)
      | cons f₁ f₂ =>
        have hall := (scans_opening.append hfs hfne (fun _ _ => rfl)).append hrs hne hstart
        simp only [Tree.renderWith, treeKinds]
        refine ⟨by simp, ?_⟩
        simpa [Tree.renderWith] using hall.mono (fun _ _ => rfl)
    · have hsp : Scans (fun _ => true) [' '] [] := scans_blanks (by simp) (by simp [isBlank_space])
      have hall := (hsp.append hfs hfne (fun _ _ => rfl)).append hrs hne hstart
      simp only [Tree.renderTail, tailKinds]
      simpa using hall

theorem treeKinds_unremarked (t : Tree) :
    (∀ k ∈ treeKinds hd t, k.1 ≠ .remark) ∧ ∀ k ∈ tailKinds hd t, k.1 ≠ .remark := by
  induction t with
  | atom b h =>
    refine ⟨(unremarked_renderAtom b h).2.2, ?_⟩
    by_cases hb : b.isEmpty
    · simp [tailKinds, hb]
    · simpa [tailKinds, hb] using (unremarked_renderAtom b h).2.2
  | cons f r ihf ihr =>
    refine ⟨?_, ?_⟩
    · cases f with
      | atom b h =>
        have := (hhd b h).2.2
        simp only [treeKinds, List.cons_append, List.mem_cons, List.mem_append, List.not_mem_nil,
          or_false]
        rintro k (rfl | (hk | hk) | rfl)
        · simp
        · exact this k hk
        · exact ihr.2 k hk
        · simp
      | cons f₁ f₂ =>
        simp only [treeKinds, List.cons_append, List.mem_cons, List.mem_append, List.not_mem_nil,
          or_false]
        rintro k (rfl | (hk | hk) | rfl)
        · simp
        · exact ihf.1 k hk
        · exact ihr.2 k hk
        · simp
    · simp only [tailKinds, List.mem_append]
      rintro k (hk | hk)
      · exact ihf.1 k hk
      · exact ihr.2 k hk

end Compact

theorem atomOf_toOption (x : String) (p q : Pos) : (atomOf x p).toOption = (atomOf x q).toOption := by
  unfold atomOf
  dsimp only
  split_ifs <;> (try split) <;> rfl

theorem toOption_map {α β ε : Type} (f : α → β) (x : Except ε α) :
    (x.map f).toOption = x.toOption.map f := by
  cases x <;> rfl

theorem unescape_escape (p : Pos) (c : Char) (rest : List Char) :
    unescape p ('\\' :: c :: rest) = match (match c with
      | 'n' => some '\n'
      | 't' => some '\t'
      | 'r' => some '\r'
      | '\\' => some '\\'
      | '"' => some '"'
      | '\'' => some '\''
      | _ => none) with
    | some x => (unescape p rest).map (x :: ·)
    | none => .error (.invalidEscape (String.singleton c) p) := rfl

theorem unescape_toOption (p q : Pos) :
    ∀ cs : List Char, (unescape p cs).toOption = (unescape q cs).toOption
  | [] => rfl
  | c :: rest => by
    by_cases hc : c = '\\'
    · subst hc
      cases rest with
      | nil => rfl
      | cons c' rest' =>
        rw [unescape_escape, unescape_escape]
        split
        · simp only [toOption_map, unescape_toOption p q rest']
        · rfl
    · rw [unescape_plain p hc, unescape_plain q hc, toOption_map, toOption_map,
        unescape_toOption p q rest]

theorem atomTree?_congr {t u : Token} (h : t.kind = u.kind) : atomTree? t = atomTree? u := by
  obtain ⟨hg, hx⟩ := token_of_kind h.symm
  unfold atomTree?
  rw [← hg, ← hx]
  split
  · split
    · rfl
    · rw [atomOf_toOption _ u.pos t.pos]
  · rw [unescape_toOption u.pos t.pos]
  · rfl

theorem Shape.feed_congr (s : Shape) {t u : Token} (h : t.kind = u.kind) :
    s.feed t = s.feed u := by
  obtain ⟨hg, hx⟩ := token_of_kind h.symm
  unfold Shape.feed
  rw [← hg, ← hx, atomTree?_congr h]

theorem Shape.feedAll_congr : ∀ (s : Shape) {ts us : List Token},
    ts.map Token.kind = us.map Token.kind → s.feedAll ts = s.feedAll us
  | s, [], [], _ => rfl
  | s, t :: ts, u :: us, h => by
    simp only [List.map_cons, List.cons.injEq] at h
    simp only [Shape.feedAll, s.feed_congr h.1]
    cases s.feed u with
    | none => rfl
    | some s' => exact Shape.feedAll_congr s' h.2
  | _, [], _ :: _, h => by simp at h
  | _, _ :: _, [], h => by simp at h

/-- What a text parses to depends only on the kinds of its tokens other than blanks and
remarks, once it scans. -/
theorem parse_congr {a b : String} (ha : (scan a).2 = none) (hb : (scan b).2 = none)
    (hk : ((scan a).1.filter Token.significant).map Token.kind =
      ((scan b).1.filter Token.significant).map Token.kind) :
    (parse a).toOption = (parse b).toOption := by
  have key : ∀ x, parse a = .ok x ↔ parse b = .ok x := by
    intro x
    rw [parse_eq_ok_iff, readAll_trees, parse_eq_ok_iff, readAll_trees,
      Shape.feedAll_significant, Shape.feedAll_significant _ (scan b).1,
      Shape.feedAll_congr _ hk, ha, hb]
  cases hpa : parse a with
  | ok x => rw [(key x).1 hpa]
  | error e =>
    cases hpb : parse b with
    | ok y => exact absurd ((key y).2 hpb) (by simp [hpa])
    | error e' => rfl

end PuzzleKit.SExpr
