import PuzzleKit.Proofs.AtomText

/-!
# Tokens of a text made of pieces

The scanner reads one character at a time, and a run of atom characters or of blanks is only
complete when the next character cannot go on with it. So a text made of pieces (parentheses,
single spaces, runs of atom characters, quoted texts) is scanned piece by piece as long as no
piece leaves a run that the next one continues.

`Scans stop x ks` says that scanning the characters `x` from a token boundary, followed by any
text whose first character `stop` accepts, gives tokens of kinds `ks` (blanks left out) and
then exactly the tokens of the rest, with the rest's failure. Each piece has its `Scans` lemma,
and `Scans.append` joins two of them when the second starts with a character the first stops
at.
-/

namespace PuzzleKit.SExpr

/-- What the reader sees of a token: its class and text, not where it stands. -/
def Token.kind (t : Token) : Group × String := (t.group, t.text)

/-- The tokens other than blanks. -/
def solid (ts : List Token) : List Token := ts.filter fun t => t.group != .blank

theorem solid_append (ts us : List Token) : solid (ts ++ us) = solid ts ++ solid us :=
  List.filter_append _ _

theorem solid_cons_of_ne {t : Token} (h : t.group ≠ .blank) (ts : List Token) :
    solid (t :: ts) = t :: solid ts := by
  simp [solid, h]

theorem solid_cons_blank {t : Token} (h : t.group = .blank) (ts : List Token) :
    solid (t :: ts) = solid ts := by
  simp [solid, h]

/-- Scanning `x` then a text that starts with a character `stop` accepts: the tokens of `x`
have kinds `ks`, and the rest is scanned as if it stood alone at some place `p'`. -/
def Scans (stop : Char → Bool) (x : List Char) (ks : List (Group × String)) : Prop :=
  ∀ rest p, (∀ c ∈ rest.head?, stop c = true) → ∃ ts p', ts.map Token.kind = ks ∧
    solid (scanFrom (x ++ rest) .idle p).1 = ts ++ solid (scanFrom rest .idle p').1 ∧
    (scanFrom (x ++ rest) .idle p).2 = (scanFrom rest .idle p').2

theorem Scans.mono {s s' : Char → Bool} {x : List Char} {ks : List (Group × String)}
    (h : Scans s x ks) (hs : ∀ c, s' c = true → s c = true) : Scans s' x ks :=
  fun rest p hrest => h rest p fun c hc => hs c (hrest c hc)

theorem Scans.append {s₁ s₂ : Char → Bool} {x y : List Char} {ks ks' : List (Group × String)}
    (hx : Scans s₁ x ks) (hy : Scans s₂ y ks') (hne : y ≠ [])
    (hj : ∀ c ∈ y.head?, s₁ c = true) : Scans s₂ (x ++ y) (ks ++ ks') := by
  intro rest p hrest
  have hhead : ∀ c ∈ (y ++ rest).head?, s₁ c = true := by
    obtain ⟨c, cs, rfl⟩ := List.exists_cons_of_ne_nil hne
    exact hj
  obtain ⟨ts, p₁, hks, hsolid, herr⟩ := hx (y ++ rest) p hhead
  obtain ⟨us, p₂, hks', hsolid', herr'⟩ := hy rest p₁ hrest
  refine ⟨ts ++ us, p₂, by rw [List.map_append, hks, hks'], ?_, ?_⟩
  · rw [List.append_assoc, hsolid, hsolid', List.append_assoc]
  · rw [List.append_assoc, herr, herr']

/-! ## One step of the scanner -/

theorem scanFrom_cons_of_step {st st' : Partial} {c : Char} {p : Pos} {ts : List Token}
    (h : step st c p = (ts, .ok st')) (cs : List Char) :
    scanFrom (c :: cs) st p =
      (ts ++ (scanFrom cs st' (p.advance c)).1, (scanFrom cs st' (p.advance c)).2) := by
  simp only [scanFrom, h]

theorem step_run_of_continues_false {g : Group} {f : Pos} {acc : List Char} {c : Char}
    (h : continues g c = false) (p : Pos) :
    step (.run g f acc) c p =
      (⟨g, String.ofList acc.reverse, f⟩ :: (step .idle c p).1, (step .idle c p).2) := by
  simp only [step, h, Bool.false_eq_true, if_false, Partial.finish]
  cases begin c p with
  | ok r => rfl
  | error e => rfl

theorem scanFrom_run_of_stop {g : Group} {f : Pos} {acc rest : List Char}
    (h : ∀ c ∈ rest.head?, continues g c = false) (p : Pos) :
    scanFrom rest (.run g f acc) p =
      (⟨g, String.ofList acc.reverse, f⟩ :: (scanFrom rest .idle p).1,
        (scanFrom rest .idle p).2) := by
  cases rest with
  | nil => rfl
  | cons c cs =>
    have hstep : step (.run g f acc) c p = _ := step_run_of_continues_false (h c rfl) p
    cases hs : step .idle c p with
    | mk ts r =>
      rw [hs] at hstep
      cases r with
      | error e => simp only [scanFrom, hstep, hs]
      | ok st' => simp only [scanFrom, hstep, hs, List.cons_append]

theorem scanFrom_run_of_continues {g : Group} {f : Pos} {cs : List Char}
    (h : ∀ c ∈ cs, continues g c = true) (acc rest : List Char) (p : Pos) :
    scanFrom (cs ++ rest) (.run g f acc) p =
      scanFrom rest (.run g f (cs.reverse ++ acc)) (p.advanceAll cs) := by
  induction cs generalizing acc p with
  | nil => rfl
  | cons c cs ih =>
    have hc : step (.run g f acc) c p = ([], .ok (.run g f (c :: acc))) := by
      simp [step, h c (by simp)]
    rw [List.cons_append, scanFrom_cons_of_step hc, ih (fun d hd => h d (by simp [hd]))]
    simp [Pos.advanceAll]

/-! ## The pieces -/

theorem scans_opening : Scans (fun _ => true) ['('] [(.opening, "(")] := by
  intro rest p _
  have hs : step .idle '(' p = ([⟨.opening, "(", p⟩], .ok .idle) := by
    simp [step, begin, Text.isBlank, Text.blankRanges]
  refine ⟨[⟨.opening, "(", p⟩], p.advance '(', rfl, ?_, ?_⟩
  · rw [List.singleton_append, scanFrom_cons_of_step hs, solid_append, solid_cons_of_ne (by simp)]
    rfl
  · rw [List.singleton_append, scanFrom_cons_of_step hs]

theorem scans_closing : Scans (fun _ => true) [')'] [(.closing, ")")] := by
  intro rest p _
  have hs : step .idle ')' p = ([⟨.closing, ")", p⟩], .ok .idle) := by
    simp [step, begin, Text.isBlank, Text.blankRanges]
  refine ⟨[⟨.closing, ")", p⟩], p.advance ')', rfl, ?_, ?_⟩
  · rw [List.singleton_append, scanFrom_cons_of_step hs, solid_append, solid_cons_of_ne (by simp)]
    rfl
  · rw [List.singleton_append, scanFrom_cons_of_step hs]

theorem scans_space : Scans (fun c => !Text.isBlank c) [' '] [] := by
  intro rest p hrest
  have hs : step .idle ' ' p = ([], .ok (.run .blank p [' '])) := by
    simp [step, begin, Text.isBlank, Text.blankRanges]
  have hstop : ∀ c ∈ rest.head?, continues .blank c = false := by
    intro c hc
    simpa [continues] using hrest c hc
  refine ⟨[], p.advance ' ', rfl, ?_, ?_⟩
  · rw [List.singleton_append, scanFrom_cons_of_step hs, scanFrom_run_of_stop hstop,
      List.nil_append, solid_cons_blank rfl]
    rfl
  · rw [List.singleton_append, scanFrom_cons_of_step hs, scanFrom_run_of_stop hstop]

/-- A run of atom characters is one atom token, when the next character is no atom
character. -/
theorem scans_word {w : List Char} (hne : w ≠ []) (hw : ∀ c ∈ w, isAtomChar c = true) :
    Scans (fun c => !isAtomChar c) w [(.atom, String.ofList w)] := by
  intro rest p hrest
  obtain ⟨c, cs, rfl⟩ := List.exists_cons_of_ne_nil hne
  have hc := hw c (by simp)
  have hbegin : begin c p = .ok ([], .run .atom p [c]) := by
    have hc' := hc
    simp only [isAtomChar, Bool.and_eq_true, decide_eq_true_eq, Bool.not_eq_true'] at hc'
    obtain ⟨⟨⟨⟨⟨⟨⟨hb, -⟩, -⟩, hl⟩, hr⟩, hq⟩, hs⟩, ht⟩ := hc'
    simp [begin, hb, hl, hr, hq, hs, ht, hc]
  have hs : step .idle c p = ([], .ok (.run .atom p [c])) := by
    simp [step, hbegin]
  have hcont : ∀ d ∈ cs, continues .atom d = true := fun d hd => hw d (by simp [hd])
  have hstop : ∀ d ∈ rest.head?, continues .atom d = false := by
    intro d hd
    simpa [continues] using hrest d hd
  have hrun : scanFrom (cs ++ rest) (.run .atom p [c]) (p.advance c) = _ :=
    scanFrom_run_of_continues hcont [c] rest (p.advance c)
  refine ⟨[⟨.atom, String.ofList (c :: cs), p⟩], (p.advance c).advanceAll cs, rfl, ?_, ?_⟩
  · rw [List.cons_append, scanFrom_cons_of_step hs, hrun, scanFrom_run_of_stop hstop,
      List.nil_append, solid_cons_of_ne (by simp)]
    simp
  · rw [List.cons_append, scanFrom_cons_of_step hs, hrun, scanFrom_run_of_stop hstop]

/-! ## Quoted text -/

theorem step_string_plain {f : Pos} {acc : List Char} {c : Char}
    (hc : Text.escapeLetter? c = none) (p : Pos) :
    step (.string f acc false) c p = ([], .ok (.string f (c :: acc) false)) := by
  have hn : c ≠ '\n' := by rintro rfl; simp [Text.escapeLetter?] at hc
  have hq : c ≠ '"' := by rintro rfl; simp [Text.escapeLetter?] at hc
  have hb : c ≠ '\\' := by rintro rfl; simp [Text.escapeLetter?] at hc
  simp [step, hn, hq, hb]

theorem scanFrom_string_escaped (c : Char) (rest : List Char) (f : Pos) (acc : List Char)
    (p : Pos) : ∃ p', scanFrom (escaped c ++ rest) (.string f acc false) p =
      scanFrom rest (.string f ((escaped c).reverse ++ acc) false) p' := by
  unfold escaped
  cases he : Text.escapeLetter? c with
  | none =>
    exact ⟨p.advance c, by rw [List.singleton_append, scanFrom_cons_of_step (step_string_plain he p)]; rfl⟩
  | some e =>
    -- a backslash, then the escape letter, which is never a newline
    have hen : e ≠ '\n' := by
      unfold Text.escapeLetter? at he
      split at he <;> cases he <;> decide
    have h1 : step (.string f acc false) '\\' p = ([], .ok (.string f ('\\' :: acc) true)) := by
      simp [step]
    have h2 : step (.string f ('\\' :: acc) true) e (p.advance '\\') =
        ([], .ok (.string f (e :: '\\' :: acc) false)) := by
      simp [step, hen]
    refine ⟨(p.advance '\\').advance e, ?_⟩
    rw [List.cons_append, scanFrom_cons_of_step h1, List.cons_append, scanFrom_cons_of_step h2]
    rfl

theorem scanFrom_string_body (cs : List Char) (rest : List Char) (f : Pos) (acc : List Char)
    (p : Pos) : ∃ p', scanFrom (cs.flatMap escaped ++ rest) (.string f acc false) p =
      scanFrom rest (.string f ((cs.flatMap escaped).reverse ++ acc) false) p' := by
  induction cs generalizing acc p with
  | nil => exact ⟨p, rfl⟩
  | cons c cs ih =>
    obtain ⟨p₁, h₁⟩ := scanFrom_string_escaped c (cs.flatMap escaped ++ rest) f acc p
    obtain ⟨p₂, h₂⟩ := ih ((escaped c).reverse ++ acc) p₁
    refine ⟨p₂, ?_⟩
    rw [List.flatMap_cons, List.append_assoc, h₁, h₂, List.reverse_append, List.append_assoc]

theorem scans_quote (s : String) :
    Scans (fun _ => true) (Text.quote s).toList [(.string, Text.quote s)] := by
  intro rest p _
  have hs : step .idle '"' p = ([], .ok (.string p ['"'] false)) := by
    simp [step, begin, Text.isBlank, Text.blankRanges]
  obtain ⟨p₁, hbody⟩ := scanFrom_string_body s.toList (['"'] ++ rest) p ['"'] (p.advance '"')
  let acc := (s.toList.flatMap escaped).reverse ++ ['"']
  have hclose : step (.string p acc false) '"' p₁ =
      ([⟨.string, String.ofList ('"' :: acc).reverse, p⟩], .ok .idle) := by
    simp [step]
  have htext : String.ofList ('"' :: acc).reverse = Text.quote s := by
    rw [← String.toList_inj, String.toList_ofList, toList_quote]
    simp [acc]
  have hscan : scanFrom ((Text.quote s).toList ++ rest) .idle p =
      (⟨.string, Text.quote s, p⟩ :: (scanFrom rest .idle (p₁.advance '"')).1,
        (scanFrom rest .idle (p₁.advance '"')).2) := by
    rw [toList_quote, List.cons_append, List.cons_append, scanFrom_cons_of_step hs,
      List.nil_append, List.append_assoc, hbody, List.singleton_append,
      scanFrom_cons_of_step hclose, htext]
    rfl
  refine ⟨[⟨.string, Text.quote s, p⟩], p₁.advance '"', rfl, ?_, ?_⟩
  · rw [hscan, solid_cons_of_ne (by simp)]
    rfl
  · rw [hscan]

end PuzzleKit.SExpr
