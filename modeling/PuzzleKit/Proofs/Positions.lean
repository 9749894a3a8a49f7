import PuzzleKit.SExpr.Token
import PuzzleKit.Script.Token
import PuzzleKit.Proofs.ActionNames
import Mathlib.Tactic.SplitIfs

/-!
# Where tokens stand

`Pos.after pre` is the place of the character that follows the text `pre`, said without any
scan: its line is one more than the newlines in `pre`, its column one more than the characters
after the last of them. Both scanners count places as they go, one character or one taken run
at a time (`Pos.advanceAll_after`), and report each token and each fault at the place of its
first character.

For S-expression text the invariant is over the token being read: it starts where the tokens
before it end, and a string starts with its quote (`SExpr.Partial.Placed`); each character
keeps it (`SExpr.step_places`), so the whole scan does (`SExpr.scanFrom_places`). For source
text each step takes a nonempty run from the front (`Script.next_split`) and faults at the
place it starts (`Script.next_error_pos`), and the scan has a step for every character.
-/

namespace PuzzleKit

namespace Pos

/-- The place of the character that follows the text `pre`: one line more than the newlines in
`pre`, and one column more than the characters after the last of them. -/
def after (pre : List Char) : Pos :=
  ⟨pre.count '\n' + 1, (pre.reverse.takeWhile (· ≠ '\n')).length + 1⟩

theorem after_nil : after [] = start := rfl

theorem after_concat (pre : List Char) (c : Char) :
    after (pre ++ [c]) = (after pre).advance c := by
  by_cases hc : c = '\n'
  · subst hc
    simp [after, advance]
  · simp [after, advance, hc]

/-- Reading on from the place after a text gives the place after the longer text. -/
theorem advanceAll_after (pre cs : List Char) :
    (after pre).advanceAll cs = after (pre ++ cs) := by
  induction cs generalizing pre with
  | nil => simp [advanceAll]
  | cons c cs ih =>
    rw [advanceAll, List.foldl_cons, ← after_concat]
    rw [← advanceAll, ih, List.append_assoc, List.singleton_append]

end Pos

namespace SExpr

/-- The characters a scan has read into the token it is still reading. -/
def Partial.pending : Partial → List Char
  | .idle => []
  | .run _ _ acc => acc.reverse
  | .string _ acc _ => acc.reverse

@[simp] theorem Partial.pending_idle : Partial.idle.pending = [] := rfl

@[simp] theorem Partial.pending_run (g : Group) (first : Pos) (acc : List Char) :
    (Partial.run g first acc).pending = acc.reverse := rfl

@[simp] theorem Partial.pending_string (first : Pos) (acc : List Char) (escaped : Bool) :
    (Partial.string first acc escaped).pending = acc.reverse := rfl

/-- What a token being read keeps is true of the text: it starts where the tokens before it
end, and a string starts with its quote. -/
def Partial.Placed (pre : List Char) : Partial → Prop
  | .idle => True
  | .run _ first _ => first = Pos.after pre
  | .string first acc _ => first = Pos.after pre ∧ acc.reverse.head? = some '"'

/-- The characters of tokens, in order. -/
def texts (ts : List Token) : List Char := ts.flatMap (·.text.toList)

/-- Each token stands where the text before it ends, `pre` followed by the tokens before it. -/
def Placed (pre : List Char) : List Token → Prop
  | [] => True
  | t :: ts => t.pos = Pos.after pre ∧ Placed (pre ++ t.text.toList) ts

/-- A failure of the scan stands at the character of the text `s` that follows `pre`: an
unexpected character is that character, and a string left open starts there. -/
def ReadError.StopsAt (s pre : List Char) : ReadError → Prop
  | .unexpectedChar c p => p = Pos.after pre ∧ ∃ rest, s = pre ++ c :: rest
  | .unterminatedString p => p = Pos.after pre ∧ ∃ rest, s = pre ++ '"' :: rest
  | _ => False

/-- A scan of the text `s` after `pre` gives tokens standing where their text does; without a
failure their texts make up the text, and a failure stands where the tokens end. -/
def Scanned (s pre : List Char) (r : List Token × Option ReadError) : Prop :=
  Placed pre r.1 ∧ (r.2 = none → pre ++ texts r.1 = s) ∧
    ∀ e, r.2 = some e → e.StopsAt s (pre ++ texts r.1)

@[simp] theorem texts_nil : texts [] = [] := rfl

@[simp] theorem texts_cons (t : Token) (ts : List Token) :
    texts (t :: ts) = t.text.toList ++ texts ts := rfl

@[simp] theorem texts_append (ts us : List Token) : texts (ts ++ us) = texts ts ++ texts us := by
  simp [texts]

theorem placed_append (pre : List Char) (ts us : List Token) :
    Placed pre (ts ++ us) ↔ Placed pre ts ∧ Placed (pre ++ texts ts) us := by
  induction ts generalizing pre with
  | nil => simp [Placed]
  | cons t ts ih => simp [Placed, ih, and_assoc]

theorem placed_finish {pre : List Char} {st : Partial} (h : st.Placed pre) :
    Placed pre st.finish ∧ texts st.finish = st.pending := by
  cases st with
  | idle => simp [Partial.finish, Partial.pending, Placed]
  | run g first acc =>
    simp only [Partial.Placed] at h
    simp [Partial.finish, Partial.pending, Placed, h, String.toList_ofList]
  | string first acc escaped =>
    simp only [Partial.Placed] at h
    simp [Partial.finish, Partial.pending, Placed, h.1, String.toList_ofList]

theorem begin_places {c : Char} {pre : List Char} {ts : List Token} {st : Partial}
    (h : begin c (Pos.after pre) = .ok (ts, st)) :
    Placed pre ts ∧ texts ts ++ st.pending = [c] ∧ st.Placed (pre ++ texts ts) := by
  unfold begin at h
  split_ifs at h <;> cases h <;> simp_all [Placed, Partial.pending, Partial.Placed]

theorem begin_error {c : Char} {p : Pos} {e : ReadError} (h : begin c p = .error e) :
    e = .unexpectedChar c p := by
  unfold begin at h
  split_ifs at h
  cases h
  rfl

theorem begin_ok_places {c : Char} {pre : List Char} {done us : List Token} {st : Partial}
    (hdone : Placed pre done) (hb : begin c (Pos.after (pre ++ texts done)) = .ok (us, st)) :
    Placed pre (done ++ us) ∧ texts (done ++ us) ++ st.pending = texts done ++ [c] ∧
      st.Placed (pre ++ texts (done ++ us)) := by
  obtain ⟨hus, htexts, hst⟩ := begin_places hb
  refine ⟨(placed_append _ _ _).mpr ⟨hdone, hus⟩, by simp [htexts], by simpa using hst⟩

theorem begin_error_stops {c : Char} {pre : List Char} {e : ReadError}
    (hb : begin c (Pos.after pre) = .error e) (rest : List Char) :
    e.StopsAt (pre ++ c :: rest) pre := by
  rw [begin_error hb]
  exact ⟨rfl, rest, rfl⟩

/-- One character of the scan keeps every token where its text stands: the tokens it completes
follow `pre`, what it reads on keeps the text, and a failure stands at the character or at the
string it leaves open. -/
theorem step_places {st : Partial} {c : Char} {pre : List Char} {ts : List Token}
    {r : Except ReadError Partial} (hst : st.Placed pre)
    (h : step st c (Pos.after (pre ++ st.pending)) = (ts, r)) (rest : List Char) :
    Placed pre ts ∧
      (∀ st', r = .ok st' → texts ts ++ st'.pending = st.pending ++ [c] ∧
        st'.Placed (pre ++ texts ts)) ∧
      (∀ e, r = .error e → e.StopsAt (pre ++ st.pending ++ c :: rest) (pre ++ texts ts)) := by
  cases st with
  | idle =>
    simp only [step, Partial.pending_idle, List.append_nil] at h ⊢
    split at h
    · rename_i us st' hb
      cases h
      obtain ⟨hus, htexts, hst'⟩ := begin_ok_places (show Placed pre [] from trivial)
        (by simpa using hb)
      refine ⟨by simpa using hus, ?_, by simp⟩
      rintro _ ⟨⟩
      exact ⟨by simpa using htexts, by simpa using hst'⟩
    · rename_i e hb
      cases h
      refine ⟨trivial, by simp, ?_⟩
      rintro _ ⟨⟩
      simpa using begin_error_stops hb rest
  | run g first acc =>
    simp only [Partial.Placed] at hst
    have hfin := placed_finish (show (Partial.run g first acc).Placed pre from hst)
    simp only [step, Partial.pending_run] at h hfin ⊢
    split at h
    · cases h
      refine ⟨trivial, ?_, by simp⟩
      rintro _ ⟨⟩
      exact ⟨by simp, by simpa [Partial.Placed] using hst⟩
    · rw [← hfin.2] at h ⊢
      split at h
      · rename_i us st' hb
        cases h
        obtain ⟨hus, htexts, hst'⟩ := begin_ok_places hfin.1 hb
        refine ⟨hus, ?_, by simp⟩
        rintro _ ⟨⟩
        exact ⟨htexts, hst'⟩
      · rename_i e hb
        cases h
        refine ⟨hfin.1, by simp, ?_⟩
        rintro _ ⟨⟩
        simpa using begin_error_stops hb rest
  | string first acc escaped =>
    obtain ⟨hfirst, hquote⟩ := hst
    obtain ⟨body, hbody⟩ := List.head?_eq_some_iff.mp hquote
    simp only [step, Partial.pending_string] at h ⊢
    split_ifs at h
    · cases h
      refine ⟨trivial, by simp, ?_⟩
      rintro _ ⟨⟩
      exact ⟨by simpa using hfirst, body ++ c :: rest, by simp [hbody]⟩
    · cases h
      refine ⟨trivial, ?_, by simp⟩
      rintro _ ⟨⟩
      exact ⟨by simp, by simpa using hfirst, by simp [hbody]⟩
    · cases h
      refine ⟨⟨hfirst, trivial⟩, ?_, by simp⟩
      rintro _ ⟨⟩
      simp [Partial.Placed, String.toList_ofList]
    · cases h
      refine ⟨trivial, ?_, by simp⟩
      rintro _ ⟨⟩
      exact ⟨by simp, by simpa using hfirst, by simp [hbody]⟩

/-- The scan from a token being read keeps every token where its text stands, to the end of
the text or to the failure. -/
theorem scanFrom_places (cs : List Char) : ∀ (st : Partial) (pre : List Char), st.Placed pre →
    Scanned (pre ++ st.pending ++ cs) pre (scanFrom cs st (Pos.after (pre ++ st.pending))) := by
  induction cs with
  | nil =>
    intro st pre hst
    cases st with
    | string first acc escaped =>
      obtain ⟨hfirst, hquote⟩ := hst
      obtain ⟨body, hbody⟩ := List.head?_eq_some_iff.mp hquote
      refine ⟨trivial, by simp [scanFrom], ?_⟩
      intro e he
      simp only [scanFrom, Option.some.injEq] at he
      subst he
      exact ⟨by simpa [scanFrom] using hfirst, body, by simp [scanFrom, hbody]⟩
    | idle => exact ⟨trivial, by simp [scanFrom, Partial.finish], by simp [scanFrom]⟩
    | run g first acc =>
      have hfin := placed_finish (show (Partial.run g first acc).Placed pre from hst)
      exact ⟨hfin.1, by simp [scanFrom, hfin.2], by simp [scanFrom]⟩
  | cons c cs ih =>
    intro st pre hst
    rcases hstep : step st c (Pos.after (pre ++ st.pending)) with ⟨ts, r⟩
    obtain ⟨hts, hok, herr⟩ := step_places hst hstep cs
    cases r with
    | error e =>
      simp only [scanFrom, hstep]
      refine ⟨hts, by simp, ?_⟩
      rintro _ ⟨⟩
      exact herr e rfl
    | ok st' =>
      obtain ⟨htexts, hst'⟩ := hok st' rfl
      -- the text read so far is the same, cut after the tokens or after the character
      have hread : pre ++ texts ts ++ st'.pending = pre ++ st.pending ++ [c] := by
        rw [List.append_assoc, htexts, List.append_assoc]
      have hpos : (Pos.after (pre ++ st.pending)).advance c =
          Pos.after (pre ++ texts ts ++ st'.pending) := by
        rw [hread, Pos.after_concat]
      have hrest := ih st' (pre ++ texts ts) hst'
      rw [← hpos, hread, List.append_assoc _ [c], List.singleton_append] at hrest
      obtain ⟨hp, hnone, hsome⟩ := hrest
      simp only [scanFrom, hstep]
      refine ⟨(placed_append _ _ _).mpr ⟨hts, hp⟩, fun h => by simpa using hnone h,
        fun e h => by simpa using hsome e h⟩

theorem scan_places (s : String) : Scanned s.toList [] (scan s) := by
  simpa [scan, Pos.after_nil] using scanFrom_places s.toList .idle [] trivial

theorem tokens_places (s : String) :
    (∀ ts, tokens s = .ok ts → Placed [] ts ∧ texts ts = s.toList) ∧
    ∀ e, tokens s = .error e → ∃ pre, e.StopsAt s.toList pre := by
  obtain ⟨hplaced, hnone, hsome⟩ := scan_places s
  unfold tokens
  split
  · rename_i ts hscan
    rw [hscan] at hplaced hnone
    refine ⟨fun ts' h => ?_, fun e h => by cases h⟩
    cases h
    exact ⟨hplaced, by simpa using hnone rfl⟩
  · rename_i ts e hscan
    rw [hscan] at hsome
    refine ⟨fun ts' h => (by cases h), fun e' h => ?_⟩
    cases h
    exact ⟨_, hsome e rfl⟩

end SExpr

namespace Script

theorem takeWhile_append_drop (p : Char → Bool) (l : List Char) :
    l.takeWhile p ++ l.drop (l.takeWhile p).length = l := by
  induction l with
  | nil => rfl
  | cons a l ih =>
    by_cases ha : p a
    · simp [ha, ih]
    · simp [ha]

theorem blockEnd_split {l body after : List Char} (h : blockEnd l = some (body, after)) :
    body ++ after = l := by
  fun_induction blockEnd l generalizing body after with
  | case1 rest =>
    simp only [Option.some.injEq, Prod.mk.injEq] at h
    obtain ⟨rfl, rfl⟩ := h
    rfl
  | case2 c rest _ ih =>
    obtain ⟨⟨body', after'⟩, hrest, heq⟩ := Option.map_eq_some_iff.mp h
    simp only [Prod.mk.injEq] at heq
    obtain ⟨rfl, rfl⟩ := heq
    simp [ih hrest]
  | case3 => simp at h

theorem quoted_split {q : Char} {l body after : List Char}
    (h : quoted q l = some (body, after)) : body ++ q :: after = l := by
  fun_induction quoted q l generalizing body after with
  | case1 c rest ih =>
    obtain ⟨⟨body', after'⟩, hrest, heq⟩ := Option.map_eq_some_iff.mp h
    simp only [Prod.mk.injEq] at heq
    obtain ⟨rfl, rfl⟩ := heq
    simp [ih hrest]
  | case2 rest =>
    simp only [Option.some.injEq, Prod.mk.injEq] at h
    obtain ⟨rfl, rfl⟩ := h
    rfl
  | case3 => simp at h
  | case4 c rest _ _ _ ih =>
    obtain ⟨⟨body', after'⟩, hrest, heq⟩ := Option.map_eq_some_iff.mp h
    simp only [Prod.mk.injEq] at heq
    obtain ⟨rfl, rfl⟩ := heq
    simp [ih hrest]
  | case5 => simp at h

theorem unescape_error_pos {pos : Pos} {body : List Char} {f : Failure}
    (h : unescape pos body = .error f) : f.pos = some pos := by
  fun_induction unescape pos body with
  | case1 c rest e he ih =>
    cases hr : unescape pos rest with
    | error f' =>
      rw [hr] at h
      cases h
      exact ih hr
    | ok v =>
      rw [hr] at h
      cases h
  | case2 c rest he =>
    cases h
    rfl
  | case3 c rest _ ih =>
    cases hr : unescape pos rest with
    | error f' =>
      rw [hr] at h
      cases h
      exact ih hr
    | ok v =>
      rw [hr] at h
      cases h
  | case4 => cases h

theorem except_bind_error {ε α β : Type} {x : Except ε α} {f : α → Except ε β} {e : ε}
    (h : (x >>= f) = .error e) : x = .error e ∨ ∃ a, x = .ok a ∧ f a = .error e := by
  cases x with
  | error e' =>
    cases h
    exact .inl rfl
  | ok a => exact .inr ⟨a, rfl, h⟩

/-- Every fault of a scan step stands at the place the step starts. -/
theorem next_error_pos {cs : List Char} {pos : Pos} {f : Failure}
    (h : next cs pos = .error f) : f.pos = some pos := by
  unfold next at h
  split at h
  · cases h
  · dsimp only at h
    repeat' split at h
    -- the branches that read a token cannot fail
    all_goals try (simp at h; done)
    all_goals try (cases h; rfl)
    rcases except_bind_error h with h | ⟨text, -, h⟩
    · exact unescape_error_pos h
    · cases h

/-- A scan step takes at least one character from the front of a text that is not empty, and
leaves the rest. -/
theorem next_split {cs : List Char} {pos : Pos} {tok : Option Lexeme} {taken rest : List Char}
    (hne : cs ≠ []) (h : next cs pos = .ok (tok, taken, rest)) :
    taken ++ rest = cs ∧ taken ≠ [] := by
  unfold next at h
  split at h
  · exact absurd rfl hne
  · rename_i c more
    dsimp only at h
    repeat' split at h
    all_goals try (simp at h; done)
    · cases h
      exact ⟨by simp [takeWhile_append_drop], by simp⟩
    · next _ hline =>
      cases h
      simp only [Bool.and_eq_true, decide_eq_true_eq] at hline
      exact ⟨takeWhile_append_drop _ _, by simp [hline.1]⟩
    · next _ _ hblock _ body after hend =>
      cases h
      simp only [Bool.and_eq_true, decide_eq_true_eq] at hblock
      obtain ⟨rfl, hstar⟩ := hblock
      obtain ⟨m, rfl⟩ := List.head?_eq_some_iff.mp hstar
      simp only [List.drop_succ_cons, List.drop_zero] at hend
      simp [← blockEnd_split hend]
    · next _ _ _ hhex _ =>
      cases h
      simp only [Bool.and_eq_true, decide_eq_true_eq] at hhex
      obtain ⟨rfl, hx⟩ := hhex
      obtain ⟨m, rfl⟩ := List.head?_eq_some_iff.mp hx
      simp [takeWhile_append_drop]
    · cases h
      exact ⟨by simp [takeWhile_append_drop], by simp⟩
    · next _ _ _ _ _ _ _ body after hquote =>
      obtain ⟨text, -, h⟩ := except_bind_ok h
      cases h
      rw [← quoted_split hquote]
      simp
    · cases h
      exact ⟨by simp [takeWhile_append_drop], by simp⟩
    all_goals
      cases h
      simp

/-- A token is read at the text `rest` that starts where it stands: the scan step there reads
it, or it is the end of input and the text has ended. -/
def ReadAt (rest : List Char) (t : Token) : Prop :=
  (∃ taken after, next rest t.pos = .ok (some t.lexeme, taken, after)) ∨
    (t.lexeme = .eof ∧ rest = [])

/-- A scan with more steps than characters left places every token at the text it is read
from, and every fault at the text whose step makes it. -/
theorem scanFrom_places (fuel : Nat) : ∀ (pre cs : List Char), cs.length < fuel →
    (∀ ts, scanFrom fuel cs (Pos.after pre) = .ok ts → ∀ t ∈ ts,
      ∃ pre' rest, pre' ++ rest = pre ++ cs ∧ t.pos = Pos.after pre' ∧ ReadAt rest t) ∧
    (∀ f, scanFrom fuel cs (Pos.after pre) = .error f →
      ∃ pre' rest, pre' ++ rest = pre ++ cs ∧ f.pos = some (Pos.after pre') ∧
        next rest (Pos.after pre') = .error f) := by
  induction fuel with
  | zero =>
    intro pre cs hlen
    exact absurd hlen (Nat.not_lt_zero _)
  | succ fuel ih =>
    intro pre cs hlen
    unfold scanFrom
    split
    · -- the text has ended: only the end of input, where the text ends
      rename_i hcs
      obtain rfl := List.isEmpty_iff.mp hcs
      refine ⟨fun ts h t ht => ?_, fun f h => by cases h⟩
      cases h
      rw [List.mem_singleton] at ht
      subst ht
      exact ⟨pre, [], rfl, rfl, .inr ⟨rfl, rfl⟩⟩
    · rename_i hcs
      have hne : cs ≠ [] := fun h => hcs (List.isEmpty_iff.mpr h)
      -- a step that reads takes characters, so what follows is scanned with one step less
      have hstep : ∀ {tok taken rest}, next cs (Pos.after pre) = .ok (tok, taken, rest) →
          (pre ++ taken) ++ rest = pre ++ cs ∧ rest.length < fuel ∧
            (Pos.after pre).advanceAll taken = Pos.after (pre ++ taken) := by
        intro tok taken rest hnext
        obtain ⟨hsplit, htaken⟩ := next_split hne hnext
        have hlen' : taken.length + rest.length = cs.length := by
          rw [← List.length_append, hsplit]
        have hpos : 0 < taken.length := List.length_pos_iff.mpr htaken
        exact ⟨by rw [List.append_assoc, hsplit], by omega, Pos.advanceAll_after _ _⟩
      refine ⟨fun ts h => ?_, fun f h => ?_⟩
      · obtain ⟨⟨tok, taken, rest⟩, hnext, h⟩ := except_bind_ok h
        obtain ⟨hwhole, hrest, hpos⟩ := hstep hnext
        obtain ⟨more, hmore, h⟩ := except_bind_ok h
        rw [hpos] at hmore
        have hmore' := (ih (pre ++ taken) rest hrest).1 more hmore
        intro t ht
        cases tok with
        | none =>
          cases h
          obtain ⟨pre', r, hw, htp, hread⟩ := hmore' t ht
          exact ⟨pre', r, hw.trans hwhole, htp, hread⟩
        | some l =>
          cases h
          rcases List.mem_cons.mp ht with rfl | ht
          · exact ⟨pre, cs, rfl, rfl, .inl ⟨taken, rest, hnext⟩⟩
          · obtain ⟨pre', r, hw, htp, hread⟩ := hmore' t ht
            exact ⟨pre', r, hw.trans hwhole, htp, hread⟩
      · rcases except_bind_error h with hnext | ⟨⟨tok, taken, rest⟩, hnext, h⟩
        · exact ⟨pre, cs, rfl, next_error_pos hnext, hnext⟩
        · obtain ⟨hwhole, hrest, hpos⟩ := hstep hnext
          rcases except_bind_error h with hmore | ⟨more, -, h⟩
          · rw [hpos] at hmore
            obtain ⟨pre', r, hw, hfp, hfail⟩ := (ih (pre ++ taken) rest hrest).2 f hmore
            exact ⟨pre', r, hw.trans hwhole, hfp, hfail⟩
          · cases tok <;> cases h

theorem tokenize_places (s : String) :
    (∀ ts, tokenize s = .ok ts → ∀ t ∈ ts,
      ∃ pre rest, pre ++ rest = s.toList ∧ t.pos = Pos.after pre ∧ ReadAt rest t) ∧
    (∀ f, tokenize s = .error f →
      ∃ pre rest, pre ++ rest = s.toList ∧ f.pos = some (Pos.after pre) ∧
        next rest (Pos.after pre) = .error f) := by
  have h := scanFrom_places (s.length + 1) [] s.toList (by simp [String.length_toList])
  simpa [tokenize, Pos.after_nil] using h

end Script

end PuzzleKit

namespace PuzzleKit

/-- Both scanners report where each token and each fault truly stands: on the line one more
than the newlines before its first character, at the column one more than the characters
since the last of them. The S-expression tokens of a text, when its scan does not fail, make
up the text. -/
theorem tokens_report_true_places (s : String) :
    SExpr.Scanned s.toList [] (SExpr.scan s) ∧
    ((∀ ts, SExpr.tokens s = .ok ts → SExpr.Placed [] ts ∧ SExpr.texts ts = s.toList) ∧
      ∀ e, SExpr.tokens s = .error e → ∃ pre, e.StopsAt s.toList pre) ∧
    (∀ ts, Script.tokenize s = .ok ts → ∀ t ∈ ts,
      ∃ pre rest, pre ++ rest = s.toList ∧ t.pos = Pos.after pre ∧ Script.ReadAt rest t) ∧
    (∀ f, Script.tokenize s = .error f →
      ∃ pre rest, pre ++ rest = s.toList ∧ f.pos = some (Pos.after pre) ∧
        Script.next rest (Pos.after pre) = .error f) :=
  ⟨SExpr.scan_places s, SExpr.tokens_places s, Script.tokenize_places s⟩

end PuzzleKit

