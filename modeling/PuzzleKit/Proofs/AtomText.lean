import PuzzleKit.SExpr.Read
import PuzzleKit.Proofs.Utf8
import Mathlib

/-!
# The text of an atom reads back as the atom

`renderAtom` writes an atom in one of five spellings: `()` for the empty atom, a canonical
integer in decimal, a symbol bare, printable text in double quotes, and anything else as `0x`
and hex digits. Each spelling is read back with the atom's bytes: the decimal, bare and hex
spellings by `atomOf`, as one run of atom characters, and the quoted one by `unescape`.

`AtomText b x` says how the text `x` of an atom with bytes `b` is read, and
`atomText_renderAtom` gives it for every atom whose text does not end in a newline. That
condition is needed: the bare-symbol test looks past one final newline, so a symbol such as
`a` followed by a newline is written bare, and the reader takes its newline for a blank.
-/

namespace PuzzleKit

namespace Text

theorem char_le_iff (a b : Char) : a ≤ b ↔ a.toNat ≤ b.toNat := by
  simp only [Char.le_def, UInt32.le_iff_toNat_le]
  rfl

/-! ## Decimal digits -/

theorem digitValue?_of_isDigit {c : Char} (h : c.isDigit = true) :
    digitValue? c = some (c.toNat - 48) := by
  simp only [Char.isDigit, Bool.and_eq_true, decide_eq_true_eq, UInt32.le_iff_toNat_le] at h
  have hc : 48 ≤ c.toNat ∧ c.toNat ≤ 57 := h
  have hz : (decide (48 ≤ c.toNat) && decide (c.toNat < 48 + 10)) = true := by
    simp only [Bool.and_eq_true, decide_eq_true_eq]
    omega
  have hf : digitZeros.find? (fun z => decide (z ≤ c.toNat) && decide (c.toNat < z + 10)) =
      some 48 := List.find?_cons_of_pos hz
  rw [digitValue?, hf]

theorem isDigit_of_isDigit {c : Char} (h : c.isDigit = true) : isDigit c = true := by
  simp [isDigit, digitValue?_of_isDigit h]

theorem foldl_digitValue (cs : List Char) (h : ∀ c ∈ cs, c.isDigit = true) (n : Nat) :
    cs.foldl (fun acc c => acc.bind fun n => (digitValue? c).map (n * 10 + ·)) (some n) =
      some (Nat.ofDigitChars 10 cs n) := by
  induction cs generalizing n with
  | nil => rfl
  | cons c cs ih =>
    rw [List.foldl_cons, Option.bind_some, digitValue?_of_isDigit (h c (by simp)), Option.map_some,
      ih (fun d hd => h d (by simp [hd])), Nat.ofDigitChars_cons]
    have h0 : '0'.toNat = 48 := rfl
    rw [h0, Nat.mul_comm]

theorem digitsValue?_toDigits (n : Nat) : digitsValue? (Nat.toDigits 10 n) = some n := by
  have hd : ∀ c ∈ Nat.toDigits 10 n, c.isDigit = true := fun c hc =>
    Nat.isDigit_of_mem_toDigits (by decide) (by decide) hc
  rw [digitsValue?, if_neg (by simp [Nat.toDigits_ne_nil]), foldl_digitValue _ hd,
    Nat.ofDigitChars_ten_toDigits]

theorem beforeFinalNewline_of_getLast? {s : String} (h : s.toList.getLast? ≠ some '\n') :
    beforeFinalNewline s = s.toList := by
  unfold beforeFinalNewline
  split
  · rename_i rest heq
    rw [List.getLast?_eq_head?_reverse, heq] at h
    simp at h
  · rfl

end Text

namespace Bytes

/-! ## Hex digits -/

theorem toNat_hexDigit {n : Nat} (h : n < 16) :
    (hexDigit n).toNat = if n < 10 then 48 + n else 87 + n := by
  unfold hexDigit
  split_ifs with h10
  · exact Text.toNat_val_ofNat (by unfold Nat.isValidChar; omega)
  · exact Text.toNat_val_ofNat (by unfold Nat.isValidChar; omega)

theorem digitValue?_hexDigit {n : Nat} (h : n < 16) : digitValue? (hexDigit n) = some n := by
  have hc := toNat_hexDigit h
  unfold digitValue?
  simp only [Text.char_le_iff, hc]
  split_ifs <;> simp_all <;> omega

theorem isAsciiBlank_hexDigit {n : Nat} (h : n < 16) : isAsciiBlank (hexDigit n) = false := by
  have hc := toNat_hexDigit h
  have hne : ∀ d : Char, d.toNat ≤ 32 → hexDigit n ≠ d := by
    rintro d hd rfl
    split_ifs at hc <;> omega
  simp [isAsciiBlank, hne ' ' (by decide), hne '\t' (by decide), hne '\n' (by decide),
    hne '\r' (by decide), hne '\x0b' (by decide), hne '\x0c' (by decide)]

/-- The two digits `toHex` writes for a byte. -/
def byteDigits (x : UInt8) : List Char := [hexDigit (x.toNat / 16), hexDigit (x.toNat % 16)]

theorem toList_toHex (b : List UInt8) : (toHex b).toList = b.flatMap byteDigits := by
  simp only [toHex, String.toList_ofList]
  rfl

theorem length_flatMap_byteDigits (b : List UInt8) :
    (b.flatMap byteDigits).length = 2 * b.length := by
  induction b with
  | nil => rfl
  | cons x xs ih =>
    rw [List.flatMap_cons, List.length_append, ih, List.length_cons]
    simp only [byteDigits, List.length_cons, List.length_nil]
    omega

theorem readPairs_byteDigits (b : List UInt8) (i : Nat) :
    readPairs (b.flatMap byteDigits) i = .ok b := by
  induction b generalizing i with
  | nil => rfl
  | cons x xs ih =>
    have hhi : x.toNat / 16 < 16 := by have := x.toNat_lt; omega
    have hlo : x.toNat % 16 < 16 := Nat.mod_lt _ (by decide)
    have hx : UInt8.ofNat (x.toNat / 16 * 16 + x.toNat % 16) = x := by
      rw [Nat.div_add_mod', UInt8.ofNat_toNat]
    simp only [List.flatMap_cons, byteDigits, List.cons_append, List.nil_append, readPairs,
      isAsciiBlank_hexDigit hhi, digitValue?_hexDigit hhi, digitValue?_hexDigit hlo, ih, hx]
    rfl

theorem toNat_byteDigits {x : UInt8} {c : Char} (hc : c ∈ byteDigits x) :
    (48 ≤ c.toNat ∧ c.toNat ≤ 57) ∨ (97 ≤ c.toNat ∧ c.toNat ≤ 102) := by
  have hlt : x.toNat < 256 := x.toNat_lt
  simp only [byteDigits, List.mem_cons, List.not_mem_nil, or_false] at hc
  rcases hc with rfl | rfl
  · have := toNat_hexDigit (show x.toNat / 16 < 16 by omega)
    split_ifs at this <;> omega
  · have := toNat_hexDigit (Nat.mod_lt x.toNat (show 16 > 0 by decide))
    split_ifs at this <;> omega

theorem ofHex_toHex (b : List UInt8) : ofHex (toHex b) = .ok b := by
  have hascii : ∀ c ∈ b.flatMap byteDigits, c.toNat ≤ 127 := by
    intro c hc
    obtain ⟨x, -, hx⟩ := List.mem_flatMap.mp hc
    rcases toNat_byteDigits hx with h | h <;> omega
  unfold ofHex
  dsimp only
  rw [toList_toHex, List.findIdx?_eq_none_iff.mpr (by simpa using hascii)]
  exact readPairs_byteDigits b 0

end Bytes

namespace SExpr

/-! ## Escapes -/

/-- The characters that quoting writes for `c`. -/
def escaped (c : Char) : List Char :=
  match Text.escapeLetter? c with
  | some e => ['\\', e]
  | none => [c]

theorem toList_quote (s : String) :
    (Text.quote s).toList = '"' :: s.toList.flatMap escaped ++ ['"'] := by
  simp only [Text.quote, String.toList_ofList, List.cons_append]
  rfl

theorem unescape_plain (p : Pos) {c : Char} (hc : c ≠ '\\') (rest : List Char) :
    unescape p (c :: rest) = (unescape p rest).map (c :: ·) := by
  rw [unescape.eq_def]
  split
  · rename_i heq; simp at heq
  · rename_i heq; exact absurd (List.cons.inj heq).1 hc
  · rename_i heq; exact absurd (List.cons.inj heq).1 hc
  · rename_i heq
    obtain ⟨rfl, rfl⟩ := List.cons.inj heq
    rfl

theorem unescape_escaped (p : Pos) (c : Char) (rest : List Char) :
    unescape p (escaped c ++ rest) = (unescape p rest).map (c :: ·) := by
  unfold escaped
  cases he : Text.escapeLetter? c with
  | none =>
    have hc : c ≠ '\\' := by rintro rfl; simp [Text.escapeLetter?] at he
    exact unescape_plain p hc rest
  | some e =>
    -- one case for each escaped character
    unfold Text.escapeLetter? at he
    split at he <;> cases he <;> rfl

theorem unescape_flatMap_escaped (p : Pos) (cs : List Char) :
    unescape p (cs.flatMap escaped) = .ok cs := by
  induction cs with
  | nil => rfl
  | cons c cs ih => rw [List.flatMap_cons, unescape_escaped, ih]; rfl

/-! ## Decimal text -/

theorem toDigits_all_isDigit (n : Nat) : ∀ c ∈ Nat.toDigits 10 n, c.isDigit = true :=
  fun _ hc => Nat.isDigit_of_mem_toDigits (by decide) (by decide) hc

theorem decimal_of_digits {cs : List Char} (hne : cs ≠ []) (h : ∀ c ∈ cs, c.isDigit = true) :
    isDecimalText cs = true ∧ decimalValue cs = ((Text.digitsValue? cs).getD 0 : Int) := by
  obtain ⟨c, rest, rfl⟩ := List.exists_cons_of_ne_nil hne
  have hc : c ≠ '-' := by
    rintro rfl
    exact absurd (h '-' (by simp)) (by decide)
  have hall : (c :: rest).all Text.isDigit = true :=
    List.all_eq_true.mpr fun d hd => Text.isDigit_of_isDigit (h d hd)
  constructor
  · unfold isDecimalText
    split
    next heq => exact absurd (List.cons.inj heq).1 hc
    next => simp [hall]
  · unfold decimalValue
    split
    next heq => exact absurd (List.cons.inj heq).1 hc
    next => rfl

theorem toList_toString_int (i : Int) :
    (toString i).toList = Nat.toDigits 10 i.toNat ∨
      (toString i).toList = '-' :: Nat.toDigits 10 i.natAbs := by
  cases i with
  | ofNat m => exact .inl Nat.toList_repr
  | negSucc m =>
    right
    show ("-" ++ Nat.repr (m + 1)).toList = _
    simp [Nat.toList_repr]

theorem decimal_toString (i : Int) :
    isDecimalText (toString i).toList = true ∧ decimalValue (toString i).toList = i := by
  cases i with
  | ofNat m =>
    have ht : (toString (Int.ofNat m)).toList = Nat.toDigits 10 m := Nat.toList_repr
    rw [ht]
    obtain ⟨hd, hv⟩ := decimal_of_digits Nat.toDigits_ne_nil (toDigits_all_isDigit m)
    refine ⟨hd, ?_⟩
    rw [hv, Text.digitsValue?_toDigits]
    rfl
  | negSucc m =>
    have ht : (toString (Int.negSucc m)).toList = '-' :: Nat.toDigits 10 (m + 1) := by
      show ("-" ++ Nat.repr (m + 1)).toList = _
      simp [Nat.toList_repr]
    rw [ht]
    have hall : (Nat.toDigits 10 (m + 1)).all Text.isDigit = true :=
      List.all_eq_true.mpr fun d hd => Text.isDigit_of_isDigit (toDigits_all_isDigit _ d hd)
    simp only [isDecimalText, decimalValue, hall, Text.digitsValue?_toDigits, Option.getD_some]
    exact ⟨by simp [Nat.toDigits_ne_nil], Int.neg_ofNat_succ m⟩

/-! ## Atom characters -/

theorem isAtomChar_of_ascii {c : Char} (h1 : 0x21 ≤ c.toNat) (h2 : c.toNat ≤ 0x7e)
    (h3 : c.toNat ≠ 0x22 ∧ c.toNat ≠ 0x27 ∧ c.toNat ≠ 0x28 ∧ c.toNat ≠ 0x29 ∧ c.toNat ≠ 0x3b) :
    isAtomChar c = true := by
  have hb : Text.isBlank c = false := by
    simp only [Text.isBlank, Text.blankRanges, List.any_cons, List.any_nil]
    simp only [Bool.or_eq_false_iff, Bool.and_eq_false_iff, decide_eq_false_iff_not, and_true]
    omega
  have hne : ∀ d : Char, c.toNat ≠ d.toNat → c ≠ d := fun d h e => h (e ▸ rfl)
  simp only [isAtomChar, hb, Bool.not_false, Bool.true_and, Bool.and_eq_true, decide_eq_true_eq]
  exact ⟨⟨⟨⟨⟨⟨by omega, by omega⟩, hne '(' (by simp; omega)⟩, hne ')' (by simp; omega)⟩,
    hne '"' (by simp; omega)⟩, hne ';' (by simp; omega)⟩, hne '\'' (by simp; omega)⟩

theorem isAtomChar_of_isSymbolChar {c : Char} (h : Text.isSymbolChar c = true) :
    isAtomChar c = true := by
  simp only [Text.isSymbolChar, Bool.or_eq_true] at h
  rcases h with h | h
  · simp only [Char.isAlphanum, Char.isAlpha, Char.isUpper, Char.isLower, Char.isDigit,
      Bool.or_eq_true, Bool.and_eq_true, decide_eq_true_eq, UInt32.le_iff_toNat_le] at h
    have hc : (65 ≤ c.toNat ∧ c.toNat ≤ 90 ∨ 97 ≤ c.toNat ∧ c.toNat ≤ 122) ∨
        48 ≤ c.toNat ∧ c.toNat ≤ 57 := h
    exact isAtomChar_of_ascii (by omega) (by omega) (by omega)
  · have hp : ∀ d ∈ "_<>=~&|^+*/%!?$@:.-".toList, isAtomChar d = true :=
      List.all_eq_true.mp (by decide)
    exact hp c (List.contains_iff_mem.mp h)

theorem isAtomChar_of_digit {c : Char} (h : 48 ≤ c.toNat ∧ c.toNat ≤ 57 ∨
    97 ≤ c.toNat ∧ c.toNat ≤ 102) : isAtomChar c = true :=
  isAtomChar_of_ascii (by omega) (by omega) (by omega)

/-! ## The atoms that `atomOf` reads -/

theorem atomOf_toString (i : Int) (p : Pos) :
    atomOf (toString i) p = .ok (.atom (Bytes.ofInt i) .int (.own [])) := by
  obtain ⟨hd, hv⟩ := decimal_toString i
  have hnil : toString i ≠ "nil" := by
    intro h
    rw [h] at hd
    exact absurd hd (by decide)
  unfold atomOf
  simp only [if_neg hnil, hd, if_true, hv]

theorem toList_hexLiteral (b : List UInt8) :
    (hexLiteral b).toList = '0' :: 'x' :: b.flatMap Bytes.byteDigits := by
  simp only [hexLiteral, String.toList_append, Bytes.toList_toHex]
  rfl

theorem atomOf_hexLiteral {b : List UInt8} (hb : b ≠ []) (p : Pos) :
    atomOf (hexLiteral b) p = .ok (.atom b .bytes (.own [])) := by
  have hcs := toList_hexLiteral b
  have hnil : hexLiteral b ≠ "nil" := by
    intro h
    rw [h] at hcs
    simp at hcs
  have hdec : isDecimalText ('0' :: 'x' :: b.flatMap Bytes.byteDigits) = false := by
    have hx : Text.isDigit 'x' = false := by decide
    simp [isDecimalText, hx]
  have hpre : (hexLiteral b).startsWith "0x" = true := by simp [hexLiteral]
  have hdigits : ∀ c ∈ b.flatMap Bytes.byteDigits, (Bytes.digitValue? c).isSome = true := by
    intro c hc
    obtain ⟨x, -, hx⟩ := List.mem_flatMap.mp hc
    simp only [Bytes.byteDigits, List.mem_cons, List.not_mem_nil, or_false] at hx
    have hlt : x.toNat < 256 := x.toNat_lt
    rcases hx with rfl | rfl
    · rw [Bytes.digitValue?_hexDigit (by omega)]; rfl
    · rw [Bytes.digitValue?_hexDigit (Nat.mod_lt _ (by decide))]; rfl
  have hne : (b.flatMap Bytes.byteDigits).isEmpty = false := by
    obtain ⟨x, xs, rfl⟩ := List.exists_cons_of_ne_nil hb
    simp [Bytes.byteDigits]
  have heven : (b.flatMap Bytes.byteDigits).length % 2 = 0 := by
    rw [Bytes.length_flatMap_byteDigits]
    omega
  have hhex : String.ofList (b.flatMap Bytes.byteDigits) = Bytes.toHex b := by
    rw [← Bytes.toList_toHex, String.ofList_toList]
  unfold atomOf
  simp only [if_neg hnil, hcs, hdec, Bool.false_eq_true, if_false, hpre, if_true, List.drop_succ_cons,
    List.drop_zero, hne, List.all_eq_true.mpr hdigits, Bool.not_false, Bool.true_and, heven,
    Nat.zero_ne_one, hhex, Bytes.ofHex_toHex]

theorem atomOf_bare {s : String} (hs : Text.isBareSymbol s = true)
    (hn : s.toList.getLast? ≠ some '\n') (p : Pos) :
    atomOf s p = .ok (.atom s.toUTF8.toList .symbol (.own [])) := by
  have hb := Text.beforeFinalNewline_of_getLast? hn
  simp only [Text.isBareSymbol, hb, Bool.and_eq_true, Bool.not_eq_true', bne_iff_ne, ne_eq]
    at hs
  obtain ⟨⟨⟨⟨⟨-, -⟩, hnil⟩, -⟩, hdec⟩, hpre⟩ := hs
  have hdec' : isDecimalText s.toList = false := by
    rw [← hdec, Text.looksDecimal, hb]
    rfl
  unfold atomOf
  simp only [if_neg hnil, hdec', Bool.false_eq_true, if_false, hpre]

/-! ## How an atom's text is read -/

/-- How the text of an atom with bytes `b` reads back: the empty list, one run of atom
characters that `atomOf` reads as the bytes, or quoted text whose UTF-8 form is the bytes. -/
inductive AtomText (b : List UInt8) : String → Prop
  | empty : b = [] → AtomText b "()"
  | word {w : String} : w.toList ≠ [] → (∀ c ∈ w.toList, isAtomChar c = true) → w ≠ "." →
      (∀ p, ∃ h, atomOf w p = .ok (.atom b h (.own []))) → AtomText b w
  | quoted {s : String} : s.toUTF8.toList = b → AtomText b (Text.quote s)

theorem atomText_toString {b : List UInt8} (hc : Bytes.isCanonical b = true) :
    AtomText b (toString (Bytes.toInt b)) := by
  have hb : Bytes.ofInt (Bytes.toInt b) = b := by simpa [Bytes.isCanonical] using hc
  obtain ⟨hd, -⟩ := decimal_toString (Bytes.toInt b)
  have hchars : ∀ c ∈ (toString (Bytes.toInt b)).toList, isAtomChar c = true := by
    intro c hc
    have hdigit : ∀ n, ∀ d ∈ Nat.toDigits 10 n, isAtomChar d = true := by
      intro n d hd
      have := toDigits_all_isDigit n d hd
      simp only [Char.isDigit, Bool.and_eq_true, decide_eq_true_eq, UInt32.le_iff_toNat_le]
        at this
      exact isAtomChar_of_digit (.inl this)
    rcases toList_toString_int (Bytes.toInt b) with h | h <;> rw [h] at hc
    · exact hdigit _ c hc
    · rcases List.mem_cons.mp hc with rfl | hc
      · decide
      · exact hdigit _ c hc
  refine .word ?_ hchars ?_ fun p => ⟨.int, ?_⟩
  · intro h
    rw [h] at hd
    exact absurd hd (by decide)
  · intro h
    rw [h] at hd
    exact absurd hd (by decide)
  · rw [atomOf_toString, hb]

theorem atomText_hexLiteral {b : List UInt8} (hb : b ≠ []) : AtomText b (hexLiteral b) := by
  have hchars : ∀ c ∈ (hexLiteral b).toList, isAtomChar c = true := by
    intro c hc
    rw [toList_hexLiteral] at hc
    rcases List.mem_cons.mp hc with rfl | hc
    · decide
    rcases List.mem_cons.mp hc with rfl | hc
    · decide
    obtain ⟨x, -, hx⟩ := List.mem_flatMap.mp hc
    exact isAtomChar_of_digit (Bytes.toNat_byteDigits hx)
  refine .word ?_ hchars ?_ fun p => ⟨.bytes, atomOf_hexLiteral hb p⟩
  · simp [toList_hexLiteral]
  · intro h
    have := toList_hexLiteral b
    rw [h] at this
    simp at this

theorem atomText_bare {b : List UInt8} {s : String} (hd : decodeUtf8? b = some s)
    (hs : Text.isBareSymbol s = true) (hn : s.toList.getLast? ≠ some '\n') : AtomText b s := by
  have hu : s.toUTF8.toList = b := by
    apply Text.toUTF8_toList_of_decodeUtf8
    unfold decodeUtf8? at hd
    cases h : Text.decodeUtf8 b <;> simp_all [Except.toOption]
  have hb := Text.beforeFinalNewline_of_getLast? hn
  have hs' := hs
  simp only [Text.isBareSymbol, hb, Bool.and_eq_true, Bool.not_eq_true', bne_iff_ne, ne_eq]
    at hs'
  obtain ⟨⟨⟨⟨⟨hne, hall⟩, -⟩, hdot⟩, -⟩, -⟩ := hs'
  refine .word (by simpa using hne) ?_ hdot fun p => ⟨.symbol, by rw [atomOf_bare hs hn, hu]⟩
  intro c hc
  exact isAtomChar_of_isSymbolChar (List.all_eq_true.mp hall c hc)

theorem atomText_quote {b : List UInt8} {s : String} (hd : decodeUtf8? b = some s) :
    AtomText b (Text.quote s) := by
  apply AtomText.quoted
  apply Text.toUTF8_toList_of_decodeUtf8
  unfold decodeUtf8? at hd
  cases h : Text.decodeUtf8 b <;> simp_all [Except.toOption]

/-- Every atom whose compact text does not end in a newline is read back from that text. -/
theorem atomText_renderAtom (b : List UInt8) (h : Hint)
    (hn : (renderAtom b h).toList.getLast? ≠ some '\n') : AtomText b (renderAtom b h) := by
  unfold renderAtom at hn ⊢
  split_ifs at hn ⊢ with he hi hss
  · exact .empty (List.isEmpty_iff.mp he)
  · exact atomText_toString (by simp at hi; exact hi.2)
  · have hb : b ≠ [] := fun h => by simp [h] at he
    cases hd : decodeUtf8? b with
    | none => exact atomText_hexLiteral hb
    | some s =>
      simp only [hd] at hn ⊢
      split_ifs at hn ⊢ with hbare hq
      · exact atomText_bare hd (by simp at hbare; exact hbare.2) hn
      · exact atomText_quote hd
      · exact atomText_hexLiteral hb
  · exact atomText_hexLiteral fun h => by simp [h] at he

end SExpr

end PuzzleKit
