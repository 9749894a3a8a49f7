import PuzzleKit.Text.Utf8
import Mathlib

/-!
# Decoding UTF-8 loses nothing

Every character that `decodeFrom` accepts, of one to four bytes, encodes back to exactly the
bytes it was read from, so text decoded from bytes has those bytes as its UTF-8 form
(`toUTF8_toList_of_decodeUtf8`). The per-width lemmas do the arithmetic of RFC 3629: the
value assembled from the payload bits is a scalar value (the checks on the second byte keep
out overlong forms and surrogates), and the encoder splits it back into the same bytes.
-/

namespace PuzzleKit.Text

theorem byteArray_toList_loop (bs : ByteArray) (i : Nat) (r : List UInt8) :
    ByteArray.toList.loop bs i r = r.reverse ++ bs.data.toList.drop i := by
  fun_induction ByteArray.toList.loop bs i r with
  | case1 i r h ih =>
    have hi : i < bs.data.toList.length := by rw [Array.length_toList, ByteArray.size_data]; exact h
    rw [ih, List.drop_eq_getElem_cons hi]
    have hg : bs.get! i = bs.data.toList[i] := by
      cases bs with
      | mk data => simp [ByteArray.get!, getElem!_pos data i (by simpa using hi)]
    simp [hg]
  | case2 i r h =>
    have hi : bs.data.toList.length ≤ i := by
      rw [Array.length_toList, ByteArray.size_data]; exact Nat.le_of_not_lt h
    simp [List.drop_eq_nil_of_le hi]

theorem byteArray_toList (bs : ByteArray) : bs.toList = bs.data.toList := by
  simp [ByteArray.toList, byteArray_toList_loop]

theorem toUTF8_ofList (cs : List Char) :
    (String.ofList cs).toUTF8.toList = cs.flatMap String.utf8EncodeChar := by
  simp [byteArray_toList, List.utf8Encode]

theorem toNat_val_ofNat {n : Nat} (h : n.isValidChar) : (Char.ofNat n).val.toNat = n := by
  simp [Char.ofNat, h, Char.ofNatAux]

theorem isContinuation_toNat {b : UInt8} (h : isContinuation b = true) :
    0x80 ≤ b.toNat ∧ b.toNat ≤ 0xbf := by
  simpa [isContinuation, UInt8.le_iff_toNat_le] using h

theorem secondOk_toNat {s b : UInt8} (h : secondOk s b = true) :
    (0x80 ≤ b.toNat ∧ b.toNat ≤ 0xbf) ∧
      (s.toNat = 0xe0 → 0xa0 ≤ b.toNat) ∧ (s.toNat = 0xed → b.toNat < 0xa0) ∧
      (s.toNat = 0xf0 → 0x90 ≤ b.toNat) ∧ (s.toNat = 0xf4 → b.toNat < 0x90) := by
  simp only [secondOk, isContinuation, Bool.and_eq_true, decide_eq_true_eq, ← UInt8.toNat_inj,
    UInt8.le_iff_toNat_le, UInt8.lt_iff_toNat_lt, UInt8.toNat_ofNat] at h
  obtain ⟨hc, hs⟩ := h
  split_ifs at hs <;> simp only [decide_eq_true_eq] at hs <;> omega

theorem charWidth_eq_some {s : UInt8} {w : Nat} (h : charWidth s = some w) :
    (w = 1 ∧ s.toNat < 0x80) ∨ (w = 2 ∧ 0xc2 ≤ s.toNat ∧ s.toNat < 0xe0) ∨
      (w = 3 ∧ 0xe0 ≤ s.toNat ∧ s.toNat < 0xf0) ∨ (w = 4 ∧ 0xf0 ≤ s.toNat ∧ s.toNat < 0xf5) := by
  unfold charWidth at h
  simp only [UInt8.lt_iff_toNat_lt] at h
  split_ifs at h <;> cases h <;> simp_all

theorem uint8_eq_ofNat {b : UInt8} {n : Nat} (h : n % 256 = b.toNat) : UInt8.ofNat n = b :=
  UInt8.toNat_inj.mp (by simpa using h)

theorem encode_one {s : UInt8} (hs : s.toNat < 0x80) :
    String.utf8EncodeChar (Char.ofNat (charValue s [])) = [s] := by
  have hv : (Char.ofNat s.toNat).val.toNat = s.toNat :=
    toNat_val_ofNat (by unfold Nat.isValidChar; omega)
  simp only [charValue, List.length_nil, List.foldl_nil, String.utf8EncodeChar, hv]
  rw [if_pos (by omega), UInt8.ofNat_toNat]

theorem encode_two {s b : UInt8} (hs : 0xc2 ≤ s.toNat ∧ s.toNat < 0xe0)
    (hb : 0x80 ≤ b.toNat ∧ b.toNat ≤ 0xbf) :
    String.utf8EncodeChar (Char.ofNat (charValue s [b])) = [s, b] := by
  have hval : charValue s [b] = s.toNat % 32 * 64 + b.toNat % 64 := by
    simp only [charValue, List.length_singleton, List.foldl_cons, List.foldl_nil]
    rw [Nat.and_two_pow_sub_one_eq_mod s.toNat 5, Nat.and_two_pow_sub_one_eq_mod b.toNat 6]
  have hv : (Char.ofNat (s.toNat % 32 * 64 + b.toNat % 64)).val.toNat =
      s.toNat % 32 * 64 + b.toNat % 64 := toNat_val_ofNat (by unfold Nat.isValidChar; omega)
  rw [hval]
  simp only [String.utf8EncodeChar, hv]
  rw [if_neg (by omega), if_pos (by omega)]
  simp only [List.cons.injEq, and_true]
  exact ⟨uint8_eq_ofNat (by omega), uint8_eq_ofNat (by omega)⟩

theorem encode_three {s b c : UInt8} (hs : 0xe0 ≤ s.toNat ∧ s.toNat < 0xf0)
    (hb : 0x80 ≤ b.toNat ∧ b.toNat ≤ 0xbf) (hc : 0x80 ≤ c.toNat ∧ c.toNat ≤ 0xbf)
    (hlo : s.toNat = 0xe0 → 0xa0 ≤ b.toNat) (hhi : s.toNat = 0xed → b.toNat < 0xa0) :
    String.utf8EncodeChar (Char.ofNat (charValue s [b, c])) = [s, b, c] := by
  have hval : charValue s [b, c] = (s.toNat % 16 * 64 + b.toNat % 64) * 64 + c.toNat % 64 := by
    simp only [charValue, List.length_cons, List.length_nil, List.foldl_cons, List.foldl_nil]
    rw [Nat.and_two_pow_sub_one_eq_mod s.toNat 4, Nat.and_two_pow_sub_one_eq_mod b.toNat 6,
      Nat.and_two_pow_sub_one_eq_mod c.toNat 6]
  have hv : (Char.ofNat ((s.toNat % 16 * 64 + b.toNat % 64) * 64 + c.toNat % 64)).val.toNat =
      (s.toNat % 16 * 64 + b.toNat % 64) * 64 + c.toNat % 64 :=
    toNat_val_ofNat (by unfold Nat.isValidChar; omega)
  rw [hval]
  simp only [String.utf8EncodeChar, hv]
  rw [if_neg (by omega), if_neg (by omega), if_pos (by omega)]
  simp only [List.cons.injEq, and_true]
  exact ⟨uint8_eq_ofNat (by omega), uint8_eq_ofNat (by omega), uint8_eq_ofNat (by omega)⟩

theorem encode_four {s b c d : UInt8} (hs : 0xf0 ≤ s.toNat ∧ s.toNat < 0xf5)
    (hb : 0x80 ≤ b.toNat ∧ b.toNat ≤ 0xbf) (hc : 0x80 ≤ c.toNat ∧ c.toNat ≤ 0xbf)
    (hd : 0x80 ≤ d.toNat ∧ d.toNat ≤ 0xbf)
    (hlo : s.toNat = 0xf0 → 0x90 ≤ b.toNat) (hhi : s.toNat = 0xf4 → b.toNat < 0x90) :
    String.utf8EncodeChar (Char.ofNat (charValue s [b, c, d])) = [s, b, c, d] := by
  have hval : charValue s [b, c, d] =
      ((s.toNat % 8 * 64 + b.toNat % 64) * 64 + c.toNat % 64) * 64 + d.toNat % 64 := by
    simp only [charValue, List.length_cons, List.length_nil, List.foldl_cons, List.foldl_nil]
    rw [Nat.and_two_pow_sub_one_eq_mod s.toNat 3, Nat.and_two_pow_sub_one_eq_mod b.toNat 6,
      Nat.and_two_pow_sub_one_eq_mod c.toNat 6, Nat.and_two_pow_sub_one_eq_mod d.toNat 6]
  have hv : (Char.ofNat (((s.toNat % 8 * 64 + b.toNat % 64) * 64 + c.toNat % 64) * 64 +
      d.toNat % 64)).val.toNat =
      ((s.toNat % 8 * 64 + b.toNat % 64) * 64 + c.toNat % 64) * 64 + d.toNat % 64 :=
    toNat_val_ofNat (by unfold Nat.isValidChar; omega)
  rw [hval]
  simp only [String.utf8EncodeChar, hv]
  rw [if_neg (by omega), if_neg (by omega), if_neg (by omega)]
  simp only [List.cons.injEq, and_true]
  exact ⟨uint8_eq_ofNat (by omega), uint8_eq_ofNat (by omega), uint8_eq_ofNat (by omega),
    uint8_eq_ofNat (by omega)⟩

theorem goodPrefix_le_length (s : UInt8) (n : Nat) (bs : List UInt8) :
    goodPrefix s n bs ≤ bs.length := by
  induction bs generalizing n with
  | nil => cases n <;> simp [goodPrefix]
  | cons b bs ih =>
    cases n with
    | zero => simp [goodPrefix]
    | succ n =>
      have := ih n
      simp only [goodPrefix, List.length_cons]
      split_ifs <;> omega

theorem goodPrefix_succ {s b : UInt8} {n : Nat} {bs : List UInt8}
    (h : goodPrefix s (n + 1) (b :: bs) = n + 1) :
    (if n + 1 = (charWidth s).getD 1 - 1 then secondOk s b else isContinuation b) = true ∧
      goodPrefix s n bs = n := by
  rw [goodPrefix] at h
  by_cases hok : (if n + 1 = (charWidth s).getD 1 - 1 then secondOk s b else isContinuation b)
  · rw [if_pos hok] at h
    exact ⟨hok, by omega⟩
  · rw [if_neg hok] at h
    omega

theorem encode_charValue {s : UInt8} {w : Nat} {rest : List UInt8} (hw : charWidth s = some w)
    (hg : goodPrefix s (w - 1) rest = w - 1) :
    String.utf8EncodeChar (Char.ofNat (charValue s (rest.take (w - 1)))) =
      s :: rest.take (w - 1) := by
  have hlen : w - 1 ≤ rest.length := hg ▸ goodPrefix_le_length s (w - 1) rest
  rcases charWidth_eq_some hw with ⟨rfl, hs⟩ | ⟨rfl, hs⟩ | ⟨rfl, hs⟩ | ⟨rfl, hs⟩
  · exact encode_one hs
  · rcases rest with _ | ⟨b, bs⟩
    · simp at hlen
    obtain ⟨hb, -⟩ := goodPrefix_succ hg
    simp only [hw, Option.getD_some, if_true] at hb
    exact encode_two hs (secondOk_toNat hb).1
  · rcases rest with _ | ⟨b, _ | ⟨c, bs⟩⟩
    · simp at hlen
    · simp at hlen
    obtain ⟨hb, hg⟩ := goodPrefix_succ hg
    obtain ⟨hc, -⟩ := goodPrefix_succ hg
    simp only [hw, Option.getD_some, if_true] at hb
    simp only [hw, Option.getD_some] at hc
    obtain ⟨hb, hlo, hhi, -⟩ := secondOk_toNat hb
    exact encode_three hs hb (isContinuation_toNat hc) hlo hhi
  · rcases rest with _ | ⟨b, _ | ⟨c, _ | ⟨d, bs⟩⟩⟩
    · simp at hlen
    · simp at hlen
    · simp at hlen
    obtain ⟨hb, hg⟩ := goodPrefix_succ hg
    obtain ⟨hc, hg⟩ := goodPrefix_succ hg
    obtain ⟨hd, -⟩ := goodPrefix_succ hg
    simp only [hw, Option.getD_some, if_true] at hb
    simp only [hw, Option.getD_some] at hc hd
    obtain ⟨hb, -, -, hlo, hhi⟩ := secondOk_toNat hb
    exact encode_four hs hb (isContinuation_toNat hc) (isContinuation_toNat hd) hlo hhi

theorem flatMap_encode_of_decodeFrom {b : List UInt8} {i : Nat} {cs : List Char}
    (h : decodeFrom b i = .ok cs) : cs.flatMap String.utf8EncodeChar = b := by
  fun_induction decodeFrom b i generalizing cs with
  | case1 i =>
    cases h
    rfl
  | case3 s rest i w hw need good hgood =>
    rename_i ih
    obtain ⟨cs', hd, rfl⟩ : ∃ cs', decodeFrom (rest.drop need) (i + w) = .ok cs' ∧
        cs = Char.ofNat (charValue s (rest.take need)) :: cs' := by
      cases hd : decodeFrom (rest.drop need) (i + w) <;> simp_all [Except.map]
    rw [List.flatMap_cons, ih hd, encode_charValue hw hgood, List.cons_append,
      List.take_append_drop]
  | case2 s rest i hw => cases h
  | case4 => cases h
  | case5 => cases h

/-- Text decoded from bytes has exactly those bytes as its UTF-8 form. -/
theorem toUTF8_toList_of_decodeUtf8 {b : List UInt8} {s : String} (h : decodeUtf8 b = .ok s) :
    s.toUTF8.toList = b := by
  unfold decodeUtf8 at h
  cases hd : decodeFrom b 0 with
  | error e => simp [hd, Except.map] at h
  | ok cs =>
    simp only [hd, Except.map, Except.ok.injEq] at h
    rw [← h, toUTF8_ofList, flatMap_encode_of_decodeFrom hd]

/-! ### Encoding is decoded back -/

theorem charWidth_of_toNat {s : UInt8} :
    (s.toNat < 0x80 → charWidth s = some 1) ∧
      (0xc2 ≤ s.toNat ∧ s.toNat < 0xe0 → charWidth s = some 2) ∧
      (0xe0 ≤ s.toNat ∧ s.toNat < 0xf0 → charWidth s = some 3) ∧
      (0xf0 ≤ s.toNat ∧ s.toNat < 0xf5 → charWidth s = some 4) := by
  unfold charWidth
  simp only [UInt8.lt_iff_toNat_lt, UInt8.reduceToNat]
  refine ⟨fun h => ?_, fun h => ?_, fun h => ?_, fun h => ?_⟩ <;> split_ifs <;> first | rfl | omega

theorem secondOk_of_toNat {s b : UInt8} (hb : 0x80 ≤ b.toNat ∧ b.toNat ≤ 0xbf)
    (he0 : s.toNat = 0xe0 → 0xa0 ≤ b.toNat) (hed : s.toNat = 0xed → b.toNat < 0xa0)
    (hf0 : s.toNat = 0xf0 → 0x90 ≤ b.toNat) (hf4 : s.toNat = 0xf4 → b.toNat < 0x90) :
    secondOk s b = true := by
  simp only [secondOk, isContinuation, Bool.and_eq_true, decide_eq_true_eq, ← UInt8.toNat_inj,
    UInt8.le_iff_toNat_le, UInt8.lt_iff_toNat_lt, UInt8.toNat_ofNat]
  refine ⟨⟨by omega, by omega⟩, ?_⟩
  split_ifs <;> simp only [decide_eq_true_eq] <;> omega

theorem isContinuation_of_toNat {b : UInt8} (hb : 0x80 ≤ b.toNat ∧ b.toNat ≤ 0xbf) :
    isContinuation b = true := by
  simp only [isContinuation, Bool.and_eq_true, decide_eq_true_eq, UInt8.le_iff_toNat_le,
    UInt8.reduceToNat]
  omega

theorem utf8EncodeChar_wellFormed (c : Char) (rest : List UInt8) :
    ∃ s cont, String.utf8EncodeChar c = s :: cont ∧ charWidth s = some (cont.length + 1) ∧
      goodPrefix s cont.length (cont ++ rest) = cont.length := by
  have hv : c.val.toNat < 0xd800 ∨ (0xdfff < c.val.toNat ∧ c.val.toNat < 0x110000) := c.valid
  have hw := @charWidth_of_toNat
  unfold String.utf8EncodeChar
  dsimp only
  split_ifs with h1 h2 h3
  · refine ⟨_, [], rfl, (hw).1 (by simp only [UInt8.toNat_ofNat', Nat.reducePow]; omega), rfl⟩
  · have hs : charWidth (UInt8.ofNat (c.val.toNat / 64 % 32 + 0xc0)) = some 2 :=
      (hw).2.1 (by simp only [UInt8.toNat_ofNat', Nat.reducePow]; omega)
    refine ⟨_, [_], rfl, hs, ?_⟩
    simp only [List.length_singleton, List.cons_append, goodPrefix, hs, Option.getD_some,
      if_true]
    rw [secondOk_of_toNat (by simp only [UInt8.toNat_ofNat', Nat.reducePow]; omega)
      (by simp only [UInt8.toNat_ofNat', Nat.reducePow]; omega) (by simp only [UInt8.toNat_ofNat', Nat.reducePow]; omega)
      (by simp only [UInt8.toNat_ofNat', Nat.reducePow]; omega) (by simp only [UInt8.toNat_ofNat', Nat.reducePow]; omega)]
    rfl
  · have hs : charWidth (UInt8.ofNat (c.val.toNat / 4096 % 16 + 0xe0)) = some 3 :=
      (hw).2.2.1 (by simp only [UInt8.toNat_ofNat', Nat.reducePow]; omega)
    refine ⟨_, [_, _], rfl, hs, ?_⟩
    simp only [List.length_cons, List.length_nil, List.cons_append, goodPrefix, hs,
      Option.getD_some, if_true]
    rw [secondOk_of_toNat (by simp only [UInt8.toNat_ofNat', Nat.reducePow]; omega)
      (by simp only [UInt8.toNat_ofNat', Nat.reducePow]; omega) (by simp only [UInt8.toNat_ofNat', Nat.reducePow]; omega)
      (by simp only [UInt8.toNat_ofNat', Nat.reducePow]; omega) (by simp only [UInt8.toNat_ofNat', Nat.reducePow]; omega),
      isContinuation_of_toNat (by simp only [UInt8.toNat_ofNat', Nat.reducePow]; omega)]
    rfl
  · have hs : charWidth (UInt8.ofNat (c.val.toNat / 262144 % 8 + 0xf0)) = some 4 :=
      (hw).2.2.2 (by simp only [UInt8.toNat_ofNat', Nat.reducePow]; omega)
    refine ⟨_, [_, _, _], rfl, hs, ?_⟩
    simp only [List.length_cons, List.length_nil, List.cons_append, goodPrefix, hs,
      Option.getD_some, if_true]
    rw [secondOk_of_toNat (by simp only [UInt8.toNat_ofNat', Nat.reducePow]; omega)
      (by simp only [UInt8.toNat_ofNat', Nat.reducePow]; omega) (by simp only [UInt8.toNat_ofNat', Nat.reducePow]; omega)
      (by simp only [UInt8.toNat_ofNat', Nat.reducePow]; omega) (by simp only [UInt8.toNat_ofNat', Nat.reducePow]; omega),
      isContinuation_of_toNat (by simp only [UInt8.toNat_ofNat', Nat.reducePow]; omega),
      isContinuation_of_toNat (by simp only [UInt8.toNat_ofNat', Nat.reducePow]; omega)]
    rfl

theorem utf8EncodeChar_injective {c d : Char}
    (h : String.utf8EncodeChar c = String.utf8EncodeChar d) : c = d := by
  have hc := @ByteArray.utf8DecodeChar?_utf8EncodeChar_append ByteArray.empty c
  rw [h, ByteArray.utf8DecodeChar?_utf8EncodeChar_append] at hc
  exact (Option.some.inj hc).symm

theorem decodeFrom_utf8EncodeChar_append (c : Char) (rest : List UInt8) (i : Nat) :
    decodeFrom (String.utf8EncodeChar c ++ rest) i =
      (decodeFrom rest (i + (String.utf8EncodeChar c).length)).map (c :: ·) := by
  obtain ⟨s, cont, hsc, hw, hg⟩ := utf8EncodeChar_wellFormed c rest
  have hchar : Char.ofNat (charValue s cont) = c := by
    have he := @encode_charValue s (cont.length + 1) (cont ++ rest) hw (by simpa using hg)
    simp only [Nat.add_sub_cancel, List.take_left'] at he
    exact utf8EncodeChar_injective (he.trans hsc.symm)
  rw [hsc, List.cons_append, decodeFrom, hw]
  simp only [Nat.add_sub_cancel, hg, if_true, List.drop_left', List.take_left', hchar,
    List.length_cons]

theorem decodeFrom_flatMap_utf8EncodeChar (cs : List Char) (i : Nat) :
    decodeFrom (cs.flatMap String.utf8EncodeChar) i = .ok cs := by
  induction cs generalizing i with
  | nil => simp [decodeFrom]
  | cons c cs ih =>
    rw [List.flatMap_cons, decodeFrom_utf8EncodeChar_append, ih]
    rfl

theorem decodeUtf8_toUTF8 (s : String) : decodeUtf8 s.toUTF8.toList = .ok s := by
  have hs : s.toUTF8.toList = s.toList.flatMap String.utf8EncodeChar := by
    rw [← toUTF8_ofList, String.ofList_toList]
  rw [decodeUtf8, hs, decodeFrom_flatMap_utf8EncodeChar]
  simp [Except.map]

end PuzzleKit.Text
