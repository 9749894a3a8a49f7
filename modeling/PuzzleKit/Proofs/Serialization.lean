import PuzzleKit.Tree.Binary
import Mathlib.Tactic.SplitIfs
import Mathlib.Tactic.Ring

/-!
# The binary encoding reads back

Writing an atom picks one of seven forms: `0x80` for the empty atom, the byte itself for one
byte below `0x80`, and otherwise a size prefix of one to five bytes before the bytes. A prefix
of width `k + 1` is the length with marker bits above it: `k + 1` ones and a zero at the top
of its first byte (`sizePrefix_spec`). Reading counts those ones (`prefixWidth_table`), takes
`k` more bytes and reads the length from them in big-endian order.

So reading the encoding of any tree whose atoms are shorter than `2 ^ 34` bytes gives back a
tree with the same bytes in the same places (`deserialize_serialize`); only the hints, which
reading guesses, may differ.
-/

namespace PuzzleKit

namespace Bytes

@[simp] theorem length_toLE : ∀ (k n : Nat), (toLE k n).length = k
  | 0, _ => rfl
  | k + 1, n => by simp [toLE, length_toLE k]

theorem toLE_succ_eq_append : ∀ (k x : Nat), toLE (k + 1) x = toLE k x ++ [UInt8.ofNat (x / 256 ^ k % 256)]
  | 0, x => by simp [toLE]
  | k + 1, x => by
    rw [toLE, toLE_succ_eq_append k (x / 256), toLE, Nat.div_div_eq_div_mul, Nat.pow_succ',
      List.cons_append]

theorem toLE_mul_add : ∀ (k a n : Nat), toLE k (256 ^ k * a + n) = toLE k n
  | 0, _, _ => rfl
  | k + 1, a, n => by
    have hmod : (256 ^ (k + 1) * a + n) % 256 = n % 256 := by
      rw [Nat.pow_succ, Nat.mul_assoc, Nat.mul_comm 256, ← Nat.mul_assoc, Nat.add_comm,
        Nat.add_mul_mod_self_right]
    have hdiv : (256 ^ (k + 1) * a + n) / 256 = 256 ^ k * a + n / 256 := by
      rw [Nat.pow_succ, Nat.mul_assoc, Nat.mul_comm 256, ← Nat.mul_assoc, Nat.add_comm,
        Nat.add_mul_div_right _ _ (by decide), Nat.add_comm]
    rw [toLE, toLE, hmod, hdiv, toLE_mul_add k a (n / 256)]

theorem foldl_ofBE (acc : Nat) (b : List UInt8) :
    b.foldl (fun acc x => acc * 256 + x.toNat) acc = acc * 256 ^ b.length + ofBE b := by
  induction b generalizing acc with
  | nil => simp [ofBE]
  | cons x xs ih =>
    simp only [ofBE, List.foldl_cons] at ih ⊢
    rw [ih, ih (0 * 256 + x.toNat), List.length_cons, Nat.pow_succ]
    ring

theorem ofBE_cons (x : UInt8) (b : List UInt8) : ofBE (x :: b) = x.toNat * 256 ^ b.length + ofBE b := by
  rw [ofBE, List.foldl_cons, foldl_ofBE]
  simp

theorem ofBE_reverse_toLE : ∀ (k n : Nat), ofBE (toLE k n).reverse = n % 256 ^ k
  | 0, n => by simp [toLE, ofBE, Nat.mod_one]
  | k + 1, n => by
    have hbyte : (UInt8.ofNat (n / 256 ^ k % 256)).toNat = n / 256 ^ k % 256 := by
      rw [UInt8.toNat_ofNat']
      exact Nat.mod_mod_of_dvd _ (by decide)
    rw [toLE_succ_eq_append, List.reverse_append, List.reverse_singleton, List.singleton_append,
      ofBE_cons, List.length_reverse, length_toLE, ofBE_reverse_toLE k n, hbyte, Nat.mod_pow_succ]
    ring

theorem reverse_toLE_top (k T n : Nat) (hT : T + n / 256 ^ k < 256) :
    (toLE (k + 1) (256 ^ k * T + n)).reverse = UInt8.ofNat (T + n / 256 ^ k) :: (toLE k n).reverse := by
  rw [toLE_succ_eq_append, toLE_mul_add, List.reverse_append, List.reverse_singleton,
    List.singleton_append, Nat.mul_add_div (Nat.pow_pos (by decide : 0 < 256)), Nat.mod_eq_of_lt hT]

theorem ofBE_high_cons (k n : Nat) (h : n / 256 ^ k < 256) :
    ofBE (UInt8.ofNat (n / 256 ^ k) :: (toLE k n).reverse) = n := by
  rw [ofBE_cons, List.length_reverse, length_toLE, ofBE_reverse_toLE, UInt8.toNat_ofNat',
    Nat.mod_eq_of_lt (by simpa using h), Nat.mul_comm]
  exact Nat.div_add_mod n (256 ^ k)

end Bytes

/-- A first byte with `w` leading ones, a zero and then `hi` reads as width `w` and `hi`. -/
theorem prefixWidth_table : ∀ w < 6, 1 ≤ w → ∀ hi < 2 ^ (7 - w),
    prefixWidth (256 - 2 ^ (8 - w) + hi) = (w, hi) := by
  decide

theorem or_eq_add_of_lt {P n i : Nat} (hP : 2 ^ i ∣ P) (hn : n < 2 ^ i) : P ||| n = P + n := by
  obtain ⟨a, rfl⟩ := hP
  exact (Nat.two_pow_add_eq_or_of_lt hn a).symm

theorem reverse_toLE_or (k T i n : Nat) (hdvd : 2 ^ i ∣ 256 ^ k * T) (hT : 256 - 2 ^ (7 - k) = T)
    (hni : n < 2 ^ i) (hTn : T + n / 256 ^ k < 256) :
    (Bytes.toLE (k + 1) (256 ^ k * T ||| n)).reverse =
      UInt8.ofNat (256 - 2 ^ (7 - k) + n / 256 ^ k) :: (Bytes.toLE k n).reverse := by
  rw [or_eq_add_of_lt hdvd hni, Bytes.reverse_toLE_top k T n hTn, hT]

/-- The size prefix of a length: a top byte of `k + 1` leading ones followed by the high part
`hi` of the length, then `k` bytes that, after `hi`, hold the length in big-endian order. -/
theorem sizePrefix_spec {n : Nat} (h1 : 1 ≤ n) (h2 : n < atomSizeLimit) :
    ∃ k hi more, sizePrefix n = UInt8.ofNat (256 - 2 ^ (7 - k) + hi) :: more ∧ k ≤ 4 ∧
      hi < 2 ^ (6 - k) ∧ 128 < 256 - 2 ^ (7 - k) + hi ∧ more.length = k ∧
      Bytes.ofBE (UInt8.ofNat hi :: more) = n := by
  unfold sizePrefix
  split_ifs with hw1 hw2 hw3 hw4
  · refine ⟨0, n / 256 ^ 0, (Bytes.toLE 0 n).reverse, ?_, by decide, ?_, ?_, by simp,
      Bytes.ofBE_high_cons 0 n ?_⟩
    · rw [or_eq_add_of_lt (by decide : 2 ^ 7 ∣ 0x80) (by omega : n < 2 ^ 7)]
      simp [Bytes.toLE]
    all_goals simp; omega
  -- the wider prefixes: the marker bits sit above the length, so `|||` adds them
  · refine ⟨1, n / 256 ^ 1, (Bytes.toLE 1 n).reverse,
      reverse_toLE_or 1 192 14 n (by decide) rfl (by omega) (by omega), by decide, ?_, ?_,
      by simp, Bytes.ofBE_high_cons 1 n ?_⟩
    all_goals simp; omega
  · refine ⟨2, n / 256 ^ 2, (Bytes.toLE 2 n).reverse,
      reverse_toLE_or 2 224 21 n (by decide) rfl (by omega) (by omega), by decide, ?_, ?_,
      by simp, Bytes.ofBE_high_cons 2 n ?_⟩
    all_goals simp; omega
  · refine ⟨3, n / 256 ^ 3, (Bytes.toLE 3 n).reverse,
      reverse_toLE_or 3 240 28 n (by decide) rfl (by omega) (by omega), by decide, ?_, ?_,
      by simp, Bytes.ofBE_high_cons 3 n ?_⟩
    all_goals simp; omega
  · have h34 : n < 2 ^ 34 := h2
    refine ⟨4, n / 256 ^ 4, (Bytes.toLE 4 n).reverse,
      reverse_toLE_or 4 248 35 n (by decide) rfl (by omega) (by omega), by decide, ?_, ?_,
      by simp, Bytes.ofBE_high_cons 4 n ?_⟩
    all_goals simp; omega

theorem takeBytes_append (bs rest : List UInt8) (i : Nat) :
    takeBytes (bs ++ rest) i bs.length = .ok (bs, rest) := by
  simp [takeBytes]

theorem guess_eq_atom (b : List UInt8) : ∃ h, Tree.guess b = .atom b h := by
  unfold Tree.guess
  split
  exacts [⟨_, rfl⟩, ⟨_, rfl⟩]

theorem readAtom_sizePrefix {b : List UInt8} (h1 : 1 ≤ b.length) (h2 : b.length < atomSizeLimit)
    {c : UInt8} {more : List UInt8} (hpre : sizePrefix b.length = c :: more) (rest : List UInt8)
    (i : Nat) :
    c ≠ 0xff ∧ readAtom c (more ++ b ++ rest) i = .ok (Tree.guess b, rest, i + more.length + b.length) := by
  obtain ⟨k, hi, more', hsp, hk, hhi, h128, hlen, hbe⟩ := sizePrefix_spec h1 h2
  rw [hsp, List.cons.injEq] at hpre
  obtain ⟨rfl, rfl⟩ := hpre
  have hpow : 2 ^ (7 - k) = 2 * 2 ^ (6 - k) := by
    rw [show 7 - k = 6 - k + 1 by omega, Nat.pow_succ, Nat.mul_comm]
  have hlt : 256 - 2 ^ (7 - k) + hi < 255 := by
    have h4 : 4 ≤ 2 ^ (6 - k) := by
      calc 4 = 2 ^ 2 := rfl
        _ ≤ 2 ^ (6 - k) := Nat.pow_le_pow_right (by decide) (by omega)
    have h64 : 2 ^ (6 - k) ≤ 64 := by
      calc 2 ^ (6 - k) ≤ 2 ^ 6 := Nat.pow_le_pow_right (by decide) (by omega)
        _ = 64 := rfl
    omega
  have hc : (UInt8.ofNat (256 - 2 ^ (7 - k) + hi)).toNat = 256 - 2 ^ (7 - k) + hi := by
    rw [UInt8.toNat_ofNat']
    exact Nat.mod_eq_of_lt (by simp; omega)
  have hwidth : prefixWidth (256 - 2 ^ (7 - k) + hi) = (k + 1, hi) := by
    have h := prefixWidth_table (k + 1) (by omega) (by omega) hi (by rw [show 7 - (k + 1) = 6 - k by omega]; exact hhi)
    rwa [show 8 - (k + 1) = 7 - k by omega] at h
  refine ⟨fun h => by rw [h] at hc; simp at hc; omega, ?_⟩
  have hne : UInt8.ofNat (256 - 2 ^ (7 - k) + hi) ≠ 0x80 := fun h => by
    rw [h] at hc
    simp at hc
    omega
  unfold readAtom
  rw [if_neg hne, if_neg (by rw [hc]; omega)]
  simp only [hc, hwidth]
  rw [if_neg (by omega), Nat.add_sub_cancel, ← hlen, List.append_assoc, takeBytes_append]
  simp only [bind, Except.bind]
  rw [hlen, hbe, takeBytes_append]

theorem readTree_sizePrefix {b : List UInt8} (h1 : 1 ≤ b.length) (h2 : b.length < atomSizeLimit)
    (fuel : Nat) (rest : List UInt8) (i : Nat) :
    ∃ h, readTree (fuel + 1) (sizePrefix b.length ++ b ++ rest) i =
      .ok (.atom b h, rest, i + (sizePrefix b.length ++ b).length) := by
  obtain ⟨h, hg⟩ := guess_eq_atom b
  cases hsp : sizePrefix b.length with
  | nil =>
    obtain ⟨_, _, _, hsp', -⟩ := sizePrefix_spec h1 h2
    rw [hsp] at hsp'
    cases hsp'
  | cons c more =>
    obtain ⟨hff, hread⟩ := readAtom_sizePrefix h1 h2 hsp rest (i + 1)
    refine ⟨h, ?_⟩
    rw [List.cons_append, List.cons_append, readTree, if_neg hff, hread, hg]
    simp only [List.length_cons, List.length_append]
    rw [show i + 1 + more.length + b.length = i + (more.length + b.length + 1) by omega]

theorem readTree_encodeAtom {b : List UInt8} (hb : b.length < atomSizeLimit) (fuel : Nat)
    (rest : List UInt8) (i : Nat) :
    ∃ h, readTree (fuel + 1) (encodeAtom b ++ rest) i =
      .ok (.atom b h, rest, i + (encodeAtom b).length) := by
  match b with
  | [] => exact ⟨.bytes, rfl⟩
  | [x] =>
    by_cases hx : x.toNat ≤ 0x7f
    · -- a small byte is its own encoding
      have hff : x ≠ 0xff := fun h => by rw [h] at hx; simp at hx
      have h80 : x ≠ 0x80 := fun h => by rw [h] at hx; simp at hx
      obtain ⟨h, hg⟩ := guess_eq_atom [x]
      refine ⟨h, ?_⟩
      simp only [encodeAtom, hx, if_true, List.cons_append, List.nil_append, readTree, if_neg hff,
        readAtom, if_neg h80, ← hg]
      rfl
    · simp only [encodeAtom, hx, if_false]
      exact readTree_sizePrefix (by simp) hb fuel rest i
  | x :: y :: zs =>
    exact readTree_sizePrefix (by simp) hb fuel rest i

theorem length_encodeAtom_pos (b : List UInt8) : 0 < (encodeAtom b).length := by
  unfold encodeAtom
  split
  · simp
  · split <;> simp
  · rename_i hne _
    simp [List.length_pos_iff.mpr hne]

theorem readTree_serialize : ∀ (t : Tree) (fuel : Nat) (rest : List UInt8) (i : Nat),
    t.longestAtom < atomSizeLimit → t.serialize.length ≤ fuel →
    ∃ u, readTree fuel (t.serialize ++ rest) i = .ok (u, rest, i + t.serialize.length) ∧
      u.same t = true
  | .atom b h, fuel, rest, i, hb, hfuel => by
    rw [Tree.serialize_atom] at hfuel ⊢
    obtain ⟨f, rfl⟩ : ∃ f, fuel = f + 1 := ⟨fuel - 1, by have := length_encodeAtom_pos b; omega⟩
    obtain ⟨h', hread⟩ := readTree_encodeAtom (b := b) hb f rest i
    exact ⟨.atom b h', hread, by simp [Tree.same]⟩
  | .cons f r, fuel, rest, i, hb, hfuel => by
    rw [Tree.serialize_cons] at hfuel ⊢
    simp only [Tree.longestAtom, max_lt_iff] at hb
    obtain ⟨n, rfl⟩ : ∃ n, fuel = n + 1 := ⟨fuel - 1, by simp at hfuel; omega⟩
    simp only [List.length_cons, List.length_append] at hfuel
    obtain ⟨f', hf, hsf⟩ := readTree_serialize f n (r.serialize ++ rest) (i + 1) hb.1 (by omega)
    obtain ⟨r', hr, hsr⟩ := readTree_serialize r n rest (i + 1 + f.serialize.length) hb.2 (by omega)
    refine ⟨.cons f' r', ?_, by simp [Tree.same, hsf, hsr]⟩
    simp only [List.cons_append, List.append_assoc]
    rw [readTree, if_pos rfl]
    simp only [hf, hr, bind, Except.bind]
    simp only [List.length_cons, List.length_append]
    congr 3
    omega

/-- Decoding the binary encoding of a tree whose atoms are shorter than `2 ^ 34` bytes gives
the tree back, with the same bytes at every position; only the hints, which decoding guesses,
may differ. -/
theorem deserialize_serialize (t : Tree) (ht : t.longestAtom < atomSizeLimit) :
    ∃ u, Tree.deserialize t.serialize = .ok u ∧ u.same t = true := by
  obtain ⟨u, hread, hsame⟩ := readTree_serialize t _ [] 0 ht (Nat.le_succ _)
  rw [List.append_nil, Nat.zero_add] at hread
  refine ⟨u, ?_, hsame⟩
  simp [Tree.deserialize, hread, bind, Except.bind]

/-- A pair of a two-byte atom, which needs a size prefix, and the empty atom reads back. -/
theorem deserialize_serialize_pair :
    (Tree.cons (.atom [0x80, 0xff] .bytes) (.atom [] .bytes)).longestAtom < atomSizeLimit ∧
    ∃ u, Tree.deserialize (Tree.cons (.atom [0x80, 0xff] .bytes) (.atom [] .bytes)).serialize =
      .ok u ∧ u.same (Tree.cons (.atom [0x80, 0xff] .bytes) (.atom [] .bytes)) = true :=
  ⟨by decide, deserialize_serialize _ (by decide)⟩

end PuzzleKit
