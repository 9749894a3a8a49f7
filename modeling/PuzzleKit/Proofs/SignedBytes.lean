import PuzzleKit.Proofs.Serialization

/-!
# Integers as atoms: exact and minimal

`Bytes.ofInt` writes a nonzero integer in one byte more than the binary digits of its
magnitude fill, then drops leading bytes while they only extend the sign of the next
(`Bytes.stripSign`). A string of `k + 1` bytes holds exactly the integers of
`[-2 ^ (8k + 7), 2 ^ (8k + 7))` (`toInt_cons_range`), each in one way (`toInt_inj`). Dropping a
sign byte keeps the reading (`toInt_dropSign`), and a string whose first byte is not a sign byte
reads outside the range of one byte fewer (`toInt_keepSign`), so what the loop leaves is the one
shortest string with the integer's reading (`ofInt_eq_iff_shortest`).
-/

namespace PuzzleKit.Bytes

theorem ofBE_lt : ∀ b : List UInt8, ofBE b < 256 ^ b.length
  | [] => by simp [ofBE]
  | x :: r => by
    have hx : x.toNat < 256 := x.toNat_lt
    have hr := ofBE_lt r
    rw [ofBE_cons, List.length_cons, Nat.pow_succ]
    calc x.toNat * 256 ^ r.length + ofBE r < (x.toNat + 1) * 256 ^ r.length := by
          rw [Nat.add_mul, Nat.one_mul]; omega
      _ ≤ 256 * 256 ^ r.length := Nat.mul_le_mul_right _ hx
      _ = 256 ^ r.length * 256 := Nat.mul_comm _ _

theorem ofBE_inj : ∀ {b b' : List UInt8}, b.length = b'.length → ofBE b = ofBE b' → b = b'
  | [], [], _, _ => rfl
  | x :: r, x' :: r', hl, h => by
    have hl' : r'.length = r.length := by simpa using hl.symm
    have hr := ofBE_lt r
    have hr' := ofBE_lt r'
    rw [hl'] at hr'
    rw [ofBE_cons, ofBE_cons, hl'] at h
    have hpos : 0 < 256 ^ r.length := Nat.pow_pos (by decide)
    have hdiv : ∀ (y : UInt8) (a : Nat), a < 256 ^ r.length →
        (y.toNat * 256 ^ r.length + a) / 256 ^ r.length = y.toNat := fun y a ha => by
      rw [Nat.mul_comm, Nat.mul_add_div hpos, Nat.div_eq_of_lt ha, Nat.add_zero]
    have hx : x.toNat = x'.toNat := by rw [← hdiv x _ hr, h, hdiv x' _ hr']
    rw [hx] at h
    have hrest : ofBE r = ofBE r' := Nat.add_left_cancel h
    rw [UInt8.toNat_inj.mp hx, ofBE_inj hl'.symm hrest]

theorem toInt_cons (x : UInt8) (r : List UInt8) :
    toInt (x :: r) = ((x.toNat * 256 ^ r.length + ofBE r : Nat) : Int) -
      if 128 ≤ x.toNat then ((256 * 256 ^ r.length : Nat) : Int) else 0 := by
  have hpow : (2 : Nat) ^ (8 * (r.length + 1)) = 256 * 256 ^ r.length := by
    rw [Nat.mul_add, Nat.pow_add, Nat.pow_mul, Nat.mul_comm]
  simp only [toInt, ofBE_cons, List.length_cons, Nat.pow_eq, hpow, ge_iff_le]
  split <;> simp

/-- `k + 1` bytes hold the integers of `[-2 ^ (8k + 7), 2 ^ (8k + 7))`. -/
theorem toInt_cons_range (x : UInt8) (r : List UInt8) :
    -(2 ^ (8 * r.length + 7) : Int) ≤ toInt (x :: r) ∧ toInt (x :: r) < 2 ^ (8 * r.length + 7) := by
  have h7 : (2 : Int) ^ (8 * r.length + 7) = ((128 * 256 ^ r.length : Nat) : Int) := by
    rw [pow_add, pow_mul]; push_cast; ring
  have hx : x.toNat < 256 := x.toNat_lt
  have hr := ofBE_lt r
  have hhi : (x.toNat + 1) * 256 ^ r.length ≤ 256 * 256 ^ r.length := Nat.mul_le_mul_right _ hx
  rw [Nat.add_mul, Nat.one_mul] at hhi
  rw [toInt_cons, h7]
  split
  · next hs =>
    have hlo : 128 * 256 ^ r.length ≤ x.toNat * 256 ^ r.length := Nat.mul_le_mul_right _ hs
    generalize x.toNat * 256 ^ r.length = X at *
    generalize 256 ^ r.length = P at *
    omega
  · next hs =>
    have hhi' : (x.toNat + 1) * 256 ^ r.length ≤ 128 * 256 ^ r.length :=
      Nat.mul_le_mul_right _ (by omega)
    rw [Nat.add_mul, Nat.one_mul] at hhi'
    generalize x.toNat * 256 ^ r.length = X at *
    generalize 256 ^ r.length = P at *
    omega

theorem toInt_cons_neg_iff (x : UInt8) (r : List UInt8) : toInt (x :: r) < 0 ↔ 128 ≤ x.toNat := by
  have hr := ofBE_lt r
  have hx : x.toNat < 256 := x.toNat_lt
  have hhi : (x.toNat + 1) * 256 ^ r.length ≤ 256 * 256 ^ r.length := Nat.mul_le_mul_right _ hx
  rw [Nat.add_mul, Nat.one_mul] at hhi
  rw [toInt_cons]
  generalize x.toNat * 256 ^ r.length = X at *
  generalize 256 ^ r.length = P at *
  split <;> omega

/-- Two strings of one length with one reading are the same string. -/
theorem toInt_inj {b b' : List UInt8} (hl : b.length = b'.length) (h : toInt b = toInt b') :
    b = b' := by
  match b, b', hl with
  | [], [], _ => rfl
  | x :: r, x' :: r', hl =>
    have hl' : r'.length = r.length := by simpa using hl.symm
    have hsign : (128 ≤ x.toNat ↔ 128 ≤ x'.toNat) := by
      rw [← toInt_cons_neg_iff, ← toInt_cons_neg_iff, h]
    apply ofBE_inj hl
    rw [toInt_cons, toInt_cons, hl'] at h
    rw [ofBE_cons, ofBE_cons, hl']
    by_cases hs : 128 ≤ x.toNat
    · rw [if_pos hs, if_pos (hsign.mp hs)] at h
      omega
    · rw [if_neg hs, if_neg (fun h' => hs (hsign.mpr h'))] at h
      omega

/-! ### Writing in a fixed width -/

theorem lt_two_pow_bitLength (m : Nat) : m < 2 ^ bitLength m := by
  unfold bitLength
  split
  · next h => simp [h]
  · exact Nat.lt_log2_self

theorem startWidth_range (i : Int) :
    ∃ k, (bitLength i.natAbs + 8) / 8 = k + 1 ∧ -(2 ^ (8 * k + 7) : Int) ≤ i ∧ i < 2 ^ (8 * k + 7) := by
  have hbits : bitLength i.natAbs ≤ 8 * ((bitLength i.natAbs + 8) / 8 - 1) + 7 := by omega
  have hlt : i.natAbs < 2 ^ (8 * ((bitLength i.natAbs + 8) / 8 - 1) + 7) :=
    lt_of_lt_of_le (lt_two_pow_bitLength _) (Nat.pow_le_pow_right (by decide) hbits)
  have hlt' : (i.natAbs : Int) < 2 ^ (8 * ((bitLength i.natAbs + 8) / 8 - 1) + 7) := by
    exact_mod_cast hlt
  refine ⟨(bitLength i.natAbs + 8) / 8 - 1, by omega, ?_, ?_⟩ <;>
    cases Int.natAbs_eq i <;> omega

theorem length_toSigned (w : Nat) (i : Int) : (toSigned w i).length = w := by
  simp [toSigned]

theorem toInt_toSigned {i : Int} {k : Nat} (hlo : -(2 ^ (8 * k + 7) : Int) ≤ i)
    (hhi : i < 2 ^ (8 * k + 7)) : toInt (toSigned (k + 1) i) = i := by
  set P : Nat := 256 ^ k with hP
  have hP7 : (2 : Int) ^ (8 * k + 7) = 128 * (P : Int) := by
    rw [hP, pow_add, pow_mul]; push_cast; ring
  have hP8 : (2 : Nat) ^ (8 * (k + 1)) = 256 * P := by
    rw [hP, mul_add, pow_add, pow_mul]; ring
  have hPpos : 0 < P := Nat.pow_pos (by decide)
  set n : Nat := (i % ((2 : Nat) ^ (8 * (k + 1)) : Nat)).toNat with hn
  have hbytes : toSigned (k + 1) i = UInt8.ofNat (n / P % 256) :: (toLE k n).reverse := by
    simp only [toSigned, Nat.pow_eq, ← hn, toLE_succ_eq_append, List.reverse_append,
      List.reverse_singleton, List.singleton_append, hP]
  have hn' : (n : Int) = if 0 ≤ i then i else i + 256 * P := by
    rw [hn, hP8]
    push_cast
    split
    · rw [Int.toNat_of_nonneg (Int.emod_nonneg _ (by omega)), Int.emod_eq_of_lt ‹_› (by omega)]
    · rw [Int.toNat_of_nonneg (Int.emod_nonneg _ (by omega))]
      rw [← Int.add_mul_emod_self_left i (256 * P) 1, Int.emod_eq_of_lt (by omega) (by omega)]
      ring
  have hnlt : n < 256 * P := by split at hn' <;> omega
  have hdiv : n / P < 256 := (Nat.div_lt_iff_lt_mul hPpos).mpr (by omega)
  have htop : (UInt8.ofNat (n / P % 256)).toNat = n / P := by
    rw [UInt8.toNat_ofNat', Nat.mod_mod_of_dvd _ (by decide), Nat.mod_eq_of_lt hdiv]
  have hbe : ofBE (UInt8.ofNat (n / P % 256) :: (toLE k n).reverse) = n := by
    rw [ofBE_cons, List.length_reverse, length_toLE, ofBE_reverse_toLE, htop, ← hP]
    exact Nat.div_add_mod' n P
  have hsign : 128 ≤ n / P ↔ i < 0 := by
    rw [Nat.le_div_iff_mul_le hPpos]
    split at hn' <;> omega
  rw [hbytes, toInt]
  simp only [htop, List.length_cons, List.length_reverse, length_toLE, hbe, Nat.pow_eq, hP8]
  split
  · next h => push_cast; split at hn' <;> omega
  · next h => split at hn' <;> omega

/-! ### Dropping sign bytes -/

/-- A first byte that only extends the sign of the next can be dropped without changing the
reading. -/
theorem toInt_dropSign {x y : UInt8} (r : List UInt8)
    (h : (x = 0x00 ∧ y < 0x80) ∨ (x = 0xff ∧ 0x80 ≤ y)) : toInt (x :: y :: r) = toInt (y :: r) := by
  have hy := y.toNat_lt
  have hr := ofBE_lt r
  rw [toInt_cons, toInt_cons, ofBE_cons, List.length_cons, Nat.pow_succ]
  rcases h with ⟨rfl, hlt⟩ | ⟨rfl, hle⟩
  · have hlt : y.toNat < 128 := hlt
    simp only [UInt8.toNat_zero, Nat.zero_mul, Nat.zero_add]
    rw [if_neg (by decide), if_neg (by omega)]
  · have hle : 128 ≤ y.toNat := hle
    rw [if_pos (by decide), if_pos hle, show (0xff : UInt8).toNat = 255 from rfl]
    push_cast
    ring

/-- A string whose first byte is not a sign byte reads outside the range of one byte fewer. -/
theorem toInt_keepSign {x y : UInt8} (r : List UInt8)
    (h : ¬((x = 0x00 ∧ y < 0x80) ∨ (x = 0xff ∧ 0x80 ≤ y))) :
    toInt (x :: y :: r) < -(2 ^ (8 * r.length + 7) : Int) ∨
      (2 ^ (8 * r.length + 7) : Int) ≤ toInt (x :: y :: r) := by
  have hx := x.toNat_lt
  have hy := y.toNat_lt
  have hr := ofBE_lt r
  have h7 : (2 : Int) ^ (8 * r.length + 7) = ((128 * 256 ^ r.length : Nat) : Int) := by
    rw [pow_add, pow_mul]; push_cast; ring
  have hxy : ¬((x.toNat = 0 ∧ y.toNat < 128) ∨ (x.toNat = 255 ∧ 128 ≤ y.toNat)) := by
    rintro (⟨hx0, hy0⟩ | ⟨hx0, hy0⟩)
    · exact h (.inl ⟨UInt8.toNat_inj.mp hx0, hy0⟩)
    · exact h (.inr ⟨UInt8.toNat_inj.mp hx0, hy0⟩)
  rw [toInt_cons, h7, ofBE_cons, List.length_cons, Nat.pow_succ]
  have hcases : x.toNat = 0 ∨ x.toNat = 255 ∨ (1 ≤ x.toNat ∧ x.toNat ≤ 127) ∨
      (128 ≤ x.toNat ∧ x.toNat ≤ 254) := by omega
  rcases hcases with hx0 | hx0 | ⟨hlo, hhi⟩ | ⟨hlo, hhi⟩
  · have hY : 128 * 256 ^ r.length ≤ y.toNat * 256 ^ r.length :=
      Nat.mul_le_mul_right _ (by omega)
    rw [hx0, if_neg (by decide)]
    generalize y.toNat * 256 ^ r.length = Y at *
    generalize 256 ^ r.length = P at *
    omega
  · have hY : y.toNat * 256 ^ r.length ≤ 127 * 256 ^ r.length := Nat.mul_le_mul_right _ (by omega)
    rw [hx0, if_pos (by decide)]
    generalize y.toNat * 256 ^ r.length = Y at *
    generalize 256 ^ r.length = P at *
    omega
  · have hX : 1 * (256 ^ r.length * 256) ≤ x.toNat * (256 ^ r.length * 256) :=
      Nat.mul_le_mul_right _ hlo
    rw [if_neg (by omega)]
    generalize x.toNat * (256 ^ r.length * 256) = X at *
    generalize y.toNat * 256 ^ r.length = Y at *
    generalize 256 ^ r.length = P at *
    omega
  · have hX : x.toNat * (256 ^ r.length * 256) ≤ 254 * (256 ^ r.length * 256) :=
      Nat.mul_le_mul_right _ hhi
    have hY : y.toNat * 256 ^ r.length ≤ 255 * 256 ^ r.length := Nat.mul_le_mul_right _ (by omega)
    rw [if_pos hlo]
    generalize x.toNat * (256 ^ r.length * 256) = X at *
    generalize y.toNat * 256 ^ r.length = Y at *
    generalize 256 ^ r.length = P at *
    omega

theorem length_of_out_of_range {b : List UInt8} {n : Nat}
    (h : toInt b < -(2 ^ (8 * n + 7) : Int) ∨ (2 ^ (8 * n + 7) : Int) ≤ toInt b) :
    n + 1 < b.length := by
  cases b with
  | nil =>
    have hpos : (0 : Int) < 2 ^ (8 * n + 7) := by exact_mod_cast Nat.pow_pos (by decide : 0 < 2)
    simp only [toInt] at h
    omega
  | cons x r =>
    obtain ⟨hlo, hhi⟩ := toInt_cons_range x r
    by_contra hle
    have hmono : (2 : Int) ^ (8 * r.length + 7) ≤ 2 ^ (8 * n + 7) :=
      by exact_mod_cast Nat.pow_le_pow_right (by decide) (by simp only [List.length_cons] at hle; omega)
    omega

theorem stripSign_shortest : ∀ (b : List UInt8), toInt b ≠ 0 →
    ∀ b', toInt b' = toInt (stripSign b) → (stripSign b).length ≤ b'.length
  | [], _, _, _ => Nat.zero_le _
  | [x], h0, b', h => by
    cases b' with
    | nil => exact absurd h.symm (by simpa [stripSign, toInt] using h0)
    | cons _ _ => simp [stripSign]
  | x :: y :: r, h0, b', h => by
    unfold stripSign at h ⊢
    split
    · next hs => exact stripSign_shortest (y :: r) (by rwa [← toInt_dropSign r hs]) b' (by rwa [if_pos hs] at h)
    · next hs =>
      rw [if_neg hs] at h
      have hout := toInt_keepSign r hs
      rw [← h] at hout
      have := length_of_out_of_range hout
      simp only [List.length_cons]
      omega

theorem toInt_stripSign : ∀ b : List UInt8, toInt (stripSign b) = toInt b
  | [] | [_] => rfl
  | x :: y :: r => by
    unfold stripSign
    split
    · next hs => rw [toInt_stripSign (y :: r), toInt_dropSign r hs]
    · rfl

/-! ### The shortest form -/

theorem toInt_ofInt (i : Int) : toInt (ofInt i) = i := by
  unfold ofInt
  split
  · next h => rw [h]; rfl
  · obtain ⟨k, hw, hlo, hhi⟩ := startWidth_range i
    rw [toInt_stripSign, hw, toInt_toSigned hlo hhi]

theorem length_ofInt_le {n : Int} {b : List UInt8} (h : toInt b = n) :
    (ofInt n).length ≤ b.length := by
  unfold ofInt
  split
  · exact Nat.zero_le _
  · next hn =>
    obtain ⟨k, hw, hlo, hhi⟩ := startWidth_range n
    refine stripSign_shortest _ (by rw [hw, toInt_toSigned hlo hhi]; exact hn) b ?_
    rw [toInt_stripSign, hw, toInt_toSigned hlo hhi, h]

/-- `ofInt n` is the one shortest string whose reading is `n`. -/
theorem ofInt_eq_iff_shortest (n : Int) (b : List UInt8) :
    ofInt n = b ↔ toInt b = n ∧ ∀ b', toInt b' = n → b.length ≤ b'.length := by
  constructor
  · rintro rfl
    exact ⟨toInt_ofInt n, fun b' h => length_ofInt_le h⟩
  · rintro ⟨hb, hmin⟩
    have hle := length_ofInt_le hb
    have hge := hmin (ofInt n) (toInt_ofInt n)
    exact toInt_inj (by omega) (by rw [toInt_ofInt, hb])

/-- At the edges of a width: `-129` needs a second byte, `-128` does not, and `128` needs a
leading zero byte. -/
example : ofInt (-129) = [0xff, 0x7f] ∧ ofInt (-128) = [0x80] ∧ ofInt 128 = [0x00, 0x80] := by
  decide

theorem isCanonical_iff (b : List UInt8) : isCanonical b = true ↔ ∃ n, ofInt n = b := by
  constructor
  · intro h
    exact ⟨toInt b, by simpa [isCanonical] using h⟩
  · rintro ⟨n, rfl⟩
    simp [isCanonical, toInt_ofInt]

end PuzzleKit.Bytes

namespace PuzzleKit

/-- The integer atom codec is exact and minimal: reading what `ofInt` writes gives the integer
back; `ofInt n` is the one shortest big-endian two's complement string whose reading is `n`,
no bytes for zero; the canonical strings are those `ofInt` writes; and the atom of an integer
reads as that integer. -/
theorem int_codec_exact_minimal :
    (∀ n : Int, Bytes.toInt (Bytes.ofInt n) = n) ∧
    (∀ (n : Int) (b : List UInt8),
      Bytes.ofInt n = b ↔ Bytes.toInt b = n ∧ ∀ b', Bytes.toInt b' = n → b.length ≤ b'.length) ∧
    Bytes.ofInt 0 = [] ∧
    (∀ b : List UInt8, Bytes.isCanonical b = true ↔ ∃ n, Bytes.ofInt n = b) ∧
    (∀ n : Int, (Tree.ofInt n).toInt = some n) :=
  ⟨Bytes.toInt_ofInt, Bytes.ofInt_eq_iff_shortest, rfl, Bytes.isCanonical_iff,
    fun n => congrArg some (Bytes.toInt_ofInt n)⟩

end PuzzleKit
