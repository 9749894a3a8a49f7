import PuzzleKit.Address
import Mathlib.Tactic.Ring
import Mathlib.Data.List.Induction

/-! Regrouping and the checksum of bech32m.

`convertBits` reads digits of one width into an accumulator and writes digits of another. The
digits written, followed by the bits still pending, spell the digits read (`Regrouped`), so bytes
regrouped into 5-bit digits with padding regroup back into the same bytes
(`convertBits_round_trip`).

The checksum step is linear over xor in the bits below the top five: six digits fed after a
state act as six zeros would, with their value xored into the result
(`foldl_polyStep_digits`). The digits `checksum` writes are therefore the ones that make the
result the bech32m constant (`polymod_checksum`). -/

namespace PuzzleKit.Bech32

/-- The number whose digits of `w` bits, most significant first, are `ds`. -/
def digitsValue (w : Nat) (ds : List Nat) : Nat := ds.foldl (fun a d => a * 2 ^ w + d) 0

theorem digitsValue_concat (w : Nat) (ds : List Nat) (d : Nat) :
    digitsValue w (ds ++ [d]) = digitsValue w ds * 2 ^ w + d := by
  simp [digitsValue, List.foldl_append]

theorem foldl_digits_range (t B x a : Nat) (n : Nat) (hn : t * n ≤ B) :
    ((List.range n).map fun i => x / 2 ^ (B - t * (i + 1)) % 2 ^ t).foldl
        (fun a d => a * 2 ^ t + d) a =
      a * 2 ^ (t * n) + x / 2 ^ (B - t * n) % 2 ^ (t * n) := by
  induction n with
  | zero => simp [Nat.mod_one]
  | succ n ih =>
    rw [List.range_succ, List.map_append, List.foldl_append,
      ih (Nat.le_trans (Nat.mul_le_mul_left t (Nat.le_succ n)) hn)]
    simp only [List.map_cons, List.map_nil, List.foldl_cons, List.foldl_nil]
    -- the top `t * n` bits are the top of the `t * (n + 1)` bits below `B - t * (n + 1)`
    set y := x / 2 ^ (B - t * (n + 1)) with hy
    have hsplit : B - t * n = (B - t * (n + 1)) + t := by
      have := Nat.mul_add_one t n
      omega
    have hdiv : x / 2 ^ (B - t * n) = y / 2 ^ t := by
      rw [hsplit, Nat.pow_add, ← Nat.div_div_eq_div_mul]
    have hmod : y % 2 ^ (t * (n + 1)) = y % 2 ^ t + 2 ^ t * (y / 2 ^ t % 2 ^ (t * n)) := by
      rw [Nat.mul_succ, Nat.pow_add, Nat.mul_comm (2 ^ (t * n)), Nat.mod_mul]
    rw [hdiv, hmod, Nat.mul_succ, Nat.pow_add]
    ring

/-! ### Regrouping -/

/-- One digit of the regrouping: the accumulator takes the digit's bits, and every whole
digit of the new width at the top of the pending bits is written out. -/
def regroupStep (f t : Nat) (st : Option (Nat × Nat × List Nat)) (value : Nat) :
    Option (Nat × Nat × List Nat) :=
  st.bind fun (acc, bits, out) =>
    if value >>> f ≠ 0 then none
    else
      let acc := ((acc <<< f) ||| value) &&& ((1 <<< (f + t - 1)) - 1)
      let bits := bits + f
      let n := bits / t
      some (acc, bits - t * n,
        out ++ (List.range n).map fun i => (acc >>> (bits - t * (i + 1))) &&& ((1 <<< t) - 1))

/-- The end of the regrouping: a last partial digit padded with zeros, or, without padding,
leftover bits that must be fewer than a digit and zero. -/
def regroupEnd (f t : Nat) (pad : Bool) (st : Nat × Nat × List Nat) : Option (List Nat) :=
  let (acc, bits, out) := st
  if pad then
    some (if bits > 0 then out ++ [(acc <<< (t - bits)) &&& ((1 <<< t) - 1)] else out)
  else if bits ≥ f || (acc <<< (t - bits)) &&& ((1 <<< t) - 1) ≠ 0 then none
  else some out

theorem convertBits_eq (data : List Nat) (f t : Nat) (pad : Bool) :
    convertBits data f t pad = (data.foldl (regroupStep f t) (some (0, 0, []))).bind
      (regroupEnd f t pad) := rfl

/-- What the regrouping keeps after reading the digits `xs` of `f` bits: fewer than a digit's
bits are pending, the digits written are digits of `t` bits, and the digits written followed
by the pending low bits of the accumulator spell `xs`. -/
structure Regrouped (f t : Nat) (xs : List Nat) (st : Nat × Nat × List Nat) : Prop where
  pending_lt : st.2.1 < t
  out_lt : ∀ d ∈ st.2.2, d < 2 ^ t
  value : digitsValue f xs = digitsValue t st.2.2 * 2 ^ st.2.1 + st.1 % 2 ^ st.2.1
  length : st.2.2.length * t + st.2.1 = xs.length * f

theorem regrouped_nil (f t : Nat) (ht : 0 < t) : Regrouped f t [] (0, 0, []) :=
  ⟨ht, by simp, by simp [digitsValue], by simp⟩

theorem shift_add_mod (acc v bits f : Nat) (hv : v < 2 ^ f) :
    (acc * 2 ^ f + v) % 2 ^ (bits + f) = acc % 2 ^ bits * 2 ^ f + v := by
  have hlt : acc % 2 ^ bits * 2 ^ f + v < 2 ^ bits * 2 ^ f := by
    have hr : acc % 2 ^ bits + 1 ≤ 2 ^ bits := Nat.mod_lt _ (Nat.two_pow_pos bits)
    have := Nat.mul_le_mul_right (2 ^ f) hr
    rw [Nat.add_mul, Nat.one_mul] at this
    omega
  have hacc : acc * 2 ^ f + v =
      (2 ^ bits * 2 ^ f) * (acc / 2 ^ bits) + (acc % 2 ^ bits * 2 ^ f + v) := by
    conv => lhs; rw [← Nat.div_add_mod acc (2 ^ bits)]
    ring
  rw [hacc, Nat.pow_add, Nat.mul_add_mod, Nat.mod_eq_of_lt hlt]

theorem digitsValue_write {t B n : Nat} (hn : t * n ≤ B) (out : List Nat) (a : Nat) :
    digitsValue t (out ++ (List.range n).map fun i => a / 2 ^ (B - t * (i + 1)) % 2 ^ t) *
        2 ^ (B - t * n) + a % 2 ^ (B - t * n) =
      digitsValue t out * 2 ^ B + a % 2 ^ B := by
  have hdigits : digitsValue t (out ++ (List.range n).map fun i =>
      a / 2 ^ (B - t * (i + 1)) % 2 ^ t) =
        digitsValue t out * 2 ^ (t * n) + a / 2 ^ (B - t * n) % 2 ^ (t * n) := by
    rw [digitsValue, List.foldl_append]
    exact foldl_digits_range t B a _ n hn
  have hsplit : a % 2 ^ B = a % 2 ^ (B - t * n) +
      2 ^ (B - t * n) * (a / 2 ^ (B - t * n) % 2 ^ (t * n)) := by
    rw [← Nat.mod_mul, ← Nat.pow_add, Nat.sub_add_cancel hn]
  have hB : 2 ^ B = 2 ^ (B - t * n) * 2 ^ (t * n) := by
    rw [← Nat.pow_add, Nat.sub_add_cancel hn]
  rw [hdigits, hsplit, hB]
  ring

theorem regroupStep_regrouped {f t : Nat} {xs : List Nat} {acc bits : Nat} {out : List Nat}
    (h : Regrouped f t xs (acc, bits, out)) {v : Nat} (hv : v < 2 ^ f) :
    ∃ st, regroupStep f t (some (acc, bits, out)) v = some st ∧ Regrouped f t (xs ++ [v]) st := by
  obtain ⟨hbits, hout, hval, hlen⟩ := h
  dsimp only at hbits hout hval hlen
  have hv' : v >>> f = 0 := by rw [Nat.shiftRight_eq_div_pow]; exact Nat.div_eq_of_lt hv
  have hacc : ((acc <<< f) ||| v) &&& ((1 <<< (f + t - 1)) - 1) = (acc * 2 ^ f + v) % 2 ^ (f + t - 1) := by
    rw [← Nat.shiftLeft_add_eq_or_of_lt hv, Nat.shiftLeft_eq, Nat.one_shiftLeft,
      Nat.and_two_pow_sub_one_eq_mod]
  set acc' := (acc * 2 ^ f + v) % 2 ^ (f + t - 1)
  set B := bits + f
  have hlow : acc' % 2 ^ B = acc % 2 ^ bits * 2 ^ f + v := by
    rw [Nat.mod_mod_of_dvd _ (Nat.pow_dvd_pow 2 (by omega : B ≤ f + t - 1))]
    exact shift_add_mod acc v bits f hv
  set n := B / t
  have hn : t * n ≤ B := Nat.mul_div_le B t
  set outs := (List.range n).map fun i => (acc' >>> (B - t * (i + 1))) &&& ((1 <<< t) - 1)
  have houts : outs = (List.range n).map fun i => acc' / 2 ^ (B - t * (i + 1)) % 2 ^ t := by
    simp [outs, Nat.shiftRight_eq_div_pow, Nat.one_shiftLeft]
  refine ⟨(acc', B - t * n, out ++ outs), by simp [regroupStep, hv', hacc, acc', B, n, outs], ?_⟩
  constructor
  · show B - t * n < t
    rw [← Nat.mod_eq_sub_mul_div]
    exact Nat.mod_lt _ (by omega)
  · intro d hd
    rcases List.mem_append.mp hd with hd | hd
    · exact hout d hd
    · rw [houts] at hd
      obtain ⟨i, -, rfl⟩ := List.mem_map.mp hd
      exact Nat.mod_lt _ (Nat.two_pow_pos t)
  · show digitsValue f (xs ++ [v]) = digitsValue t (out ++ outs) * 2 ^ (B - t * n) +
      acc' % 2 ^ (B - t * n)
    rw [houts, digitsValue_write hn, hlow, digitsValue_concat, hval,
      show 2 ^ B = 2 ^ bits * 2 ^ f from Nat.pow_add 2 bits f]
    ring
  · show (out ++ outs).length * t + (B - t * n) = (xs ++ [v]).length * f
    have hlo : outs.length = n := by simp [outs]
    have hBdef : B = bits + f := rfl
    simp only [List.length_append, List.length_singleton, hlo]
    rw [Nat.add_mul, Nat.add_mul, Nat.one_mul]
    have : n * t = t * n := Nat.mul_comm n t
    omega

theorem foldl_regroupStep {f t : Nat} {ys : List Nat} (hys : ∀ y ∈ ys, y < 2 ^ f) :
    ∀ {xs : List Nat} {st : Nat × Nat × List Nat}, Regrouped f t xs st →
      ∃ st', ys.foldl (regroupStep f t) (some st) = some st' ∧ Regrouped f t (xs ++ ys) st' := by
  induction ys with
  | nil =>
    intro xs st h
    exact ⟨st, rfl, by simpa using h⟩
  | cons y ys ih =>
    intro xs st h
    obtain ⟨acc, bits, out⟩ := st
    obtain ⟨st₁, hstep, h₁⟩ := regroupStep_regrouped h (hys y List.mem_cons_self)
    obtain ⟨st', hrest, h'⟩ := ih (fun z hz => hys z (List.mem_cons_of_mem y hz)) h₁
    refine ⟨st', by rw [List.foldl_cons, hstep, hrest], by simpa using h'⟩

theorem digitsValue_inj {w : Nat} {ds : List Nat} :
    ∀ {es : List Nat}, ds.length = es.length → (∀ d ∈ ds, d < 2 ^ w) →
      (∀ e ∈ es, e < 2 ^ w) → digitsValue w ds = digitsValue w es → ds = es := by
  induction ds using List.reverseRecOn with
  | nil =>
    intro es hlen _ _ _
    exact (List.length_eq_zero_iff.mp hlen.symm).symm
  | append_singleton ds d ih =>
    intro es hlen hds hes hval
    obtain ⟨es, e, rfl⟩ : ∃ es' e, es = es' ++ [e] := by
      rcases List.eq_nil_or_concat es with rfl | ⟨es', e, rfl⟩
      · simp at hlen
      · exact ⟨es', e, List.concat_eq_append⟩
    have hd : d < 2 ^ w := hds d (by simp)
    have he : e < 2 ^ w := hes e (by simp)
    rw [digitsValue_concat, digitsValue_concat] at hval
    have hlast : d = e := by
      have := congrArg (· % 2 ^ w) hval
      simpa [Nat.mul_comm, Nat.mul_add_mod, Nat.mod_eq_of_lt hd, Nat.mod_eq_of_lt he] using this
    have hfront : digitsValue w ds = digitsValue w es := by
      have := congrArg (· / 2 ^ w) hval
      simpa [Nat.mul_comm, Nat.mul_add_div (Nat.two_pow_pos w), Nat.div_eq_of_lt hd,
        Nat.div_eq_of_lt he] using this
    rw [ih (by simpa using hlen) (fun x hx => hds x (by simp [hx]))
      (fun x hx => hes x (by simp [hx])) hfront, hlast]

theorem shift_fill_mod (acc bits t : Nat) (hbits : bits ≤ t) :
    (acc <<< (t - bits)) &&& ((1 <<< t) - 1) = acc % 2 ^ bits * 2 ^ (t - bits) := by
  rw [Nat.shiftLeft_eq, Nat.one_shiftLeft, Nat.and_two_pow_sub_one_eq_mod,
    show 2 ^ t = 2 ^ bits * 2 ^ (t - bits) by rw [← Nat.pow_add, Nat.add_sub_cancel' hbits]]
  exact Nat.mul_mod_mul_right _ _ _

theorem convertBits_pad {f t : Nat} (ht : 0 < t) {xs : List Nat} (hxs : ∀ x ∈ xs, x < 2 ^ f) :
    ∃ ys pad, convertBits xs f t true = some ys ∧ pad < t ∧ (∀ y ∈ ys, y < 2 ^ t) ∧
      digitsValue t ys = digitsValue f xs * 2 ^ pad ∧ ys.length * t = xs.length * f + pad := by
  obtain ⟨⟨acc, bits, out⟩, hfold, hreg⟩ := foldl_regroupStep hxs (regrouped_nil f t ht)
  obtain ⟨hbits, hout, hval, hlen⟩ := hreg
  simp only [List.nil_append] at hbits hout hval hlen
  rw [convertBits_eq, hfold]
  by_cases hb : bits > 0
  · -- the pending bits, filled with zeros, make the last digit
    refine ⟨out ++ [acc % 2 ^ bits * 2 ^ (t - bits)], t - bits, ?_, by omega, ?_, ?_, ?_⟩
    · simp [regroupEnd, hb, shift_fill_mod acc bits t (Nat.le_of_lt hbits)]
    · intro y hy
      rcases List.mem_append.mp hy with hy | hy
      · exact hout y hy
      · rw [List.mem_singleton.mp hy, ← shift_fill_mod acc bits t (Nat.le_of_lt hbits),
          Nat.shiftLeft_eq, Nat.one_shiftLeft, Nat.and_two_pow_sub_one_eq_mod]
        exact Nat.mod_lt _ (Nat.two_pow_pos t)
    · rw [digitsValue_concat, hval, Nat.add_mul, Nat.mul_assoc, ← Nat.pow_add,
        Nat.add_sub_cancel' (Nat.le_of_lt hbits)]
    · simp only [List.length_append, List.length_singleton, Nat.add_mul, Nat.one_mul]
      omega
  · have hb0 : bits = 0 := by omega
    subst hb0
    refine ⟨out, 0, by simp [regroupEnd], ht, hout, by simp [hval, Nat.mod_one], by simpa using hlen⟩

theorem convertBits_nopad {f t : Nat} (ht : 0 < t) {xs zs : List Nat} {pad : Nat}
    (hxs : ∀ x ∈ xs, x < 2 ^ f) (hzs : ∀ z ∈ zs, z < 2 ^ t) (hpf : pad < f) (hpt : pad < t)
    (hval : digitsValue f xs = digitsValue t zs * 2 ^ pad)
    (hlen : xs.length * f = zs.length * t + pad) : convertBits xs f t false = some zs := by
  obtain ⟨⟨acc, bits, out⟩, hfold, hreg⟩ := foldl_regroupStep hxs (regrouped_nil f t ht)
  obtain ⟨hbits, hout, hval', hlen'⟩ := hreg
  simp only [List.nil_append] at hbits hout hval' hlen'
  have hsame : out.length * t + bits = zs.length * t + pad := by rw [hlen', hlen]
  have hbp : bits = pad := by
    have := congrArg (· % t) hsame
    simpa [Nat.mul_comm _ t, Nat.mul_add_mod, Nat.mod_eq_of_lt hbits, Nat.mod_eq_of_lt hpt]
      using this
  subst hbp
  have hlen_eq : out.length = zs.length :=
    Nat.eq_of_mul_eq_mul_right ht (by omega)
  have hrest : acc % 2 ^ bits = 0 := by
    have := congrArg (· % 2 ^ bits) (hval'.symm.trans hval)
    simpa [Nat.mul_comm _ (2 ^ bits), Nat.mul_add_mod,
      Nat.mod_eq_of_lt (Nat.mod_lt acc (Nat.two_pow_pos bits))] using this
  have hvals : digitsValue t out = digitsValue t zs := by
    rw [hval, hrest, Nat.add_zero] at hval'
    exact Nat.eq_of_mul_eq_mul_right (Nat.two_pow_pos bits) hval'.symm
  have hout_eq : out = zs := digitsValue_inj hlen_eq hout hzs hvals
  subst hout_eq
  rw [convertBits_eq, hfold]
  simp [regroupEnd, shift_fill_mod acc bits t (Nat.le_of_lt hbits), hrest, Nat.not_le.mpr hpf]

/-- Bytes regrouped into 5-bit digits with padding regroup back into the same bytes; 32 bytes
make 52 digits. -/
theorem convertBits_round_trip {bs : List Nat} (hbs : ∀ b ∈ bs, b < 256) :
    ∃ ds, convertBits bs 8 5 true = some ds ∧ (∀ d ∈ ds, d < 32) ∧
      ds.length * 5 < bs.length * 8 + 5 ∧ bs.length * 8 ≤ ds.length * 5 ∧
      convertBits ds 5 8 false = some bs := by
  obtain ⟨ds, pad, hds, hpad, hdig, hval, hlen⟩ := convertBits_pad (f := 8) (t := 5) (by decide) hbs
  refine ⟨ds, hds, hdig, by omega, by omega, ?_⟩
  exact convertBits_nopad (by decide) hdig hbs hpad (by omega) hval (by omega)

/-! ### The checksum -/

/-- The generator of the checksum code. -/
def gen : List Nat := [0x3b6a57b2, 0x26508e6d, 0x1ea119fa, 0x3d4233dd, 0x2a1462b3]

/-- Adds the generator terms that the five bits shifted out ask for. -/
def mix (b c : Nat) : Nat :=
  (List.range 5).foldl (fun c i => if (b >>> i) &&& 1 = 1 then c ^^^ gen.getD i 0 else c) c

/-- One value into the checksum. -/
def polyStep (chk v : Nat) : Nat := mix (chk >>> 25) (((chk &&& 0x1ffffff) <<< 5) ^^^ v)

theorem polymod_eq (values : List Nat) : polymod values = values.foldl polyStep 1 := rfl

theorem mix_xor (b c y : Nat) : mix b (c ^^^ y) = mix b c ^^^ y := by
  unfold mix
  generalize List.range 5 = is
  induction is generalizing c with
  | nil => rfl
  | cons i is ih =>
    simp only [List.foldl_cons]
    split
    · rw [Nat.xor_assoc, Nat.xor_comm y, ← Nat.xor_assoc, ih]
    · rw [ih]

theorem shiftLeft_xor_eq_add {c k : Nat} (D : Nat) (hc : c < 2 ^ k) :
    (D <<< k) ^^^ c = D * 2 ^ k + c := by
  apply Nat.eq_of_testBit_eq
  intro j
  rw [Nat.testBit_xor, Nat.testBit_shiftLeft, Nat.mul_comm, Nat.testBit_two_pow_mul_add D hc]
  by_cases hj : j < k
  · simp [Nat.not_le.mpr hj, hj]
  · have hcj : c.testBit j = false :=
      Nat.testBit_lt_two_pow (Nat.lt_of_lt_of_le hc (Nat.pow_le_pow_right (by decide) (by omega)))
    simp [hj, hcj]
    omega

theorem polyStep_xor {D c : Nat} (Z : Nat) (hD : D < 2 ^ 25) (hc : c < 32) :
    polyStep (Z ^^^ D) c = polyStep Z 0 ^^^ (D * 32 + c) := by
  have hhigh : (Z ^^^ D) >>> 25 = Z >>> 25 := by
    rw [Nat.shiftRight_xor_distrib, Nat.shiftRight_eq_div_pow D, Nat.div_eq_of_lt hD,
      Nat.xor_zero]
  have hlow : (Z ^^^ D) &&& 0x1ffffff = (Z &&& 0x1ffffff) ^^^ D := by
    rw [Nat.and_xor_distrib_right, show (0x1ffffff : Nat) = 2 ^ 25 - 1 from rfl,
      Nat.and_two_pow_sub_one_of_lt_two_pow hD]
  unfold polyStep
  rw [hhigh, hlow, Nat.shiftLeft_xor_distrib, Nat.xor_assoc,
    shiftLeft_xor_eq_add D (k := 5) hc, ← mix_xor, Nat.xor_zero]
  rfl

theorem digitsValue_lt {w : Nat} {ds : List Nat} (hds : ∀ d ∈ ds, d < 2 ^ w) :
    digitsValue w ds < 2 ^ (w * ds.length) := by
  induction ds using List.reverseRecOn with
  | nil => simp [digitsValue]
  | append_singleton ds d ih =>
    have hd : d < 2 ^ w := hds d (by simp)
    have hlt := ih (fun x hx => hds x (by simp [hx]))
    have hle := Nat.mul_le_mul_right (2 ^ w) (Nat.succ_le_of_lt hlt)
    rw [digitsValue_concat, List.length_append, List.length_singleton, Nat.mul_add_one,
      Nat.pow_add]
    rw [Nat.succ_mul] at hle
    omega

/-- Checksum digits fed after some state act on it as zeros would, their value xored in
below. -/
theorem foldl_polyStep_digits (Z : Nat) {A : List Nat} (C : List Nat) (hA : ∀ a ∈ A, a < 32)
    (hC : ∀ c ∈ C, c < 32) (hlen : A.length + C.length ≤ 6) :
    C.foldl polyStep (Z ^^^ digitsValue 5 A) =
      (List.replicate C.length 0).foldl polyStep Z ^^^ digitsValue 5 (A ++ C) := by
  induction C generalizing Z A with
  | nil => simp
  | cons c C ih =>
    have hA25 : digitsValue 5 A < 2 ^ 25 :=
      Nat.lt_of_lt_of_le (digitsValue_lt hA)
        (Nat.pow_le_pow_right (by decide) (by simp at hlen; omega))
    have hc : c < 32 := hC c List.mem_cons_self
    rw [List.foldl_cons, polyStep_xor Z hA25 hc,
      show digitsValue 5 A * 32 + c = digitsValue 5 (A ++ [c]) from (digitsValue_concat 5 A c).symm,
      ih (polyStep Z 0) (fun a ha => by simp at ha; rcases ha with ha | rfl; exact hA a ha; exact hc)
        (fun x hx => hC x (List.mem_cons_of_mem c hx)) (by simp at hlen ⊢; omega)]
    simp [List.replicate_succ]

theorem gen_getD_lt (i : Nat) : gen.getD i 0 < 2 ^ 30 := by
  rcases i with _ | _ | _ | _ | _ | i <;> simp [gen]

theorem mix_lt (b : Nat) {c : Nat} (hc : c < 2 ^ 30) : mix b c < 2 ^ 30 := by
  unfold mix
  generalize List.range 5 = is
  induction is generalizing c with
  | nil => exact hc
  | cons i is ih =>
    simp only [List.foldl_cons]
    split
    · exact ih (Nat.xor_lt_two_pow hc (gen_getD_lt i))
    · exact ih hc

theorem polyStep_lt (chk : Nat) {v : Nat} (hv : v < 32) : polyStep chk v < 2 ^ 30 := by
  have hlow : chk &&& 0x1ffffff < 2 ^ 25 := Nat.and_lt_two_pow chk (by decide)
  have hshift : (chk &&& 0x1ffffff) <<< 5 < 2 ^ 30 := by
    rw [Nat.shiftLeft_eq, show (2 : Nat) ^ 30 = 2 ^ 25 * 2 ^ 5 by decide]
    exact Nat.mul_lt_mul_of_pos_right hlow (by decide)
  exact mix_lt _ (Nat.xor_lt_two_pow hshift (by omega))

theorem checksum_eq (hrp : String) (data : List Nat) :
    checksum hrp data = (List.range 6).map fun i =>
      (polymod (expandPrefix hrp ++ data ++ [0, 0, 0, 0, 0, 0]) ^^^ bech32mConst) /
        2 ^ (30 - 5 * (i + 1)) % 2 ^ 5 := by
  unfold checksum
  apply List.map_congr_left
  intro i hi
  rw [List.mem_range] at hi
  rw [Nat.shiftRight_eq_div_pow, show (31 : Nat) = 2 ^ 5 - 1 from rfl,
    Nat.and_two_pow_sub_one_eq_mod, show 5 * (5 - i) = 30 - 5 * (i + 1) by omega]

theorem checksum_length (hrp : String) (data : List Nat) : (checksum hrp data).length = 6 := by
  simp [checksum]

theorem checksum_lt (hrp : String) (data : List Nat) : ∀ c ∈ checksum hrp data, c < 32 := by
  intro c hc
  rw [checksum_eq] at hc
  obtain ⟨i, -, rfl⟩ := List.mem_map.mp hc
  exact Nat.mod_lt _ (by decide)

theorem checksum_value (hrp : String) (data : List Nat) :
    digitsValue 5 (checksum hrp data) =
      (polymod (expandPrefix hrp ++ data ++ [0, 0, 0, 0, 0, 0]) ^^^ bech32mConst) % 2 ^ 30 := by
  rw [checksum_eq, digitsValue, foldl_digits_range 5 30 _ 0 6 (by decide)]
  simp

/-- Digits followed by their checksum pass the bech32m check. -/
theorem polymod_checksum (hrp : String) (data : List Nat) :
    polymod (expandPrefix hrp ++ data ++ checksum hrp data) = bech32mConst := by
  set P := (expandPrefix hrp ++ data).foldl polyStep 1
  set X := (List.replicate 6 0).foldl polyStep P
  have hpm : polymod (expandPrefix hrp ++ data ++ [0, 0, 0, 0, 0, 0]) = X := by
    rw [polymod_eq, List.foldl_append]
    rfl
  -- the checksum state after six zeros is a step's result, so it has thirty bits
  have hX : X < 2 ^ 30 := by
    simp only [X, List.replicate_succ', List.foldl_append, List.foldl_cons, List.foldl_nil]
    exact polyStep_lt _ (by decide)
  have hdig : digitsValue 5 (checksum hrp data) = X ^^^ bech32mConst := by
    rw [checksum_value, hpm, Nat.mod_eq_of_lt (Nat.xor_lt_two_pow hX (by decide))]
  have hfold := foldl_polyStep_digits P (A := []) (checksum hrp data) (by simp)
    (checksum_lt hrp data) (by simp [checksum_length])
  simp only [digitsValue, List.foldl_nil, Nat.xor_zero, List.nil_append] at hfold
  rw [polymod_eq, List.foldl_append, hfold, checksum_length]
  rw [digitsValue] at hdig
  rw [hdig, ← Nat.xor_assoc, Nat.xor_self, Nat.zero_xor]

end PuzzleKit.Bech32
