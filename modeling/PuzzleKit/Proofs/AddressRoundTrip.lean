import PuzzleKit.Proofs.Bech32

/-! Addresses read back under exactly the valid prefixes.

The codec rests on a bech32 layer, taken as a parameter: `Bech32Layer.Bip350` names what the
round trip needs of it, as BIP 350 and its reference implementation behave. A string of a
valid prefix and digits reads back; what is read is printable, at most 90 characters long, and
its prefix is a nonempty beginning of the lowered string; 32 bytes regroup into 52 digits and
back. The reference implementation has all of these (`Bech32.reference_bip350`).

Below Latin-1 the lower case of a text is the ASCII lower case of each character, so an address
made under a prefix of printable ASCII without capitals is in lower case already and reads
back. Conversely, a prefix that reads back is printable, not empty, short enough for the 90
characters, and equal to its own lower case, since the codec compares the lowered prefix read
with the one it holds (`AddressCodec.address_round_trip_iff`). -/

namespace PuzzleKit.Text

theorem CaseRun.image?_eq_none {r : CaseRun} {n : Nat}
    (h : n < r.start ∨ r.start + r.count * r.stride ≤ n) : r.image? n = none := by
  unfold CaseRun.image?
  rw [if_neg]
  simp only [Bool.and_eq_true, decide_eq_true_eq, beq_iff_eq, not_and]
  omega

theorem lowerRuns_start : ∀ r ∈ lowerRuns,
    0x41 ≤ r.start ∧ (r.start + r.count * r.stride ≤ 0x5b ∨ 0xc0 ≤ r.start) := by
  decide +kernel

theorem isUpper_iff {c : Char} : c.isUpper ↔ 65 ≤ c.toNat ∧ c.toNat ≤ 90 := by
  show decide (c.val ≥ 'A'.val ∧ c.val ≤ 'Z'.val) = true ↔ _
  simp [UInt32.le_iff_toNat_le, ← Char.toNat_val]

theorem toLower_of_not_upper {c : Char} (h : ¬(65 ≤ c.toNat ∧ c.toNat ≤ 90)) :
    c.toLower = c := by
  unfold Char.toLower
  rw [dif_neg]
  simpa [UInt32.le_iff_toNat_le, ← Char.toNat_val] using h

theorem toNat_toLower_of_upper {c : Char} (h : 65 ≤ c.toNat ∧ c.toNat ≤ 90) :
    c.toLower.toNat = c.toNat + 32 := by
  unfold Char.toLower
  rw [dif_pos (by simpa [UInt32.le_iff_toNat_le, ← Char.toNat_val] using h)]
  show (c.val + ('a'.val - 'A'.val)).toNat = c.val.toNat + 32
  have hc : c.val.toNat ≤ 90 := h.2
  rw [UInt32.toNat_add, show ('a'.val - 'A'.val).toNat = 32 from rfl]
  exact Nat.mod_eq_of_lt (by omega)

theorem mapChar_lower_of_lt {c : Char} (hc : c.toNat < 0xc0) :
    mapChar lowerRuns lowerSpecial c = [c.toLower] := by
  have hspec : lowerSpecial.find? (·.1 == c.toNat) = none := by
    simp [lowerSpecial]
    omega
  unfold mapChar
  rw [hspec]
  by_cases hup : 65 ≤ c.toNat ∧ c.toNat ≤ 90
  · have himg : (⟨0x41, 26, 1, 32⟩ : CaseRun).image? c.toNat = some (c.toNat + 32) := by
      unfold CaseRun.image?
      rw [if_pos (by simp; omega)]
      congr 1
    have hrun : lowerRuns.findSome? (·.image? c.toNat) = some (c.toNat + 32) := by
      rw [show lowerRuns = ⟨0x41, 26, 1, 32⟩ :: lowerRuns.tail from rfl, List.findSome?_cons,
        himg]
    rw [hrun, ← Char.ofNat_toNat c.toLower, toNat_toLower_of_upper hup]
  · have hrun : lowerRuns.findSome? (·.image? c.toNat) = none := by
      rw [List.findSome?_eq_none_iff]
      intro r hr
      obtain ⟨hlo, hhi⟩ := lowerRuns_start r hr
      exact CaseRun.image?_eq_none (by omega)
    rw [hrun, toLower_of_not_upper hup]

theorem lowerChars_of_lt (before : List Char) {cs : List Char} (h : ∀ c ∈ cs, c.toNat < 0xc0) :
    lowerChars before cs = cs.map Char.toLower := by
  induction cs generalizing before with
  | nil => rfl
  | cons c cs ih =>
    have hc := h c List.mem_cons_self
    have hsig : c ≠ 'Σ' := by
      rintro rfl
      exact absurd hc (by decide)
    rw [lowerChars, if_neg hsig, mapChar_lower_of_lt hc,
      ih _ (fun x hx => h x (List.mem_cons_of_mem c hx))]
    rfl

theorem toLower_toList_of_lt {s : String} (h : ∀ c ∈ s.toList, c.toNat < 0xc0) :
    (toLower s).toList = s.toList.map Char.toLower := by
  rw [toLower, String.toList_ofList, lowerChars_of_lt [] h]

end PuzzleKit.Text

namespace PuzzleKit.Bech32

/-- The characters a prefix may hold: printable ASCII, no capital letter. -/
def PrefixChar (c : Char) : Bool := 33 ≤ c.toNat && c.toNat ≤ 126 && !c.isUpper

/-- The prefixes whose addresses read back: one to 31 characters that a prefix may hold. -/
def validPrefix (p : String) : Bool := 1 ≤ p.length && p.length ≤ 31 && p.toList.all PrefixChar

/-- The character of a digit. -/
def digitChar (d : Nat) : Char := charset.getD d 'q'

theorem digitChar_spec : ∀ d < 32, charset.idxOf (digitChar d) = d ∧
    charset.contains (digitChar d) = true ∧ digitChar d ≠ '1' ∧ PrefixChar (digitChar d) = true := by
  unfold digitChar
  decide

theorem encode_toList (hrp : String) (ds : List Nat) :
    (encode hrp ds).toList = hrp.toList ++ '1' :: (ds ++ checksum hrp ds).map digitChar := by
  simp [encode]
  rfl

theorem prefixChar_lt {c : Char} (h : PrefixChar c = true) : c.toNat < 0xc0 := by
  simp only [PrefixChar, Bool.and_eq_true, decide_eq_true_eq] at h
  omega

theorem toLower_of_prefixChar {c : Char} (h : PrefixChar c = true) : c.toLower = c := by
  simp only [PrefixChar, Bool.and_eq_true, decide_eq_true_eq, Bool.not_eq_true'] at h
  exact Text.toLower_of_not_upper fun hu => by simp [Text.isUpper_iff.mpr hu] at h

theorem checked_lt (hrp : String) {ds : List Nat} (hds : ∀ d ∈ ds, d < 32) :
    ∀ d ∈ ds ++ checksum hrp ds, d < 32 := by
  intro d hd
  rcases List.mem_append.mp hd with hd | hd
  · exact hds d hd
  · exact checksum_lt hrp ds d hd

theorem lower_encode_toList {p : String} {ds : List Nat} (hp : ∀ c ∈ p.toList, c.toNat < 0xc0)
    (hds : ∀ d ∈ ds, d < 32) :
    (Text.toLower (encode p ds)).toList =
      p.toList.map Char.toLower ++ '1' :: (ds ++ checksum p ds).map digitChar := by
  have hdig : ∀ d ∈ ds ++ checksum p ds, PrefixChar (digitChar d) = true :=
    fun d hd => (digitChar_spec d (checked_lt p hds d hd)).2.2.2
  rw [Text.toLower_toList_of_lt, encode_toList, List.map_append, List.map_cons, List.map_map]
  · congr 2
    apply List.map_congr_left
    intro d hd
    exact toLower_of_prefixChar (hdig d hd)
  · intro c hc
    rw [encode_toList] at hc
    simp only [List.mem_append, List.mem_cons, List.mem_map] at hc
    rcases hc with hc | rfl | ⟨d, hd, rfl⟩
    · exact hp c hc
    · decide
    · exact prefixChar_lt (hdig d (List.mem_append.mpr hd))

theorem findIdx_separator {P L : List Char} (hL : '1' ∉ L) :
    (P ++ '1' :: L).reverse.findIdx? (· = '1') = some L.length := by
  have hnone : L.reverse.findIdx? (· = '1') = none := by
    rw [List.findIdx?_eq_none_iff]
    intro c hc
    simp only [decide_eq_false_iff_not]
    rintro rfl
    exact hL (List.mem_reverse.mp hc)
  simp [List.findIdx?_append, List.findIdx?_cons, hnone]

theorem separator_not_digit {ws : List Nat} (hws : ∀ d ∈ ws, d < 32) :
    '1' ∉ ws.map digitChar := by
  rw [List.mem_map]
  rintro ⟨d, hd, h1⟩
  exact (digitChar_spec d (hws d hd)).2.2.1 h1

theorem toLower_encode {p : String} {ds : List Nat} (hp : ∀ c ∈ p.toList, PrefixChar c = true)
    (hds : ∀ d ∈ ds, d < 32) : Text.toLower (encode p ds) = encode p ds := by
  apply String.toList_inj.mp
  rw [lower_encode_toList (fun c hc => prefixChar_lt (hp c hc)) hds, encode_toList]
  congr 1
  exact List.map_congr_left (fun c hc => toLower_of_prefixChar (hp c hc)) |>.trans (List.map_id' _)

theorem decode_encode {p : String} {ds : List Nat} (hp : ∀ c ∈ p.toList, PrefixChar c = true)
    (hpos : 1 ≤ p.length) (hlen : p.length + ds.length ≤ 83) (hds : ∀ d ∈ ds, d < 32) :
    decode (encode p ds) = some (.bech32m, p, ds) := by
  set ws := ds ++ checksum p ds with hws_def
  have hws : ∀ d ∈ ws, d < 32 := checked_lt p hds
  set L := ws.map digitChar with hL
  have hlow := toLower_encode hp hds
  have hany : ((encode p ds).toList.any fun c => c.toNat < 33 || c.toNat > 126) = false := by
    rw [List.any_eq_false, encode_toList]
    intro c hc
    have hc' : PrefixChar c = true := by
      simp only [List.mem_append, List.mem_cons, List.mem_map] at hc
      rcases hc with hc | rfl | ⟨d, hd, rfl⟩
      · exact hp c hc
      · decide
      · exact (digitChar_spec d (hws d (List.mem_append.mpr hd))).2.2.2
    simp only [PrefixChar, Bool.and_eq_true, decide_eq_true_eq] at hc'
    simp only [Bool.or_eq_true, decide_eq_true_eq, not_or]
    omega
  have hsep : '1' ∉ L := separator_not_digit hws
  have hlenL : L.length = ds.length + 6 := by simp [hL, hws_def, checksum_length]
  have hpos' : (p.toList ++ '1' :: L).length - 1 - L.length = p.length := by
    simp only [List.length_append, List.length_cons, String.length_toList]
    omega
  have htake : (p.toList ++ '1' :: L).take p.length = p.toList :=
    List.take_left' String.length_toList
  have hdrop : (p.toList ++ '1' :: L).drop (p.length + 1) = L := by
    rw [show p.toList ++ '1' :: L = (p.toList ++ ['1']) ++ L by simp]
    exact List.drop_left' (by rw [List.length_append, String.length_toList]; rfl)
  have hall : L.all (charset.contains ·) = true := by
    rw [List.all_eq_true, hL]
    intro c hc
    obtain ⟨d, hd, rfl⟩ := List.mem_map.mp hc
    exact (digitChar_spec d (hws d hd)).2.1
  have hidx : L.map (charset.idxOf ·) = ws := by
    rw [hL, List.map_map]
    exact List.map_congr_left (fun d hd => (digitChar_spec d (hws d hd)).1) |>.trans (List.map_id' _)
  have hpm : polymod (expandPrefix p ++ ws) = bech32mConst := by
    rw [hws_def, ← List.append_assoc, polymod_checksum]
  have htail : ws.take (ws.length - 6) = ds := by
    rw [hws_def, List.length_append, checksum_length, Nat.add_sub_cancel]
    exact List.take_left' rfl
  have hcs : (encode p ds).toList = p.toList ++ '1' :: L := encode_toList p ds
  unfold decode
  simp only [hany, hlow, bne_self_eq_false, Bool.false_and]
  rw [hcs, findIdx_separator hsep]
  simp only [hpos', htake, hdrop, hall, String.ofList_toList, hidx, hpm, htail]
  have hcslen : (p.toList ++ '1' :: L).length = p.length + ds.length + 7 := by
    simp only [List.length_append, List.length_cons, String.length_toList, hlenL]
    omega
  have hbounds : ¬((decide (p.length < 1) || decide (p.length + 7 > p.length + ds.length + 7) ||
      decide (p.length + ds.length + 7 > 90)) = true) := by
    simp only [Bool.or_eq_true, decide_eq_true_eq]
    omega
  rw [hcslen, if_neg hbounds]
  simp [show bech32mConst ≠ 1 by decide]

-- checked as one test of the whole list: deciding the bounded quantifier member by member
-- runs too deep once all of Mathlib's instances are in scope
theorem charset_prefixChar : ∀ c ∈ charset, PrefixChar c = true :=
  List.all_eq_true.mp (by decide)

theorem digitChar_mem (d : Nat) : digitChar d ∈ charset := by
  unfold digitChar
  rw [List.getD_eq_getElem?_getD]
  by_cases hd : d < charset.length
  · rw [List.getElem?_eq_getElem hd, Option.getD_some]
    exact List.getElem_mem hd
  · rw [List.getElem?_eq_none (by omega), Option.getD_none]
    decide

theorem decode_some {s : String} {v : Variant} {hrp : String} {data : List Nat}
    (h : decode s = some (v, hrp, data)) :
    (∀ c ∈ s.toList, 33 ≤ c.toNat ∧ c.toNat ≤ 126) ∧ s.length ≤ 90 ∧ 1 ≤ hrp.length ∧
      hrp.toList <+: (Text.toLower s).toList := by
  unfold decode at h
  dsimp only at h
  split at h
  · cases h
  rename_i hany
  have hprint : ∀ c ∈ s.toList, 33 ≤ c.toNat ∧ c.toNat ≤ 126 := by
    intro c hc
    have := List.any_eq_false.mp (Bool.not_eq_true _ ▸ hany) c hc
    simp only [Bool.or_eq_true, decide_eq_true_eq, not_or] at this
    omega
  have hlower : (Text.toLower s).toList.length = s.length := by
    rw [Text.toLower_toList_of_lt fun c hc => by have := hprint c hc; omega, List.length_map,
      String.length_toList]
  split at h
  · cases h
  split at h
  · cases h
  rename_i k _
  split at h
  · cases h
  rename_i hbounds
  simp only [Bool.or_eq_true, decide_eq_true_eq, not_or, Nat.not_lt] at hbounds
  split at h
  · cases h
  obtain ⟨w, -, heq⟩ := Option.map_eq_some_iff.mp h
  simp only [Prod.mk.injEq] at heq
  rw [← heq.2.1, String.toList_ofList]
  refine ⟨hprint, by omega, ?_, List.take_prefix _ _⟩
  rw [String.length_ofList, List.length_take]
  omega

end PuzzleKit.Bech32

namespace PuzzleKit

/-- What an address codec needs of its bech32 layer, as BIP 350 and its reference behave:
writing puts the prefix as given, the separator and six digits more than it is given, all in
the bech32 alphabet; a string of a prefix of printable characters without capitals and of
5-bit digits, 90 characters at most, reads back as bech32m; a string read is printable and at
most 90 characters long, and the prefix read is a nonempty beginning of the lowered string;
32 bytes regroup with padding into 52 digits, which regroup back without it. -/
structure Bech32Layer.Bip350 (L : Bech32Layer) : Prop where
  encode_shape : ∀ hrp data, ∃ tail : List Char,
    (L.encode hrp data).toList = hrp.toList ++ '1' :: tail ∧ tail.length = data.length + 6 ∧
      ∀ c ∈ tail, c ∈ Bech32.charset
  decode_encode : ∀ hrp data, (∀ c ∈ hrp.toList, Bech32.PrefixChar c = true) → 1 ≤ hrp.length →
    hrp.length + data.length ≤ 83 → (∀ d ∈ data, d < 32) →
    L.decode (L.encode hrp data) = some (.bech32m, hrp, data)
  decode_printable : ∀ s r, L.decode s = some r → ∀ c ∈ s.toList, 33 ≤ c.toNat ∧ c.toNat ≤ 126
  decode_length : ∀ s r, L.decode s = some r → s.length ≤ 90
  decode_prefix : ∀ s v hrp data, L.decode s = some (v, hrp, data) →
    1 ≤ hrp.length ∧ hrp.toList <+: (Text.toLower s).toList
  regroup : ∀ bs : List Nat, bs.length = 32 → (∀ b ∈ bs, b < 256) →
    ∃ ds, L.convertBits bs 8 5 true = some ds ∧ (∀ d ∈ ds, d < 32) ∧ ds.length = 52 ∧
      L.convertBits ds 5 8 false = some bs

theorem Bech32.reference_bip350 : Bech32.reference.Bip350 where
  encode_shape hrp data := ⟨_, Bech32.encode_toList hrp data, by simp [Bech32.checksum_length],
    fun c hc => by
      obtain ⟨d, -, rfl⟩ := List.mem_map.mp hc
      exact Bech32.digitChar_mem d⟩
  decode_encode _ _ hp hpos hlen hds := Bech32.decode_encode hp hpos hlen hds
  decode_printable _ r h := by
    obtain ⟨v, hrp, data⟩ := r
    exact (Bech32.decode_some h).1
  decode_length _ r h := by
    obtain ⟨v, hrp, data⟩ := r
    exact (Bech32.decode_some h).2.1
  decode_prefix _ _ _ _ h := (Bech32.decode_some h).2.2
  regroup bs hlen hbs := by
    obtain ⟨ds, hconv, hdig, hlt, hle, hback⟩ := Bech32.convertBits_round_trip hbs
    exact ⟨ds, hconv, hdig, by omega, hback⟩

namespace AddressCodec

variable {c : AddressCodec}

theorem encode_of_digits {ph : List UInt8} (hph : ph.length = 32) {ds : List Nat}
    (hconv : c.bech32.convertBits (ph.map (·.toNat)) 8 5 true = some ds) :
    c.encode ph = .ok (c.bech32.encode c.pre ds) := by
  simp [AddressCodec.encode, hph, hconv]

theorem digits_of_hash (hL : c.bech32.Bip350) {ph : List UInt8} (hph : ph.length = 32) :
    ∃ ds, c.bech32.convertBits (ph.map (·.toNat)) 8 5 true = some ds ∧ (∀ d ∈ ds, d < 32) ∧
      ds.length = 52 ∧ c.bech32.convertBits ds 5 8 false = some (ph.map (·.toNat)) :=
  hL.regroup _ (by simpa using hph) fun b hb => by
    obtain ⟨x, -, rfl⟩ := List.mem_map.mp hb
    exact x.toNat_lt

theorem isAddress_encode (hL : c.bech32.Bip350)
    (hchars : ∀ ch ∈ c.pre.toList, Bech32.PrefixChar ch = true) (ds : List Nat) :
    c.isAddress (c.bech32.encode c.pre ds) = true := by
  obtain ⟨tail, htl, -, hcs⟩ := hL.encode_shape c.pre ds
  have hdigit : ∀ ch ∈ tail, Bech32.PrefixChar ch = true := fun ch hch =>
    Bech32.charset_prefixChar ch (hcs ch hch)
  have hall : ∀ ch ∈ (c.bech32.encode c.pre ds).toList, Bech32.PrefixChar ch = true := by
    rw [htl]
    intro ch hch
    simp only [List.mem_append, List.mem_cons] at hch
    rcases hch with hch | rfl | hch
    · exact hchars ch hch
    · decide
    · exact hdigit ch hch
  have hlow : Text.toLower (c.bech32.encode c.pre ds) = c.bech32.encode c.pre ds := by
    apply String.toList_inj.mp
    rw [Text.toLower_toList_of_lt fun ch hch => Bech32.prefixChar_lt (hall ch hch)]
    exact (List.map_congr_left fun ch hch => Bech32.toLower_of_prefixChar (hall ch hch)).trans
      (List.map_id _)
  have hs : c.bech32.encode c.pre ds = c.pre ++ "1" ++ String.ofList tail :=
    String.toList_inj.mp (by simp [htl])
  rw [isAddress, hlow, hs]
  simp

theorem round_trip_of_validPrefix (hL : c.bech32.Bip350) (hp : Bech32.validPrefix c.pre = true)
    {ph : List UInt8} (hph : ph.length = 32) :
    ∃ a, c.encode ph = .ok a ∧ c.decode a = .ok ph ∧ c.tryDecode a = some ph := by
  simp only [Bech32.validPrefix, Bool.and_eq_true, decide_eq_true_eq, List.all_eq_true] at hp
  obtain ⟨⟨hpos, hmax⟩, hchars⟩ := hp
  obtain ⟨ds, hconv, hds, hlen, hback⟩ := digits_of_hash hL hph
  have hdec : c.decode (c.bech32.encode c.pre ds) = .ok ph := by
    unfold AddressCodec.decode
    rw [hL.decode_encode c.pre ds hchars hpos (by omega) hds]
    simp [hback, hph, Function.comp_def, UInt8.ofNat_toNat]
  refine ⟨_, encode_of_digits hph hconv, hdec, ?_⟩
  rw [tryDecode, if_pos (isAddress_encode hL hchars ds), hdec]
  rfl

theorem validPrefix_of_round_trip (hL : c.bech32.Bip350) {ph : List UInt8} (hph : ph.length = 32)
    {a : String} (henc : c.encode ph = .ok a) (hdec : c.decode a = .ok ph) :
    Bech32.validPrefix c.pre = true := by
  obtain ⟨ds, hconv, -, hlen, -⟩ := digits_of_hash hL hph
  rw [encode_of_digits hph hconv] at henc
  cases henc
  unfold AddressCodec.decode at hdec
  split at hdec
  · cases hdec
  rename_i v hrp data hsome
  split at hdec
  · cases hdec
  split at hdec
  · cases hdec
  rename_i hhrp
  have hhrp : hrp = c.pre := Classical.not_not.mp hhrp
  subst hhrp
  obtain ⟨tail, htl, htlen, -⟩ := hL.encode_shape c.pre ds
  have hprint := hL.decode_printable _ _ hsome
  have hshort := hL.decode_length _ _ hsome
  obtain ⟨hpos, hpre⟩ := hL.decode_prefix _ _ _ _ hsome
  have hlen' : (c.bech32.encode c.pre ds).length = c.pre.length + 1 + tail.length := by
    rw [← String.length_toList, htl]
    simp only [List.length_append, List.length_cons, String.length_toList]
    omega
  rw [Text.toLower_toList_of_lt fun ch hch => by have := hprint ch hch; omega, htl,
    List.map_append] at hpre
  have hfixed : c.pre.toList = c.pre.toList.map Char.toLower :=
    (List.prefix_of_prefix_length_le hpre (List.prefix_append _ _) (by simp)).eq_of_length
      (by simp)
  have hself : ∀ ch ∈ c.pre.toList, ch.toLower = ch :=
    List.map_inj_left.mp ((List.map_id _).trans hfixed).symm
  simp only [Bech32.validPrefix, Bech32.PrefixChar, Bool.and_eq_true, decide_eq_true_eq,
    List.all_eq_true, Bool.not_eq_true']
  refine ⟨⟨hpos, by omega⟩, fun ch hch => ⟨hprint ch (by rw [htl]; exact List.mem_append_left _ hch), ?_⟩⟩
  by_contra hup
  have hup : 65 ≤ ch.toNat ∧ ch.toNat ≤ 90 := Text.isUpper_iff.mp (by simpa using hup)
  have hlow := Text.toNat_toLower_of_upper hup
  rw [hself ch hch] at hlow
  omega

/-- Over a bech32 layer that behaves as BIP 350 says, exactly the prefixes of one to 31
printable ASCII characters without capitals give addresses that read back to the 32-byte hash
they were made from. -/
theorem address_round_trip_iff (c : AddressCodec) (hL : c.bech32.Bip350) (ph : List UInt8)
    (hph : ph.length = 32) :
    (∃ a, c.encode ph = .ok a ∧ c.decode a = .ok ph ∧ c.tryDecode a = some ph) ↔
      Bech32.validPrefix c.pre = true := by
  constructor
  · rintro ⟨a, henc, hdec, -⟩
    exact validPrefix_of_round_trip hL hph henc hdec
  · intro hp
    exact round_trip_of_validPrefix hL hp hph

theorem address_round_trip_iff_xch :
    Bech32.reference.Bip350 ∧ (List.replicate 32 (0 : UInt8)).length = 32 ∧
      ((∃ a, ({ pre := "xch" } : AddressCodec).encode (List.replicate 32 0) = .ok a ∧
        ({ pre := "xch" } : AddressCodec).decode a = .ok (List.replicate 32 0) ∧
        ({ pre := "xch" } : AddressCodec).tryDecode a = some (List.replicate 32 0)) ↔
        Bech32.validPrefix "xch" = true) :=
  ⟨Bech32.reference_bip350, rfl, address_round_trip_iff { pre := "xch" } Bech32.reference_bip350 _ rfl⟩

/-- Under the prefix XCH, in capitals, an address does not read back. -/
theorem capital_prefix_breaks_round_trip :
    ¬ ∃ a, ({ pre := "XCH" } : AddressCodec).encode (List.replicate 32 0) = .ok a ∧
      ({ pre := "XCH" } : AddressCodec).decode a = .ok (List.replicate 32 0) := by
  rintro ⟨a, henc, hdec⟩
  have hvalid := validPrefix_of_round_trip Bech32.reference_bip350 rfl henc hdec
  exact absurd hvalid (by decide)

end AddressCodec

end PuzzleKit
