import PuzzleKit.Action.State
import PuzzleKit.Proofs.Reading
import PuzzleKit.Proofs.Serialization
import PuzzleKit.Proofs.Meaning
import PuzzleKit.Proofs.Readable
import PuzzleKit.Proofs.ActionNames
import PuzzleKit.Proofs.SignedBytes

/-!
# The field codec

Every state field type encodes each host value that fits it to a code that its decoder reads
back to the same value (`FieldType.decode_encode`): integers through their minimal two's
complement bytes (`Bytes.toInt_ofInt`), mappings entry by entry, in order, their keys distinct
(`Value.dictOf_of_distinct`). No field encoder fails for want of a key
(`FieldType.noKeyFault_encode`): the only key failures of a state's encoding are its schema's.
-/

namespace PuzzleKit.Value

/-- Whether no key among dictionary entries matches a key before it, as the keys of a host
dictionary never do. -/
def distinctKeys : List (Value × Value) → Bool
  | [] => true
  | (k, _) :: rest => rest.all (fun p => !itemEq p.1 k) && distinctKeys rest

theorem dictSet_of_fresh {kvs : List (Value × Value)} {k : Value} (v : Value)
    (h : ∀ q ∈ kvs, itemEq k q.1 = false) : dictSet kvs k v = kvs ++ [(k, v)] := by
  unfold dictSet
  rw [if_neg]
  -- no entry's key equals `k`
  simp only [List.any_eq_true, not_exists, not_and]
  intro q hq
  simp [h q hq]

theorem foldl_dictSet_of_distinct : ∀ {kvs acc : List (Value × Value)},
    distinctKeys kvs = true → (∀ p ∈ kvs, ∀ q ∈ acc, itemEq p.1 q.1 = false) →
    kvs.foldl (fun acc p => dictSet acc p.1 p.2) acc = acc ++ kvs
  | [], acc, _, _ => by simp
  | (k, v) :: rest, acc, hd, hfresh => by
    simp only [distinctKeys, Bool.and_eq_true, List.all_eq_true, Bool.not_eq_true'] at hd
    rw [List.foldl_cons, dictSet_of_fresh v (hfresh (k, v) List.mem_cons_self)]
    rw [foldl_dictSet_of_distinct hd.2, List.append_assoc, List.singleton_append]
    intro p hp q hq
    rcases List.mem_append.mp hq with hq | hq
    · exact hfresh p (List.mem_cons_of_mem _ hp) q hq
    · simp only [List.mem_singleton] at hq
      subst hq
      exact hd.1 p hp

/-- A dictionary of entries with distinct keys keeps every entry in its place. -/
theorem dictOf_of_distinct {kvs : List (Value × Value)} (h : distinctKeys kvs = true) :
    dictOf kvs = kvs :=
  (@foldl_dictSet_of_distinct kvs [] h (by simp)).trans (List.nil_append kvs)

mutual

theorem itemEq_self_of_hashable : ∀ v : Value, v.hashable = true → itemEq v v = true
  | .none, _ => by simp [itemEq, equal]
  | .bool b, _ => by cases b <;> simp [itemEq, equal, isNumber, asInt?]
  | .int i, _ => by simp [itemEq, equal, isNumber, asInt?]
  | .float x, _ => by
    cases x <;> simp [itemEq, equal, isNaN, Text.Binary64.equal]
  | .str s, _ => by simp [itemEq, equal]
  | .bytes b, _ => by simp [itemEq, equal]
  | .tree t, _ => by simp [itemEq, equal, Tree.same_refl]
  | .tuple xs, h => by
    have hs := equalItems_self_of_hashable xs (by simpa [hashable] using h)
    simp [itemEq, equal, hs]
  | .list _, h => by simp [hashable] at h
  | .dict _, h => by simp [hashable] at h

theorem equalItems_self_of_hashable : ∀ xs : List Value, hashableItems xs = true → equalItems xs xs = true
  | [], _ => by simp [equalItems]
  | x :: xs, h => by
    simp only [hashableItems, Bool.and_eq_true] at h
    simp [equalItems, itemEq_self_of_hashable x h.1, equalItems_self_of_hashable xs h.2]

end

end PuzzleKit.Value

namespace PuzzleKit.FieldType

/-- Whether a host value has the shape of a field type: an integer (not negative for an
unsigned type), a truth value, 32 bytes for an address or a hash, bytes, text, or a dictionary
whose keys are distinct and whose keys and values have the mapping's types. -/
def fits : FieldType → Value → Bool
  | .uint, .int i => 0 ≤ i
  | .int, .int _ => true
  | .bool, .bool _ => true
  | .address, .bytes b => b.length == 32
  | .bytes32, .bytes b => b.length == 32
  | .bytes, .bytes _ => true
  | .string, .str _ => true
  | .mapping kt vt, .dict kvs =>
    kvs.all (fun p => kt.fits p.1 && vt.fits p.2) && Value.distinctKeys kvs
  | _, _ => false

theorem ok_bind {ε α β : Type} (a : α) (f : α → Except ε β) : (Except.ok a >>= f) = f a := rfl

theorem mapM_eq_ok_forall₂ {α β ε : Type} {f : α → Except ε β} {P : α → β → Prop} :
    ∀ (xs : List α), (∀ x ∈ xs, ∃ y, f x = .ok y ∧ P x y) →
      ∃ ys, xs.mapM f = .ok ys ∧ List.Forall₂ P xs ys
  | [], _ => ⟨[], rfl, .nil⟩
  | x :: xs, h => by
    obtain ⟨y, hf, hp⟩ := h x List.mem_cons_self
    obtain ⟨ys, hfs, hps⟩ := mapM_eq_ok_forall₂ xs (fun x' hx' => h x' (List.mem_cons_of_mem _ hx'))
    refine ⟨y :: ys, ?_, .cons hp hps⟩
    rw [List.mapM_cons, hf, hfs]
    rfl

theorem mapM_eq_ok_of_forall₂ {α β ε : Type} {f : α → Except ε β} :
    ∀ {xs : List α} {ys : List β}, List.Forall₂ (fun x y => f x = .ok y) xs ys → xs.mapM f = .ok ys
  | [], [], .nil => rfl
  | _ :: _, _ :: _, .cons h hs => by
    rw [List.mapM_cons, h, mapM_eq_ok_of_forall₂ hs]
    rfl

theorem decode_encode : ∀ (t : FieldType) (v : Value), t.fits v = true →
    ∃ el, t.encode v = .ok el ∧ t.decode el.tree = .ok v
  | .uint, v, h => by
    obtain ⟨i, rfl, hi⟩ : ∃ i, v = .int i ∧ 0 ≤ i := by cases v <;> simp_all [fits]
    refine ⟨.atom (Bytes.ofInt i) .int (.own []), ?_, ?_⟩
    · simp [encode, encodeInt]
      omega
    · simp [decode, Noted.tree, Bytes.toInt_ofInt]
  | .int, v, h => by
    obtain ⟨i, rfl⟩ : ∃ i, v = .int i := by cases v <;> simp_all [fits]
    exact ⟨_, rfl, by simp [decode, Noted.tree, Bytes.toInt_ofInt]⟩
  | .bool, v, h => by
    obtain ⟨b, rfl⟩ : ∃ b, v = .bool b := by cases v <;> simp_all [fits]
    cases b <;> exact ⟨_, rfl, rfl⟩
  | .address, v, h => by
    obtain ⟨b, rfl, hb⟩ : ∃ b, v = .bytes b ∧ b.length = 32 := by cases v <;> simp_all [fits]
    exact ⟨.atom b .bytes (.own []), by simp [encode, encodeHash, Value.length, Value.toByteString, hb, ok_bind],
      by simp [decode, Noted.tree, hb]⟩
  | .bytes32, v, h => by
    obtain ⟨b, rfl, hb⟩ : ∃ b, v = .bytes b ∧ b.length = 32 := by cases v <;> simp_all [fits]
    exact ⟨.atom b .bytes (.own []), by simp [encode, encodeHash, Value.length, Value.toByteString, hb, ok_bind],
      by simp [decode, Noted.tree, hb]⟩
  | .bytes, v, h => by
    obtain ⟨b, rfl⟩ : ∃ b, v = .bytes b := by cases v <;> simp_all [fits]
    exact ⟨_, rfl, rfl⟩
  | .string, v, h => by
    obtain ⟨s, rfl⟩ : ∃ s, v = .str s := by cases v <;> simp_all [fits]
    refine ⟨_, rfl, ?_⟩
    show (utf8Text s.toUTF8.toList).map Value.str = _
    rw [Build.utf8Text_toUTF8]
    rfl
  | .mapping kt vt, v, h => by
    obtain ⟨kvs, rfl⟩ : ∃ kvs, v = .dict kvs := by cases v <;> simp_all [fits]
    simp only [fits, Bool.and_eq_true, List.all_eq_true] at h
    obtain ⟨hall, hdist⟩ := h
    obtain ⟨pairs, henc, hpairs⟩ := mapM_eq_ok_forall₂ (f := fun x => do
        let ke ← kt.encode x.1
        let we ← vt.encode x.2
        pure (Noted.cons ke we (.own [])))
      (P := fun (x : Value × Value) (y : Noted) => ∃ ke we, y = .cons ke we (.own []) ∧ kt.decode ke.tree = .ok x.1 ∧
        vt.decode we.tree = .ok x.2) kvs (by
        intro x hx
        obtain ⟨ke, hke, hkd⟩ := decode_encode kt x.1 (hall x hx).1
        obtain ⟨we, hwe, hwd⟩ := decode_encode vt x.2 (hall x hx).2
        refine ⟨.cons ke we (.own []), ?_, ke, we, rfl, hkd, hwd⟩
        rw [hke, ok_bind, hwe]
        rfl)
    refine ⟨Noted.ofList pairs, ?_, ?_⟩
    · simp only [encode, entries]
      rw [ok_bind, henc]
      rfl
    · have hlist : (Noted.ofList pairs).tree.toList? = some (pairs.map Noted.tree) := by
        simp [Noted.tree_ofList, Noted.nil, Noted.tree]
      simp only [decode, hlist, Option.elim]
      rw [ok_bind, @mapM_eq_ok_of_forall₂ _ _ _ _ _ kvs ?_, ok_bind, Value.dictOf_of_distinct hdist]
      · rfl
      · rw [List.forall₂_map_left_iff]
        refine hpairs.flip.imp ?_
        rintro y x ⟨ke, we, rfl, hkd, hwd⟩
        simp only [Noted.tree, hwd, ok_bind, hkd]
        rfl

theorem fits_zero : ∀ t : FieldType, t.fits t.zero = true
  | .uint | .int | .bool | .address | .bytes32 | .bytes | .string => rfl
  | .mapping _ _ => rfl

/-! ## Key failures

A state's encoding fails with a key failure only where its schema refuses the state: the
field encoders fail on values of the wrong shape, never for a key. -/

/-- A computation that never fails for want of a key. -/
def NoKeyFault {α : Type} (x : Except Failure α) : Prop := ∀ e, x = .error e → e.kind ≠ .missingKey

theorem noKeyFault_ok {α : Type} (a : α) : NoKeyFault (.ok a) := fun _ h => by cases h

theorem noKeyFault_error {α : Type} {e : Failure} (h : e.kind ≠ .missingKey) :
    NoKeyFault (.error e : Except Failure α) := fun _ he => by cases he; exact h

theorem noKeyFault_bind {α β : Type} {x : Except Failure α} {f : α → Except Failure β}
    (hx : NoKeyFault x) (hf : ∀ a, NoKeyFault (f a)) : NoKeyFault (x >>= f) := by
  intro e he
  cases hxa : x with
  | error e' =>
    rw [hxa] at he
    cases he
    exact hx e hxa
  | ok a =>
    rw [hxa] at he
    exact hf a e he

theorem noKeyFault_mapM {α β : Type} {f : α → Except Failure β} (hf : ∀ a, NoKeyFault (f a)) :
    ∀ xs : List α, NoKeyFault (xs.mapM f)
  | [] => noKeyFault_ok _
  | x :: xs => by
    rw [List.mapM_cons]
    exact noKeyFault_bind (hf x) fun _ => noKeyFault_bind (noKeyFault_mapM hf xs) fun _ => noKeyFault_ok _

theorem noKeyFault_map {α β : Type} {x : Except Failure α} (f : α → β) (hx : NoKeyFault x) :
    NoKeyFault (f <$> x) :=
  noKeyFault_bind hx fun _ => noKeyFault_ok _

theorem noKeyFault_mapError {α ε : Type} {f : ε → Failure} (hf : ∀ x, (f x).kind ≠ .missingKey)
    (y : Except ε α) : NoKeyFault (y.mapError f) := by
  intro e he
  cases y with
  | error x =>
    cases he
    exact hf x
  | ok a => cases he

theorem noKeyFault_toByteString (v : Value) : NoKeyFault v.toByteString := by
  have hbyte : ∀ x : Value, NoKeyFault x.byteOf := by
    intro x
    unfold Value.byteOf
    split
    · split
      · exact noKeyFault_ok _
      · exact noKeyFault_error (by simp [Failure.value])
    · exact noKeyFault_error (by simp [Failure.type])
  unfold Value.toByteString
  split
  · exact noKeyFault_ok _
  · exact noKeyFault_ok _
  · split
    · exact noKeyFault_error (by simp [Failure.value])
    · exact noKeyFault_ok _
  · exact noKeyFault_error (by simp [Failure.type])
  · exact noKeyFault_mapM hbyte _
  · exact noKeyFault_mapM hbyte _
  · exact noKeyFault_mapM (fun (p : Value × Value) => hbyte p.1) _
  · exact noKeyFault_error (by simp [Failure.type])

theorem noKeyFault_encodeInt (unsigned : Bool) (v : Value) : NoKeyFault (encodeInt unsigned v) := by
  unfold encodeInt
  split
  · split
    · exact noKeyFault_error (by simp [Failure.value])
    · exact noKeyFault_ok _
  · exact noKeyFault_error (by simp [Failure.value])

theorem noKeyFault_length (v : Value) : NoKeyFault v.length := by
  unfold Value.length
  split <;> first | exact noKeyFault_ok _ | exact noKeyFault_error (by simp [Failure.type])

theorem noKeyFault_encodeHash (t : FieldType) (v : Value) : NoKeyFault (encodeHash t v) := by
  -- once the bytes are chosen, only their length and the bytes themselves can fail
  have hrest : ∀ v' : Value, NoKeyFault (do
      let n ← v'.length
      if (n != 32) = true then throw t.wrongSize
      return Noted.atom (← v'.toByteString) .bytes (.own [])) := by
    intro v'
    have hbytes : NoKeyFault (do
        let b ← v'.toByteString
        pure (Noted.atom b .bytes (.own []))) :=
      noKeyFault_bind (noKeyFault_toByteString v') fun _ => noKeyFault_ok _
    refine noKeyFault_bind (noKeyFault_length v') fun n => ?_
    split
    · exact noKeyFault_bind (noKeyFault_error (by simp [wrongSize, Failure.value])) fun _ => hbytes
    · exact hbytes
  unfold encodeHash
  split
  · refine noKeyFault_bind (noKeyFault_map _ (noKeyFault_mapError ?_ _)) hrest
    intro i
    simp [Failure.badHex, Failure.value]
  · exact noKeyFault_bind (noKeyFault_ok _) hrest

theorem noKeyFault_asKey (v : Value) : NoKeyFault v.asKey := by
  unfold Value.asKey
  split
  · exact noKeyFault_ok _
  · exact noKeyFault_error (by simp [Value.unhashable, Failure.type])

theorem noKeyFault_entries (v : Value) : NoKeyFault (entries v) := by
  unfold entries
  split
  · exact noKeyFault_ok _
  · refine noKeyFault_bind ?_ fun xs => noKeyFault_map _ (noKeyFault_mapM (fun x => ?_) _)
    · unfold Value.iterate
      split
      · exact noKeyFault_ok _
      · exact noKeyFault_error (by simp [Failure.type])
    · obtain ⟨x, i⟩ := x
      dsimp only
      split
      · exact noKeyFault_bind (noKeyFault_asKey _) fun _ => noKeyFault_ok _
      · exact noKeyFault_error (by simp [Failure.value])
      · exact noKeyFault_error (by simp [Failure.type])

theorem noKeyFault_encode : ∀ (t : FieldType) (v : Value), NoKeyFault (t.encode v)
  | .uint, v => noKeyFault_encodeInt _ v
  | .int, v => noKeyFault_encodeInt _ v
  | .bool, v => noKeyFault_ok _
  | .address, v => noKeyFault_encodeHash _ v
  | .bytes32, v => noKeyFault_encodeHash _ v
  | .bytes, v => noKeyFault_map _ (noKeyFault_toByteString v)
  | .string, v => by
    refine noKeyFault_bind ?_ fun _ => noKeyFault_ok _
    unfold Value.utf8Text
    split
    · exact noKeyFault_ok _
    · exact noKeyFault_error (by simp)
  | .mapping kt vt, v => by
    refine noKeyFault_bind (noKeyFault_entries v) fun kvs => ?_
    refine noKeyFault_bind (noKeyFault_mapM (fun x => ?_) kvs) fun _ => noKeyFault_ok _
    exact noKeyFault_bind (noKeyFault_encode kt x.1) fun _ =>
      noKeyFault_bind (noKeyFault_encode vt x.2) fun _ => noKeyFault_ok _

end PuzzleKit.FieldType
