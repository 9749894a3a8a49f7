import PuzzleKit.Proofs.FieldCodec

/-!
# The state codec

A schema that `make` accepts declares each of its names once (`StateSchema.make_ok`). A state
is completed to every field (`StateSchema.complete_run`), its unknown keys dropped and its
missing fields set to their zeros, and encoded field by field; its code decodes to the zeros
updated with the state (`StateSchema.decode_encode_state`). A strict schema refuses a state
with a key failure exactly when the state has a key that is no field or leaves a field out
(`StateSchema.encode_missingKey_iff`).

A field the state leaves out is named in a warning, which joins the names as text: a schema
with a name that is not text fails there, for a non-strict schema too.
-/

namespace PuzzleKit.StateSchema

theorem foldl_keep_length {α : Type} (L : List (Value × α)) (acc : List Value) :
    (L.foldl (fun acc p => if acc.any (Value.itemEq p.1) then acc else acc ++ [p.1]) acc).length ≤
      acc.length + L.length := by
  induction L generalizing acc with
  | nil => simp
  | cons p L ih =>
    rw [List.foldl_cons]
    split
    · have := ih acc; simp only [List.length_cons]; omega
    · have := ih (acc ++ [p.1]); simp only [List.length_cons, List.length_append, List.length_nil] at this ⊢; omega

theorem foldl_dictSet_eq_map : ∀ {values acc : List (Value × Value)},
    (∀ p ∈ values, (acc.any fun q => Value.itemEq p.1 q.1) = true) →
    values.foldl (fun acc p => Value.dictSet acc p.1 p.2) acc =
      acc.map fun q => (((values.reverse.find? fun p => Value.itemEq p.1 q.1).map
        fun p => (q.1, p.2)).getD q)
  | [], acc, _ => by simp
  | p :: ps, acc, h => by
    have hp : (acc.any fun q => Value.itemEq p.1 q.1) = true := h p List.mem_cons_self
    have hset : Value.dictSet acc p.1 p.2 =
        acc.map fun q => if Value.itemEq p.1 q.1 then (q.1, p.2) else q := by
      simp only [Value.dictSet, hp, if_true]
    have hkeys : (Value.dictSet acc p.1 p.2).map (·.1) = acc.map (·.1) := by
      rw [hset, List.map_map]
      congr 1
      funext q
      simp only [Function.comp]
      split <;> rfl
    have h' : ∀ p' ∈ ps, ((Value.dictSet acc p.1 p.2).any fun q => Value.itemEq p'.1 q.1) = true := by
      intro p' hp'
      have := h p' (List.mem_cons_of_mem _ hp')
      have hany : ∀ L : List (Value × Value),
          (L.any fun q => Value.itemEq p'.1 q.1) = (L.map (·.1)).any (Value.itemEq p'.1) :=
        fun L => by rw [List.any_map]; rfl
      rw [hany, hkeys, ← hany]
      exact this
    rw [List.foldl_cons, foldl_dictSet_eq_map h', hset, List.map_map]
    congr 1
    funext q
    simp only [Function.comp, List.reverse_cons, List.find?_append]
    cases hf : ps.reverse.find? (fun p => Value.itemEq p.1 q.1) with
    | some r =>
      split <;> simp [hf]
    | none =>
      split <;> simp [*]

theorem pairwise_of_foldl_keep_length {α : Type} : ∀ (L : List (Value × α)) (acc : List Value),
    (L.foldl (fun acc p => if acc.any (Value.itemEq p.1) then acc else acc ++ [p.1]) acc).length =
      acc.length + L.length →
    (∀ p ∈ L, ∀ a ∈ acc, Value.itemEq p.1 a = false) ∧
      L.Pairwise (fun a b => Value.itemEq b.1 a.1 = false)
  | [], _, _ => by simp
  | p :: L, acc, h => by
    rw [List.foldl_cons] at h
    by_cases hp : acc.any (Value.itemEq p.1) = true
    · -- a name that is dropped leaves the count short
      rw [if_pos hp] at h
      have := foldl_keep_length L acc
      simp only [List.length_cons] at h
      omega
    · rw [if_neg hp] at h
      have h' : (L.foldl (fun acc p => if acc.any (Value.itemEq p.1) then acc else acc ++ [p.1])
          (acc ++ [p.1])).length = (acc ++ [p.1]).length + L.length := by
        rw [h, List.length_append, List.length_cons, List.length_singleton]
        omega
      obtain ⟨hfresh, hpair⟩ := pairwise_of_foldl_keep_length L (acc ++ [p.1]) h'
      refine ⟨?_, List.pairwise_cons.mpr ⟨fun q hq => hfresh q hq p.1 (by simp), hpair⟩⟩
      intro q hq a ha
      rcases List.mem_cons.mp hq with rfl | hq
      · simpa using fun h => hp (List.any_eq_true.mpr ⟨a, ha, h⟩)
      · exact hfresh q hq a (List.mem_append_left _ ha)

theorem forall₂_of_mapM_eq_ok {α β ε : Type} {f : α → Except ε β} :
    ∀ {xs : List α} {ys : List β}, xs.mapM f = .ok ys → List.Forall₂ (fun x y => f x = .ok y) xs ys
  | [], ys, h => by
    cases h
    exact .nil
  | x :: xs, ys, h => by
    rw [List.mapM_cons] at h
    obtain ⟨y, hy, h⟩ := Script.except_bind_ok h
    obtain ⟨ys', hys, h⟩ := Script.except_bind_ok h
    cases h
    exact .cons hy (forall₂_of_mapM_eq_ok hys)

theorem map_fst_eq_of_forall₂ {α β γ : Type} :
    ∀ {xs : List (α × β)} {ys : List (α × γ)}, List.Forall₂ (fun x y => y.1 = x.1) xs ys →
      ys.map (·.1) = xs.map (·.1)
  | [], [], .nil => rfl
  | _ :: _, _ :: _, .cons h hs => by rw [List.map_cons, List.map_cons, h, map_fst_eq_of_forall₂ hs]

/-- What `make` accepts: the schema keeps its fields and strictness, gives each field a type in
order, and no name matches a name before it. -/
theorem make_ok {fields : List (Value × String)} {strict : Bool} {s : StateSchema}
    (h : make fields strict = .ok s) :
    s.fields = fields ∧ s.strict = strict ∧ s.types.map (·.1) = s.names ∧
      s.types.Pairwise (fun a b => Value.itemEq b.1 a.1 = false) ∧
      ∀ n ∈ s.names, n.hashable = true := by
  unfold make at h
  obtain ⟨types, htypes, h⟩ := Script.except_bind_ok h
  have hf : List.Forall₂ (fun x y => x.1.hashable = true ∧ y.1 = x.1) fields types := by
    refine (forall₂_of_mapM_eq_ok htypes).imp fun x y hxy => ?_
    obtain ⟨ft, -, hxy⟩ := Script.except_bind_ok hxy
    obtain ⟨k, hk, hxy⟩ := Script.except_bind_ok hxy
    cases hxy
    unfold Value.asKey at hk
    split at hk
    · cases hk; exact ⟨‹_›, rfl⟩
    · cases hk
  obtain ⟨hkeys, hf⟩ := (List.forall₂_and_left _ _).mp hf
  have hnames : types.map (·.1) = fields.map (·.1) := map_fst_eq_of_forall₂ hf
  have hkeys : ∀ n ∈ fields.map (·.1), n.hashable = true := by
    intro n hn
    obtain ⟨x, hx, rfl⟩ := List.mem_map.mp hn
    exact hkeys x hx
  simp only at h
  split at h
  · cases h
  · next hlen =>
    cases h
    have hcount : (types.foldl (fun acc p => if acc.any (Value.itemEq p.1) then acc else acc ++ [p.1])
        []).length = ([] : List Value).length + types.length := by
      simpa [hf.length_eq] using hlen
    exact ⟨rfl, rfl, hnames, (pairwise_of_foldl_keep_length types [] hcount).2, hkeys⟩

theorem joinTexts_ok {ns : List Value} (h : ∀ n ∈ ns, ∃ t, n = .str t) :
    ∃ txt, Value.joinTexts ns = .ok txt := by
  have hjoin : ∀ {F : Value × Nat → Except Failure String}, (∀ x ∈ ns.zipIdx, ∃ y, F x = .ok y) →
      ∃ txt, (ns.zipIdx.mapM F >>= fun texts => pure (", ".intercalate texts)) = .ok txt := by
    intro F hF
    obtain ⟨texts, htexts, -⟩ := FieldType.mapM_eq_ok_forall₂ (P := fun _ _ => True) _
      (fun x hx => (hF x hx).imp fun _ hy => ⟨hy, trivial⟩)
    exact ⟨_, by rw [htexts]; rfl⟩
  apply hjoin
  rintro ⟨v, i⟩ hx
  obtain ⟨t, rfl⟩ := h v (List.fst_mem_of_mem_zipIdx hx)
  exact ⟨t, rfl⟩

theorem any_defaults_of_isField {s : StateSchema} (htypes : s.types.map (·.1) = s.names)
    {k : Value} (h : s.isField k = true) : (s.defaults.any fun q => Value.itemEq k q.1) = true := by
  have hdef : s.defaults.map (·.1) = s.names := by
    rw [← htypes, defaults, List.map_map]
    rfl
  have hany : (s.defaults.any fun q => Value.itemEq k q.1) = (s.defaults.map (·.1)).any (Value.itemEq k) := by
    rw [List.any_map]; rfl
  rw [hany, hdef]
  exact h

/-- Completing a state whose keys are all fields succeeds, when every field it leaves out may be
left out, and gives the zeros updated with the state. -/
theorem complete_run {s : StateSchema} {values : List (Value × Value)} (ws : List String)
    (htypes : s.types.map (·.1) = s.names)
    (hkeys : ∀ p ∈ values, s.isField p.1 = true)
    (hmissing : ∀ n ∈ s.names, (values.any fun p => Value.itemEq p.1 n) = false →
      s.strict = false ∧ ∃ t, n = .str t) :
    ∃ ws', (s.complete values).run ws =
      .ok (values.foldl (fun acc p => Value.dictSet acc p.1 p.2) s.defaults) ws' := by
  unfold complete
  rw [List.filter_eq_nil_iff.mpr (fun p hp => by simp [hkeys p hp])]
  generalize hmiss : List.filter _ s.names = missing
  rw [foldl_dictSet_eq_map (fun p hp => any_defaults_of_isField htypes (hkeys p hp))]
  cases missing with
  | nil =>
    refine ⟨ws, ?_⟩
    simp only [List.map_nil, List.isEmpty_nil, Bool.not_true, Bool.or_false, Bool.and_false,
      Bool.false_eq_true, if_false]
    show EStateM.Result.ok _ ws = _
    congr 1
    refine List.map_congr_left (fun q _ => ?_)
    cases hf : List.find? (fun p => Value.itemEq p.1 q.1) values.reverse with
    | none => simp
    | some p => simp
  | cons n ns =>
    have hmem : ∀ m ∈ n :: ns, s.strict = false ∧ ∃ t, m = .str t := by
      intro m hm
      rw [← hmiss, List.mem_filter] at hm
      exact hmissing m hm.1 (by simpa using hm.2)
    obtain ⟨txt, htxt⟩ := joinTexts_ok (fun m hm => (hmem m hm).2)
    have hstrict := (hmem n List.mem_cons_self).1
    refine ⟨ws ++ ["defaulting state fields " ++ txt ++ " to zero"], ?_⟩
    simp only [List.map_nil, List.isEmpty_nil, List.isEmpty_cons, Bool.not_true, Bool.not_false,
      Bool.or_true, hstrict, Bool.false_and, Bool.false_eq_true, if_false, if_true, htxt]
    show EStateM.Result.ok _ (ws ++ ["defaulting state fields " ++ txt ++ " to zero"]) = _
    congr 1
    refine List.map_congr_left (fun q _ => ?_)
    cases hf : List.find? (fun p => Value.itemEq p.1 q.1) values.reverse <;> simp

theorem find?_of_pairwise {α : Type} : ∀ {L : List (Value × α)} {n : Value} {t : α},
    L.Pairwise (fun a b => Value.itemEq b.1 a.1 = false) → (n, t) ∈ L → Value.itemEq n n = true →
    L.find? (fun q => Value.itemEq n q.1) = some (n, t)
  | q :: L, n, t, hpair, hmem, hself => by
    rw [List.pairwise_cons] at hpair
    rcases List.mem_cons.mp hmem with rfl | hmem
    · simp [hself]
    · -- a later entry matches no earlier one, so the search passes the head
      have hq : Value.itemEq n q.1 = false := hpair.1 (n, t) hmem
      rw [List.find?_cons, hq]
      exact find?_of_pairwise hpair.2 hmem hself

theorem typeOf_of_mem {s : StateSchema}
    (hpair : s.types.Pairwise (fun a b => Value.itemEq b.1 a.1 = false))
    {n : Value} {t : FieldType} (hmem : (n, t) ∈ s.types) (hself : Value.itemEq n n = true) :
    s.typeOf n = t := by
  simp [typeOf, find?_of_pairwise hpair hmem hself]

theorem mapM_zip_eq_ok {α β γ δ ε : Type} {f : α × β → Except ε γ} {g : α → γ} {tr : δ → β} :
    ∀ {xs : List α} {ys : List δ}, List.Forall₂ (fun x y => f (x, tr y) = .ok (g x)) xs ys →
      (xs.zip (ys.map tr)).mapM f = .ok (xs.map g)
  | [], [], .nil => rfl
  | _ :: _, _ :: _, .cons h hs => by
    rw [List.map_cons, List.zip_cons_cons, List.mapM_cons, h, FieldType.ok_bind,
      mapM_zip_eq_ok hs]
    rfl

/-- A state whose keys are fields and whose values fit their types encodes, when every field it
leaves out may be left out, and its code decodes to the zeros updated with the state. -/
theorem decode_encode_state {fields : List (Value × String)} {strict : Bool} {s : StateSchema}
    (hs : make fields strict = .ok s) {values : List (Value × Value)}
    (hkeys : ∀ p ∈ values, s.isField p.1 = true)
    (htype : ∀ p ∈ values, ∀ n ∈ s.names, Value.itemEq p.1 n = true → (s.typeOf n).fits p.2 = true)
    (hmissing : ∀ n ∈ s.names, (values.any fun p => Value.itemEq p.1 n) = false →
      strict = false ∧ ∃ t, n = .str t)
    (ws : List String) :
    ∃ el ws', (s.encode values).run ws = .ok el ws' ∧
      s.decode el.tree = .ok (values.foldl (fun acc p => Value.dictSet acc p.1 p.2) s.defaults) := by
  obtain ⟨hfields, hstrict, htypes, hpair, hnames⟩ := make_ok hs
  obtain ⟨ws', hrun⟩ := complete_run ws htypes hkeys (by rw [hstrict]; exact hmissing)
  let H : Value × FieldType → Value × Value := fun q =>
    (((values.reverse.find? fun p => Value.itemEq p.1 q.1).map fun p => (q.1, p.2)).getD (q.1, q.2.zero))
  have hfull : values.foldl (fun acc p => Value.dictSet acc p.1 p.2) s.defaults = s.types.map H := by
    rw [foldl_dictSet_eq_map (fun p hp => any_defaults_of_isField htypes (hkeys p hp)), defaults,
      List.map_map]
    rfl
  have hfit : ∀ q ∈ s.types, (H q).1 = q.1 ∧ q.2.fits (H q).2 = true := by
    intro q hq
    have hname : q.1 ∈ s.names := htypes ▸ List.mem_map_of_mem hq
    cases hf : values.reverse.find? (fun p => Value.itemEq p.1 q.1) with
    | none => simp [H, hf, FieldType.fits_zero]
    | some p =>
      have hp : p ∈ values := List.mem_reverse.mp (List.mem_of_find?_eq_some hf)
      have hmatch : Value.itemEq p.1 q.1 = true := by simpa using List.find?_some hf
      have hty : s.typeOf q.1 = q.2 :=
        typeOf_of_mem hpair hq (Value.itemEq_self_of_hashable q.1 (hnames q.1 hname))
      simpa [H, hf, hty] using htype p hp q.1 hname hmatch
  obtain ⟨els, -, hrel⟩ := FieldType.mapM_eq_ok_forall₂
    (f := fun q => q.2.encode (H q).2)
    (P := fun q el => (s.typeOf (H q).1).encode (H q).2 = .ok el ∧
      q.2.decode el.tree = .ok (H q).2 ∧ (H q).1 = q.1) s.types (by
      intro q hq
      obtain ⟨el, henc, hdec⟩ := FieldType.decode_encode q.2 _ (hfit q hq).2
      have hty : s.typeOf q.1 = q.2 := typeOf_of_mem hpair hq
        (Value.itemEq_self_of_hashable q.1 (hnames q.1 (htypes ▸ List.mem_map_of_mem hq)))
      exact ⟨el, henc, by rw [(hfit q hq).1, hty, henc], hdec, (hfit q hq).1⟩)
  have henc : (s.encode values).run ws = .ok (Noted.ofList els) ws' := by
    have hlift : ∀ {F : Value × Value → Except Failure Noted},
        List.Forall₂ (fun x y => F x = .ok y) (s.types.map H) els →
        (Logged.lift (List.mapM F (s.types.map H)) >>= fun els => pure (Noted.ofList els)).run ws' =
          .ok (Noted.ofList els) ws' := by
      intro F hF
      rw [FieldType.mapM_eq_ok_of_forall₂ hF]
      rfl
    unfold encode
    rw [EStateM.run_bind, hrun, hfull]
    apply hlift
    rw [List.forall₂_map_left_iff]
    exact hrel.imp fun q el h => h.1
  refine ⟨_, ws', henc, ?_⟩
  have hlist : (Noted.ofList els).tree.toList? = some (els.map Noted.tree) := by
    simp [Noted.tree_ofList, Noted.nil, Noted.tree]
  have hlen : (els.map Noted.tree).length = s.fields.length := by
    rw [List.length_map, ← hrel.length_eq, ← List.length_map (f := (·.1)), htypes, names,
      List.length_map]
  simp only [decode, hlist, hlen, bne_self_eq_false, Bool.false_eq_true, if_false, hfull]
  apply mapM_zip_eq_ok
  refine hrel.imp fun q el h => ?_
  show (q.2.decode el.tree >>= fun v => pure (q.1, v)) = _
  rw [h.2.1, FieldType.ok_bind]
  exact congrArg Except.ok (Prod.ext h.2.2.symm rfl)

theorem complete_strict_refuses {s : StateSchema} {values : List (Value × Value)} (ws : List String)
    (hstrict : s.strict = true)
    (h : (∃ p ∈ values, s.isField p.1 = false) ∨
      ∃ n ∈ s.names, (values.any fun p => Value.itemEq p.1 n) = false) :
    ∃ e, (s.complete values).run ws = .error e ws ∧ e.kind = .missingKey := by
  unfold complete
  dsimp only
  split
  · exact ⟨_, rfl, rfl⟩
  · rename_i hnot
    simp only [hstrict, Bool.true_and, Bool.or_eq_true, Bool.not_eq_eq_eq_not, Bool.not_true,
      List.isEmpty_eq_false_iff, ne_eq, List.map_eq_nil_iff, List.filter_eq_nil_iff] at hnot
    exfalso
    rcases h with ⟨p, hp, hf⟩ | ⟨n, hn, hf⟩
    · exact hnot (Or.inl fun hnil => by simpa [hf] using hnil p hp)
    · exact hnot (Or.inr fun hnil => by simpa [hf] using hnil n hn)

theorem encode_no_missingKey {s : StateSchema} (htypes : s.types.map (·.1) = s.names)
    {values : List (Value × Value)} (ws : List String)
    (hkeys : ∀ p ∈ values, s.isField p.1 = true)
    (hall : ∀ n ∈ s.names, (values.any fun p => Value.itemEq p.1 n) = true) :
    ∀ e ws', (s.encode values).run ws = .error e ws' → e.kind ≠ .missingKey := by
  obtain ⟨ws₁, hrun⟩ := complete_run ws htypes hkeys (fun n hn h => by simp [hall n hn] at h)
  -- once the state is complete, only the field encoders can fail, and none fails for a key
  have hlift : ∀ {F : Value × Value → Except Failure Noted} (L : List (Value × Value)),
      (∀ q, FieldType.NoKeyFault (F q)) → ∀ e ws',
      (Logged.lift (L.mapM F) >>= fun els => pure (Noted.ofList els)).run ws₁ = .error e ws' →
      e.kind ≠ .missingKey := by
    intro F L hF e ws' h
    cases hm : L.mapM F with
    | ok els => rw [hm] at h; cases h
    | error e' =>
      rw [hm] at h
      cases h
      exact FieldType.noKeyFault_mapM hF L _ hm
  intro e ws' henc
  unfold encode at henc
  rw [EStateM.run_bind, hrun] at henc
  exact hlift _ (fun ⟨n, v⟩ => FieldType.noKeyFault_encode _ v) e ws' henc

/-- A strict schema fails to encode a state for a key exactly when a key of the state is no field
or the state leaves a field out. -/
theorem encode_missingKey_iff {s : StateSchema} (htypes : s.types.map (·.1) = s.names)
    (hstrict : s.strict = true) (values : List (Value × Value)) (ws : List String) :
    (∃ e ws', (s.encode values).run ws = .error e ws' ∧ e.kind = .missingKey) ↔
      (∃ p ∈ values, s.isField p.1 = false) ∨
        ∃ n ∈ s.names, (values.any fun p => Value.itemEq p.1 n) = false := by
  constructor
  · rintro ⟨e, ws', henc, hkind⟩
    by_contra hnone
    simp only [not_or, not_exists, not_and, Bool.not_eq_false] at hnone
    exact encode_no_missingKey htypes ws hnone.1 hnone.2 e ws' henc hkind
  · intro h
    obtain ⟨e, hrun, hkind⟩ := complete_strict_refuses ws hstrict h
    refine ⟨e, ws, ?_, hkind⟩
    unfold encode
    rw [EStateM.run_bind, hrun]

/-- The state codec round-trips. For a schema that `make` accepts, so that its names are keys
all the way down: a state whose keys are fields and whose values fit their fields' types encodes, and
its code decodes to the zeros updated with the state, when every field it leaves out has a
text name and the schema is not strict; and a strict schema refuses a state with a key failure
exactly when one of its keys is no field or it leaves a field out. -/
theorem state_codec_round_trip {fields : List (Value × String)} {strict : Bool} {s : StateSchema}
    (hs : make fields strict = .ok s) :
    (∀ (values : List (Value × Value)) (ws : List String),
      (∀ p ∈ values, s.isField p.1 = true) →
      (∀ p ∈ values, ∀ n ∈ s.names, Value.itemEq p.1 n = true → (s.typeOf n).fits p.2 = true) →
      (∀ n ∈ s.names, (values.any fun p => Value.itemEq p.1 n) = false →
        strict = false ∧ ∃ t, n = .str t) →
      ∃ el ws', (s.encode values).run ws = .ok el ws' ∧
        s.decode el.tree = .ok (values.foldl (fun acc p => Value.dictSet acc p.1 p.2) s.defaults)) ∧
    (strict = true → ∀ (values : List (Value × Value)) (ws : List String),
      (∃ e ws', (s.encode values).run ws = .error e ws' ∧ e.kind = .missingKey) ↔
        (∃ p ∈ values, s.isField p.1 = false) ∨
          ∃ n ∈ s.names, (values.any fun p => Value.itemEq p.1 n) = false) := by
  obtain ⟨-, hstrict, htypes, -⟩ := make_ok hs
  refine ⟨fun values ws hkeys htype hmissing => decode_encode_state hs hkeys htype hmissing ws,
    fun h values ws => encode_missingKey_iff htypes (hstrict.trans h) values ws⟩

/-- The state of a gate: whether it is open, and the addresses it allows, in a schema that is
not strict. -/
def gateFields : List (Value × String) :=
  [(.str "open", "bool"), (.str "allowed", "mapping(address => bool)")]

theorem state_codec_round_trip_gate :
    ∃ s el ws', make gateFields = .ok s ∧
      (s.encode [(.str "allowed", .dict [(.bytes (List.replicate 32 17), .bool true)])]).run [] =
        .ok el ws' ∧
      s.decode el.tree = .ok [(.str "open", .bool false),
        (.str "allowed", .dict [(.bytes (List.replicate 32 17), .bool true)])] := by
  have hbool : FieldType.parse "bool" = .ok .bool := by
    have h : (FieldType.parse "bool").toOption = some .bool := by decide +kernel
    revert h
    cases FieldType.parse "bool" <;> simp [Except.toOption]
  have hmap : FieldType.parse "mapping(address => bool)" = .ok (.mapping .address .bool) := by
    have h : (FieldType.parse "mapping(address => bool)").toOption = some (.mapping .address .bool) := by
      decide +kernel
    revert h
    cases FieldType.parse "mapping(address => bool)" <;> simp [Except.toOption]
  have hnan : ∀ t : String, (Value.str t).isNaN = false := fun _ => rfl
  have hmake : make gateFields = .ok ⟨gateFields,
      [(.str "open", .bool), (.str "allowed", .mapping .address .bool)], false⟩ := by
    simp only [make, gateFields, List.mapM_cons, List.mapM_nil, hbool, hmap, Value.asKey,
      Value.hashable, ↓reduceIte, bind, Except.bind, pure, Except.pure, List.foldl_cons,
      List.foldl_nil, List.any_nil]
    simp [Value.itemEq, Value.equal, hnan]
  -- the open flag is left out, so it decodes to its zero
  obtain ⟨el, ws', henc, hdec⟩ := (state_codec_round_trip hmake).1
    [(.str "allowed", .dict [(.bytes (List.replicate 32 17), .bool true)])] []
    (by simp [isField, names, gateFields, Value.itemEq, Value.equal, hnan])
    (by simp [names, gateFields, typeOf, Value.itemEq, Value.equal, hnan, FieldType.fits,
      Value.distinctKeys])
    (by
      intro n hn _
      simp only [names, gateFields, List.map_cons, List.map_nil, List.mem_cons, List.not_mem_nil,
        or_false] at hn
      rcases hn with rfl | rfl
      · exact ⟨rfl, _, rfl⟩
      · exact ⟨rfl, _, rfl⟩)
  refine ⟨_, el, ws', hmake, henc, ?_⟩
  simpa [defaults, FieldType.zero, Value.dictSet, Value.itemEq, Value.equal, hnan] using hdec

end PuzzleKit.StateSchema
