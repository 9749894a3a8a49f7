import PuzzleKit.Proofs.Meaning
import PuzzleKit.Proofs.FieldCodec
import PuzzleKit.Script.Generate

/-!
# The mapping helpers against the mapping codec

A state mapping is encoded as the list of its `(key . value)` pairs in insertion order. The
generated helpers walk that list: `mapping_get` gives the value stored under a key, or nil,
and `mapping_set` replaces the value of a matching key in place or appends a new pair at the
end. Read with the meaning of `f`, `r`, `c`, `=`, `if` and `list`, they agree with the host
dictionary: setting a key and encoding gives what `mapping_set` gives on the codes
(`evaluates_mappingSet`), and `mapping_get` gives the code of the value the dictionary holds
(`evaluates_mappingGet`).

The helpers compare keys by `=`, byte equality of atoms. Keys of a mapping are scalars, each
encoded as an atom that its decoder reads back, so two keys that fit the type have equal bytes
exactly when the dictionary takes them for the same key (`keyBytes_eq_iff`).
-/

namespace PuzzleKit

open Build

namespace FieldType

/-- Whether a type is encoded as one atom: every type but a mapping. -/
def scalar : FieldType → Bool
  | .mapping _ _ => false
  | _ => true

theorem scalar_of_ofSimpleName? {s : String} {t : FieldType} (h : ofSimpleName? s = some t) :
    t.scalar = true := by
  unfold ofSimpleName? at h
  split at h
  · cases h; split <;> rfl
  · split at h <;> cases h <;> rfl

theorem parse_mapping_scalar {text : String} {kt vt : FieldType}
    (h : parse text = .ok (.mapping kt vt)) : kt.scalar = true ∧ vt.scalar = true := by
  unfold parse at h
  dsimp only at h
  cases hp : mappingParts? (Text.trim text) with
  | none =>
    rw [hp] at h
    cases hs : ofSimpleName? (Text.trim text) <;> rw [hs] at h <;> cases h
    exact absurd (scalar_of_ofSimpleName? hs) (by simp [scalar])
  | some kv =>
    rw [hp] at h
    cases hk : ofSimpleName? kv.1 <;> cases hv : ofSimpleName? kv.2 <;>
      simp only [hk, hv, Option.elim, bind, Except.bind, pure, Except.pure] at h <;> cases h
    exact ⟨scalar_of_ofSimpleName? hk, scalar_of_ofSimpleName? hv⟩

section Codec

variable {kt vt : FieldType}

theorem encode_dict_nil : (mapping kt vt).encode (.dict []) = .ok Noted.nil := rfl

theorem encode_dict_cons {k w : Value} {rest : List (Value × Value)} {ek ew er : Noted}
    (hk : kt.encode k = .ok ek) (hw : vt.encode w = .ok ew)
    (hr : (mapping kt vt).encode (.dict rest) = .ok er) :
    (mapping kt vt).encode (.dict ((k, w) :: rest)) =
      .ok (.cons (.cons ek ew (.own [])) er (.own [])) := by
  simp only [encode, entries, bind, Except.bind, pure, Except.pure] at hr ⊢
  split at hr
  · cases hr
  · rename_i pairs hpairs
    cases hr
    simp only [List.mapM_cons, hk, hw, hpairs, bind, Except.bind, pure, Except.pure]
    rfl

theorem encode_scalar {t : FieldType} (hs : t.scalar = true) {a : Value} (ha : t.fits a = true) :
    ∃ ea x h, t.encode a = .ok ea ∧ ea.tree = .atom x h := by
  obtain ⟨ea, he, hd⟩ := decode_encode t a ha
  cases hea : ea.tree with
  | atom x h => exact ⟨ea, x, h, he, hea⟩
  | cons f r => cases t <;> simp_all [scalar, decode]

theorem decode_atom_hint (t : FieldType) (x : List UInt8) (h h' : Hint) :
    t.decode (.atom x h) = t.decode (.atom x h') := by
  cases t <;> rfl

theorem itemEq_iff_of_fits {t : FieldType} (hs : t.scalar = true) {a b : Value}
    (ha : t.fits a = true) (hb : t.fits b = true) : Value.itemEq a b = true ↔ a = b := by
  cases t <;> cases a <;> cases b <;> simp only [scalar, fits, Bool.false_eq_true] at hs ha hb <;>
    simp [Value.itemEq, Value.equal, Value.isNumber, Value.asInt?, Value.isNaN] <;> grind

/-- The codes of two values that fit a scalar type have the same bytes exactly when the values
are the same. -/
theorem keyBytes_eq_iff {t : FieldType} {a b : Value} {ea eb : Noted}
    {x y : List UInt8} {hx hy : Hint} (ha : t.fits a = true) (hb : t.fits b = true)
    (hea : t.encode a = .ok ea) (heb : t.encode b = .ok eb) (htx : ea.tree = .atom x hx)
    (hty : eb.tree = .atom y hy) : x = y ↔ a = b := by
  obtain ⟨ea', hea', hda⟩ := decode_encode t a ha
  obtain ⟨eb', heb', hdb⟩ := decode_encode t b hb
  rw [hea'] at hea
  rw [heb'] at heb
  cases hea
  cases heb
  rw [htx] at hda
  rw [hty] at hdb
  constructor
  · intro hxy
    rw [hxy, decode_atom_hint t y hx hy, hdb] at hda
    cases hda
    rfl
  · rintro rfl
    rw [hea'] at heb'
    cases heb'
    rw [htx] at hty
    cases hty
    rfl

theorem fits_dict_cons {k w : Value} {rest : List (Value × Value)}
    (h : (mapping kt vt).fits (.dict ((k, w) :: rest)) = true) :
    kt.fits k = true ∧ vt.fits w = true ∧ (mapping kt vt).fits (.dict rest) = true ∧
      ∀ q ∈ rest, Value.itemEq q.1 k = false := by
  simp only [fits, List.all_cons, Value.distinctKeys, Bool.and_eq_true, List.all_eq_true,
    Bool.not_eq_true'] at h
  obtain ⟨⟨⟨hk, hw⟩, hall⟩, hfresh, hdist⟩ := h
  refine ⟨hk, hw, ?_, hfresh⟩
  simp only [fits, Bool.and_eq_true, List.all_eq_true]
  exact ⟨hall, hdist⟩

theorem keyBytes_beq {t : FieldType} (hs : t.scalar = true) {a b : Value} {ea eb : Noted}
    {x y : List UInt8} {hx hy : Hint} (ha : t.fits a = true) (hb : t.fits b = true)
    (hea : t.encode a = .ok ea) (heb : t.encode b = .ok eb) (htx : ea.tree = .atom x hx)
    (hty : eb.tree = .atom y hy) : (x == y) = Value.itemEq b a := by
  rw [Bool.eq_iff_iff, beq_iff_eq, itemEq_iff_of_fits hs hb ha, keyBytes_eq_iff ha hb hea heb htx hty,
    eq_comm]

theorem fits_dict_mem {d : List (Value × Value)} (h : (mapping kt vt).fits (.dict d) = true)
    {q : Value × Value} (hq : q ∈ d) : kt.fits q.1 = true ∧ vt.fits q.2 = true := by
  simp only [fits, Bool.and_eq_true, List.all_eq_true] at h
  exact h.1 q hq

end Codec

end FieldType

namespace Value

theorem dictSet_cons_match {k k' w v : Value} {rest : List (Value × Value)}
    (h : itemEq k k' = true) (hrest : ∀ q ∈ rest, itemEq k q.1 = false) :
    dictSet ((k', w) :: rest) k v = (k', v) :: rest := by
  unfold dictSet
  rw [if_pos (by simp [h])]
  simp only [List.map_cons, h, ite_true, List.cons.injEq, true_and]
  refine (List.map_congr_left fun q hq => ?_).trans (List.map_id rest)
  obtain ⟨a, b⟩ := q
  simp [hrest _ hq]

theorem dictSet_cons_miss {k k' w v : Value} {rest : List (Value × Value)}
    (h : itemEq k k' = false) :
    dictSet ((k', w) :: rest) k v = (k', w) :: dictSet rest k v := by
  unfold dictSet
  by_cases hr : rest.any (fun q => itemEq k q.1) = true
  · simp [h, hr]
  · simp [h, hr]

theorem lookupIn_cons (k k' w : Value) (rest : List (Value × Value)) :
    lookupIn k ((k', w) :: rest) = if itemEq k k' then some w else lookupIn k rest := by
  rw [lookupIn]

end Value

namespace Meaning

section Operators

variable {defs : List Defun} {env : Env} {x y : Noted}

theorem evaluates_first_op (hd : defs.find? (·.name == "f") = none) {a b : Tree}
    (h : Evaluates defs env x.tree (.cons a b)) : Evaluates defs env (call "f" [x]).tree a :=
  evaluates_call_op (by decide) hd (.cons h .nil) (by simp [applyOp])

theorem evaluates_rest_op (hd : defs.find? (·.name == "r") = none) {a b : Tree}
    (h : Evaluates defs env x.tree (.cons a b)) : Evaluates defs env (call "r" [x]).tree b :=
  evaluates_call_op (by decide) hd (.cons h .nil) (by simp [applyOp])

theorem evaluates_cons_op (hd : defs.find? (·.name == "c") = none) {a b : Tree}
    (hx : Evaluates defs env x.tree a) (hy : Evaluates defs env y.tree b) :
    Evaluates defs env (call "c" [x, y]).tree (.cons a b) :=
  evaluates_call_op (by decide) hd (.cons hx (.cons hy .nil)) (by simp [applyOp])

theorem evaluates_eq_op (hd : defs.find? (·.name == "=") = none) {a b : List UInt8} {ha hb : Hint}
    (hx : Evaluates defs env x.tree (.atom a ha)) (hy : Evaluates defs env y.tree (.atom b hb)) :
    Evaluates defs env (call "=" [x, y]).tree (truth (a == b)) :=
  evaluates_call_op (by decide) hd (.cons hx (.cons hy .nil)) (by simp [applyOp])

theorem evaluates_list_op (hd : defs.find? (·.name == "list") = none) {a : Tree}
    (hx : Evaluates defs env x.tree a) :
    Evaluates defs env (call "list" [x]).tree (.cons a (.atom [] .bytes)) :=
  evaluates_call_op (by decide) hd (.cons hx .nil) (by simp [applyOp, Tree.ofList])

theorem isNil_truth (b : Bool) : (truth b).isNil = !b := by
  cases b <;> rfl

end Operators

end Meaning

namespace Script

open Meaning

/-- `mapping_get` as a function of a program. -/
def getHelper : Defun := ⟨"mapping_get", ["m", "k"], mappingGet.tree⟩

/-- `mapping_set` as a function of a program. -/
def setHelper : Defun := ⟨"mapping_set", ["m", "k", "v"], mappingSet.tree⟩

/-- The functions of a program hold the two mapping helpers and define none of the operators
the helpers use. -/
structure MappingLibrary (defs : List Defun) : Prop where
  get : defs.find? (·.name == "mapping_get") = some getHelper
  set : defs.find? (·.name == "mapping_set") = some setHelper
  first : defs.find? (·.name == "f") = none
  rest : defs.find? (·.name == "r") = none
  cons : defs.find? (·.name == "c") = none
  eq : defs.find? (·.name == "=") = none
  list : defs.find? (·.name == "list") = none

/-- The bindings `mapping_get` runs its body in. -/
def getEnv (m k : Tree) : Meaning.Env := [("m", m), ("k", k)]

/-- The bindings `mapping_set` runs its body in. -/
def setEnv (m k v : Tree) : Meaning.Env := [("m", m), ("k", k), ("v", v)]

section Helpers

variable {defs : List Defun} {kt vt : FieldType}

theorem evaluates_keyTest (hlib : MappingLibrary defs) (hkt : kt.scalar = true)
    {env : Meaning.Env} {k k' : Value} {ek ek' ew mr : Noted} (hk : kt.fits k = true)
    (hk' : kt.fits k' = true) (hek : kt.encode k = .ok ek) (hek' : kt.encode k' = .ok ek')
    (hm : Evaluates defs env (sym "m").tree (.cons (.cons ek'.tree ew.tree) mr.tree))
    (hkey : Evaluates defs env (sym "k").tree ek.tree) :
    Evaluates defs env (call "=" [call "f" [call "f" [sym "m"]], sym "k"]).tree
      (truth (Value.itemEq k k')) := by
  obtain ⟨ek₀, x, hx, hek₀, htx⟩ := FieldType.encode_scalar hkt hk
  obtain ⟨ek₀', x', hx', hek₀', htx'⟩ := FieldType.encode_scalar hkt hk'
  rw [hek] at hek₀
  rw [hek'] at hek₀'
  cases hek₀
  cases hek₀'
  rw [← FieldType.keyBytes_beq hkt hk' hk hek' hek htx' htx]
  exact evaluates_eq_op hlib.eq (htx' ▸ evaluates_first_op hlib.first (evaluates_first_op hlib.first hm))
    (htx ▸ hkey)

/-- `mapping_set` on the codes of a dictionary, a key and a value gives the code of the
dictionary with the key set: the pair of a matching key is replaced in place, and a new key's
pair goes last. -/
theorem evaluates_mappingSet (hlib : MappingLibrary defs) (hkt : kt.scalar = true)
    {k v : Value} {ek ev : Noted} (hk : kt.fits k = true) (hek : kt.encode k = .ok ek)
    (hev : vt.encode v = .ok ev) (d : List (Value × Value))
    (hd : (FieldType.mapping kt vt).fits (.dict d) = true) :
    ∃ m m', (FieldType.mapping kt vt).encode (.dict d) = .ok m ∧
      (FieldType.mapping kt vt).encode (.dict (Value.dictSet d k v)) = .ok m' ∧
      Evaluates defs (setEnv m.tree ek.tree ev.tree) mappingSet.tree m'.tree := by
  induction d with
  | nil =>
    refine ⟨Noted.nil, _, rfl, FieldType.encode_dict_cons hek hev FieldType.encode_dict_nil, ?_⟩
    refine evaluates_ifNode (evaluates_sym rfl) ?_
    exact evaluates_list_op hlib.list (evaluates_cons_op hlib.cons (evaluates_sym rfl) (evaluates_sym rfl))
  | cons p rest ih =>
    obtain ⟨k', w⟩ := p
    obtain ⟨hk', hw, hrest, hfresh⟩ := FieldType.fits_dict_cons hd
    obtain ⟨mr, mr', hmr, hmr', hevr⟩ := ih hrest
    obtain ⟨ek', hek', -⟩ := FieldType.decode_encode kt k' hk'
    obtain ⟨ew, hew, -⟩ := FieldType.decode_encode vt w hw
    let env := setEnv (Noted.cons (.cons ek' ew (.own [])) mr (.own [])).tree ek.tree ev.tree
    have hm : Evaluates defs env (sym "m").tree (.cons (.cons ek'.tree ew.tree) mr.tree) :=
      evaluates_sym rfl
    have htest := evaluates_keyTest hlib hkt hk hk' hek hek' hm (evaluates_sym rfl)
    cases hmatch : Value.itemEq k k' with
    | false =>
      rw [Value.dictSet_cons_miss hmatch]
      refine ⟨_, _, FieldType.encode_dict_cons hek' hew hmr, FieldType.encode_dict_cons hek' hew hmr', ?_⟩
      refine evaluates_ifNode hm (evaluates_ifNode htest ?_)
      rw [isNil_truth, hmatch]
      exact evaluates_cons_op hlib.cons (evaluates_first_op hlib.first hm)
        (evaluates_call_defun (by decide) hlib.set
          (.cons (evaluates_rest_op hlib.rest hm) (.cons (evaluates_sym rfl) (.cons (evaluates_sym rfl) .nil)))
          rfl hevr)
    | true =>
      obtain rfl := (FieldType.itemEq_iff_of_fits hkt hk hk').mp hmatch
      rw [hek] at hek'
      cases hek'
      rw [Value.dictSet_cons_match hmatch fun q hq => ?_]
      · refine ⟨_, _, FieldType.encode_dict_cons hek hew hmr, FieldType.encode_dict_cons hek hev hmr, ?_⟩
        refine evaluates_ifNode hm (evaluates_ifNode htest ?_)
        rw [isNil_truth, hmatch]
        exact evaluates_cons_op hlib.cons (evaluates_cons_op hlib.cons (evaluates_sym rfl) (evaluates_sym rfl))
          (evaluates_rest_op hlib.rest hm)
      · -- no later key is `k`
        have hqk := hfresh q hq
        have hq1 := (FieldType.fits_dict_mem hrest hq).1
        rw [← Bool.not_eq_true, FieldType.itemEq_iff_of_fits hkt hq1 hk] at hqk
        rw [← Bool.not_eq_true, FieldType.itemEq_iff_of_fits hkt hk hq1]
        exact fun h => hqk h.symm

/-- `mapping_get` on the codes of a dictionary and a key gives the code of the value stored under
the key, or nil when no key of the dictionary matches. -/
theorem evaluates_mappingGet (hlib : MappingLibrary defs) (hkt : kt.scalar = true) {k : Value}
    {ek : Noted} (hk : kt.fits k = true) (hek : kt.encode k = .ok ek) (d : List (Value × Value))
    (hd : (FieldType.mapping kt vt).fits (.dict d) = true) :
    ∃ m, (FieldType.mapping kt vt).encode (.dict d) = .ok m ∧
      (∀ w, Value.lookupIn k d = some w →
        ∃ ew, vt.encode w = .ok ew ∧ Evaluates defs (getEnv m.tree ek.tree) mappingGet.tree ew.tree) ∧
      (Value.lookupIn k d = none → Evaluates defs (getEnv m.tree ek.tree) mappingGet.tree Tree.nil) := by
  induction d with
  | nil =>
    refine ⟨Noted.nil, rfl, fun w hw => by simp [Value.lookupIn] at hw, fun _ => ?_⟩
    exact evaluates_ifNode (evaluates_sym rfl) (evaluates_atom (by decide))
  | cons p rest ih =>
    obtain ⟨k', w⟩ := p
    obtain ⟨hk', hw, hrest, -⟩ := FieldType.fits_dict_cons hd
    obtain ⟨mr, hmr, hsome, hnone⟩ := ih hrest
    obtain ⟨ek', hek', -⟩ := FieldType.decode_encode kt k' hk'
    obtain ⟨ew, hew, -⟩ := FieldType.decode_encode vt w hw
    refine ⟨_, FieldType.encode_dict_cons hek' hew hmr, ?_⟩
    let env := getEnv (Noted.cons (.cons ek' ew (.own [])) mr (.own [])).tree ek.tree
    have hm : Evaluates defs env (sym "m").tree (.cons (.cons ek'.tree ew.tree) mr.tree) :=
      evaluates_sym rfl
    have htest := evaluates_keyTest hlib hkt hk hk' hek hek' hm (evaluates_sym rfl)
    rw [Value.lookupIn_cons]
    cases hmatch : Value.itemEq k k' with
    | false =>
      have hrec : ∀ r, Evaluates defs (getEnv mr.tree ek.tree) mappingGet.tree r →
          Evaluates defs env mappingGet.tree r := fun r hr => by
        refine evaluates_ifNode hm (evaluates_ifNode htest ?_)
        rw [isNil_truth, hmatch]
        exact evaluates_call_defun (by decide) hlib.get
          (.cons (evaluates_rest_op hlib.rest hm) (.cons (evaluates_sym rfl) .nil)) rfl hr
      exact ⟨fun w' hw' => (hsome w' hw').imp fun _ h => ⟨h.1, hrec _ h.2⟩,
        fun hn => hrec _ (hnone hn)⟩
    | true =>
      refine ⟨fun w' hw' => ?_, fun hn => by simp at hn⟩
      rw [if_pos rfl, Option.some.injEq] at hw'
      subst hw'
      refine ⟨ew, hew, evaluates_ifNode hm (evaluates_ifNode htest ?_)⟩
      rw [isNil_truth, hmatch]
      exact evaluates_rest_op hlib.rest (evaluates_first_op hlib.first hm)

/-- The generated mapping helpers agree with the mapping codec. For a dictionary `d` of a
mapping type whose keys are scalars (as every mapping type of a schema is,
`FieldType.parse_mapping_scalar`), a key `k` and a value `v` of its types, the codes of `d`,
`k` and `v` exist; `mapping_set` on them gives the code of `d` with `k` set to `v`, and
`mapping_get` on the codes of `d` and `k` gives the code of the value `d` holds under `k`, or
nil when `k` is not in `d`. -/
theorem mapping_helpers_agree (hlib : MappingLibrary defs) (hkt : kt.scalar = true)
    {d : List (Value × Value)} {k v : Value} (hd : (FieldType.mapping kt vt).fits (.dict d) = true)
    (hk : kt.fits k = true) (hv : vt.fits v = true) :
    ∃ m ek ev m', (FieldType.mapping kt vt).encode (.dict d) = .ok m ∧ kt.encode k = .ok ek ∧
      vt.encode v = .ok ev ∧ (FieldType.mapping kt vt).encode (.dict (Value.dictSet d k v)) = .ok m' ∧
      Evaluates defs (setEnv m.tree ek.tree ev.tree) mappingSet.tree m'.tree ∧
      (∀ w, Value.lookupIn k d = some w →
        ∃ ew, vt.encode w = .ok ew ∧ Evaluates defs (getEnv m.tree ek.tree) mappingGet.tree ew.tree) ∧
      (Value.lookupIn k d = none → Evaluates defs (getEnv m.tree ek.tree) mappingGet.tree Tree.nil) := by
  obtain ⟨ek, hek, -⟩ := FieldType.decode_encode kt k hk
  obtain ⟨ev, hev, -⟩ := FieldType.decode_encode vt v hv
  obtain ⟨m, m', hm, hm', hset⟩ := evaluates_mappingSet hlib hkt hk hek hev d hd
  obtain ⟨m₀, hm₀, hsome, hnone⟩ := evaluates_mappingGet hlib hkt hk hek d hd
  rw [hm] at hm₀
  cases hm₀
  exact ⟨m, ek, ev, m', hm, hek, hev, hm', hset, hsome, hnone⟩

end Helpers

theorem mappingLibrary_helpers : MappingLibrary [getHelper, setHelper] :=
  ⟨rfl, rfl, rfl, rfl, rfl, rfl, rfl⟩

/-- Setting and reading the balance of an account that a mapping of unsigned integers holds. -/
theorem mapping_helpers_agree_balances :
    MappingLibrary [getHelper, setHelper] ∧ FieldType.uint.scalar = true ∧
      (FieldType.mapping .uint .uint).fits (.dict [(.int 1, .int 5), (.int 2, .int 6)]) = true ∧
      FieldType.uint.fits (.int 2) = true ∧ FieldType.uint.fits (.int 7) = true ∧
      ∃ m ek ev m', (FieldType.mapping .uint .uint).encode (.dict [(.int 1, .int 5), (.int 2, .int 6)]) = .ok m ∧
        FieldType.uint.encode (.int 2) = .ok ek ∧ FieldType.uint.encode (.int 7) = .ok ev ∧
        (FieldType.mapping .uint .uint).encode
          (.dict (Value.dictSet [(.int 1, .int 5), (.int 2, .int 6)] (.int 2) (.int 7))) = .ok m' ∧
        Evaluates [getHelper, setHelper] (setEnv m.tree ek.tree ev.tree) mappingSet.tree m'.tree ∧
        (∀ w, Value.lookupIn (.int 2) [(.int 1, .int 5), (.int 2, .int 6)] = some w →
          ∃ ew, FieldType.uint.encode w = .ok ew ∧
            Evaluates [getHelper, setHelper] (getEnv m.tree ek.tree) mappingGet.tree ew.tree) ∧
        (Value.lookupIn (.int 2) [(.int 1, .int 5), (.int 2, .int 6)] = none →
          Evaluates [getHelper, setHelper] (getEnv m.tree ek.tree) mappingGet.tree Tree.nil) := by
  have hd : (FieldType.mapping .uint .uint).fits (.dict [(.int 1, .int 5), (.int 2, .int 6)]) = true := by
    simp [FieldType.fits, Value.distinctKeys, Value.itemEq, Value.equal, Value.isNumber,
      Value.asInt?, Value.isNaN]
  exact ⟨mappingLibrary_helpers, rfl, hd, rfl, rfl,
    mapping_helpers_agree mappingLibrary_helpers rfl hd rfl rfl⟩

end Script

end PuzzleKit
