import PuzzleKit.Proofs.Merkle.Spend
import PuzzleKit.Proofs.Declared

/-!
# A coin with state recreates itself at its own puzzle hash

A coin with state ends each spend by creating its successor at its own puzzle hash, which the
program computes as `(puzzle-hash-of-curried-function MOD_HASH (sha256 1 Nₖ) … (sha256 1 N₁))`
over its curried names `N₁ … Nₖ`. The library function takes the module hash and the hashes of
the curried values, last first (`CurriedHashLibrary`), as the function written out for any
number of values does (`curriedHashLibrary_function`); `(sha256 1 X)` is the tree hash of `X`
only when `X` is an atom, and fails on a pair.

Compiling a coin with state curries the module hash first and distinct names after it
(`compileSource_selfHashReady`). The expression then evaluates exactly when every curried value
is an atom, and then to the coin's puzzle hash (`selfPuzzleHash_evaluates`): a storage value
given as a pair makes it fail.
-/

namespace PuzzleKit

open Build Meaning Script

section Loops

variable {ε σ α β γ δ : Type}

/-- A step whose every successful run returns a value with `P`. -/
def Gives (P : α → Prop) (x : EStateM ε σ α) : Prop := ∀ s r s', x.run s = .ok r s' → P r

theorem gives_pure {P : α → Prop} {a : α} (h : P a) : Gives P (pure a : EStateM ε σ α) :=
  fun _ _ _ hr => by
    cases hr
    exact h

theorem gives_bind {P : β → Prop} {x : EStateM ε σ α} {f : α → EStateM ε σ β}
    (hf : ∀ a, Gives P (f a)) : Gives P (x >>= f) := fun s r s' hr => by
  obtain ⟨a, s₁, -, h2⟩ := run_bind_ok hr
  exact hf a _ _ _ h2

theorem gives_throw_bind {P : β → Prop} (e : ε) {f : α → EStateM ε σ β} :
    Gives P (throw e >>= f) := fun _ _ _ hr => by cases hr

theorem forIn_appends (F : β → List δ) (g : γ → δ) {body : γ → β → EStateM ε σ (ForInStep β)}
    (hstep : ∀ x b, Gives (fun r => ∃ b', r = .yield b' ∧ F b' = F b ++ [g x]) (body x b)) :
    ∀ (xs : List γ) (b : β), Gives (fun r => F r = F b ++ xs.map g) (forIn xs b body)
  | [], b => gives_pure (by simp)
  | x :: xs, b => by
    rw [List.forIn_cons]
    intro s r s' hr
    obtain ⟨step, s₁, h1, h2⟩ := run_bind_ok hr
    obtain ⟨b', rfl, hb'⟩ := hstep x b s step s₁ h1
    rw [forIn_appends F g hstep xs b' s₁ r s' h2, hb']
    simp

end Loops

theorem storageValues_names {a : Analysis} {opts : CompileOptions} {log log' : List String}
    {out : List (String × Noted)} (h : (storageValues a opts).run log = .ok out log') :
    out.map (·.1) = a.storage.map (·.vmName) := by
  unfold storageValues at h
  obtain ⟨st, s₁, hloop, h⟩ := run_bind_ok h
  obtain ⟨_, s₂, -, h⟩ := run_bind_ok h
  cases h
  have hF := forIn_appends (fun st : List (String × Value) × List (String × Noted) => st.2.map (·.1))
    (·.vmName) (fun s st => ?_) a.storage (opts.storage, []) _ _ _ hloop
  · simpa using hF
  dsimp only
  repeat' first
    | exact gives_throw_bind _
    | exact gives_pure ⟨_, rfl, by simp⟩
    | refine gives_bind fun _ => ?_
    | split

theorem modHash_reserved : "MOD_HASH" ∈ reservedNames := by
  simp [reservedNames]

/-- No generated name is `MOD_HASH`: that name is reserved, and a reserved name gets an
underscore, which `MOD_HASH` does not end in. -/
theorem vmSafe_ne_modHash (x : String) : vmSafe x ≠ "MOD_HASH" := by
  unfold vmSafe
  split
  · intro h
    have hlast := congrArg (fun s => s.toList.getLast?) h
    simp at hlast
  · rename_i hx
    rintro rfl
    simp only [List.elem_eq_mem, decide_eq_true_eq] at hx
    exact hx modHash_reserved

/-- What compiling a coin with state guarantees of the values it curries
(`compileSource_selfHashReady`): the module hash comes first, under `MOD_HASH`, and no name is
curried twice. -/
structure Script.Compiled.SelfHashReady (c : Compiled) : Prop where
  modHash : c.curried.head? = some ("MOD_HASH", bytesAtom c.modHash)
  names : (c.curried.map (·.1)).Nodup

/-- Compiling a coin with state curries its module hash first, then the tree's root in merkle
mode or the storage values under their generated names, all distinct. -/
theorem compileSource_selfHashReady {src : String} {opts : CompileOptions} {log log' : List String}
    {c : Compiled} (hc : (compileSource src opts).run log = .ok c log') (hs : c.stateSchema ≠ []) :
    c.SelfHashReady := by
  simp only [compileSource] at hc
  obtain ⟨coin, s₁, -, hc⟩ := run_bind_ok hc
  obtain ⟨a, s₂, ha, hc⟩ := run_bind_ok hc
  obtain ⟨g, s₃, -, hc⟩ := run_bind_ok hc
  obtain ⟨storage, s₄, hst, hc⟩ := run_bind_ok hc
  obtain ⟨mod, s₅, -, hc⟩ := run_bind_ok hc
  have ha := ofExcept_run_ok ha
  have hnames : ("MOD_HASH" :: storage.map (·.1)).Nodup := by
    rw [storageValues_names hst, analyze_storage_vmNames ha, List.nodup_cons]
    refine ⟨fun hm => ?_, analyze_storage_vmNames_nodup ha⟩
    obtain ⟨v, -, hv⟩ := List.mem_map.mp hm
    exact vmSafe_ne_modHash _ hv
  have hstate : ¬ a.hasState = true → coin.stateVars = [] := fun hno => by
    simpa [Analysis.hasState, analyze_coin ha] using hno
  split at hc
  · obtain ⟨st, s₆, -, hc⟩ := run_bind_ok hc
    split at hc
    · obtain ⟨_, s₇, -, hc⟩ := run_bind_ok hc
      obtain ⟨_, s₈, -, hc⟩ := run_bind_ok hc
      cases hc
      exact ⟨rfl, by simp⟩
    · obtain ⟨_, s₇, -, hc⟩ := run_bind_ok hc
      obtain ⟨_, s₈, -, hc⟩ := run_bind_ok hc
      cases hc
      simp [hstate ‹_›] at hs
  · split at hc
    · obtain ⟨_, s₇, -, hc⟩ := run_bind_ok hc
      obtain ⟨_, s₈, -, hc⟩ := run_bind_ok hc
      cases hc
      exact ⟨rfl, hnames⟩
    · obtain ⟨_, s₇, -, hc⟩ := run_bind_ok hc
      obtain ⟨_, s₈, -, hc⟩ := run_bind_ok hc
      cases hc
      simp [hstate ‹_›] at hs

/-- The library function `puzzle-hash-of-curried-function` as a program with `k` curried values
calls it: on the module hash and the hashes of the values, last first, it gives the puzzle hash
of the module curried with values of those hashes. `sha256` is the operator, not a function of
the program. -/
structure CurriedHashLibrary (defs : List Defun) (k : Nat) : Prop where
  sha256 : defs.find? (·.name == "sha256") = none
  curriedHash : ∃ d, defs.find? (·.name == "puzzle-hash-of-curried-function") = some d ∧
    d.params.length = k + 1 ∧ ∀ (mh : List UInt8) (hs : List (List UInt8)), hs.length = k →
      Evaluates defs (d.params.zip (.atom mh .bytes :: hs.map (.atom · .bytes))) d.body
        (.atom (curriedHash mh hs.reverse) .bytes)

theorem lookup_spendEnv {c : Compiled} (hn : (c.curried.map (·.1)).Nodup) {p : String × Noted}
    (hp : p ∈ c.curried) (sol : Tree) : (c.spendEnv sol).lookup p.1 = some p.2.tree := by
  unfold Compiled.spendEnv
  generalize c.curried = l at hn hp
  induction l with
  | nil => cases hp
  | cons q l ih =>
    rw [List.map_cons, List.nodup_cons] at hn
    rcases List.mem_cons.mp hp with rfl | hp
    · simp
    · have hne : p.1 ≠ q.1 := fun h => hn.1 (h ▸ List.mem_map_of_mem hp)
      simp only [List.map_cons, List.cons_append, List.lookup, beq_false_of_ne hne]
      exact ih hn.2 hp

section Sha256

variable {defs : List Defun} {env : Meaning.Env}

theorem evaluates_sha256_one (hd : defs.find? (·.name == "sha256") = none) {n : String}
    {b : List UInt8} {h : Hint} (hn : env.lookup n = some (.atom b h)) :
    Evaluates defs env (call "sha256" [int 1, sym n]).tree (.atom (atomHash b) .bytes) := by
  refine evaluates_call_op (by decide) hd (.cons (evaluates_int 1) (.cons (evaluates_sym hn) .nil)) ?_
  have hone : Bytes.ofInt 1 = [1] := by decide
  simp [applyOp, Tree.bytes?, atomHash, hone]

theorem atom_of_evaluates_sha256_one (hd : defs.find? (·.name == "sha256") = none) {n : String}
    {w : Tree} (h : Evaluates defs env (call "sha256" [int 1, sym n]).tree w) :
    ∃ b h, env.lookup n = some (.atom b h) := by
  obtain ⟨vs, hargs, hop⟩ := evaluates_call_inv (by decide) h
  simp only [hd] at hop
  rcases hargs with _ | ⟨-, _ | ⟨hw, _ | _⟩⟩
  rename_i w2
  -- the operator hashes atoms only
  cases w2 with
  | atom b h => exact ⟨b, h, evaluates_sym_inv hw⟩
  | cons => simp [applyOp, Tree.bytes?] at hop

end Sha256

theorem selfPuzzleHash_evaluates_of_atoms {c : Compiled} (hc : c.SelfHashReady) {defs : List Defun}
    (hlib : CurriedHashLibrary defs c.curried.length)
    (hatoms : ∀ p ∈ c.curried, ∃ b h, p.2.tree = .atom b h) (sol : Tree) :
    Evaluates defs (c.spendEnv sol) (Generate.selfPuzzleHash (c.curried.map (·.1))).tree
      (.atom c.puzzleHash .bytes) := by
  obtain ⟨d, hd, hlen, hbody⟩ := hlib.curriedHash
  obtain ⟨rest, hcur⟩ := List.head?_eq_some_iff.mp hc.modHash
  have hmod : (c.spendEnv sol).lookup "MOD_HASH" = some (.atom c.modHash .bytes) :=
    lookup_spendEnv hc.names (p := ("MOD_HASH", bytesAtom c.modHash)) (by rw [hcur]; exact List.mem_cons_self) sol
  have hhash : ∀ p ∈ c.curried, Evaluates defs (c.spendEnv sol)
      (call "sha256" [int 1, sym p.1]).tree (.atom p.2.tree.hash .bytes) := by
    intro p hp
    obtain ⟨b, h, hb⟩ := hatoms p hp
    rw [hb]
    exact evaluates_sha256_one hlib.sha256 ((lookup_spendEnv hc.names hp sol).trans (congrArg some hb))
  -- the library function gets the hashes last first and curries them back in order
  have hres := hbody c.modHash (c.curried.reverse.map (·.2.tree.hash)) (by simp)
  rw [← List.map_reverse, List.reverse_reverse] at hres
  unfold Generate.selfPuzzleHash
  refine evaluates_call_defun (by decide) hd (.cons (evaluates_sym hmod) ?_) (by simp [hlen]) hres
  rw [← List.map_reverse, List.map_map, List.map_map]
  exact List.forall₂_map_left_iff.mpr (List.forall₂_map_right_iff.mpr
    (List.forall₂_same.mpr fun p hp => hhash p (List.mem_reverse.mp hp)))

/-- A coin with state computes its own puzzle hash from its curried values: the expression
`(puzzle-hash-of-curried-function MOD_HASH (sha256 1 Nₖ) … (sha256 1 N₁))` over the curried
names, evaluated where each name is bound to its curried value, gives the coin's puzzle hash
exactly when every curried value is an atom; on a pair it fails. -/
theorem selfPuzzleHash_evaluates {c : Compiled} (hc : c.SelfHashReady) {defs : List Defun}
    (hlib : CurriedHashLibrary defs c.curried.length) (sol v : Tree) :
    Evaluates defs (c.spendEnv sol) (Generate.selfPuzzleHash (c.curried.map (·.1))).tree v ↔
      (∀ p ∈ c.curried, ∃ b h, p.2.tree = .atom b h) ∧ v = .atom c.puzzleHash .bytes := by
  constructor
  · intro h
    -- each `(sha256 1 N)` among the arguments evaluated, so each value is an atom
    have hatoms : ∀ p ∈ c.curried, ∃ b h, p.2.tree = .atom b h := by
      intro p hp
      have hmem : call "sha256" [int 1, sym p.1] ∈ sym "MOD_HASH" ::
          (c.curried.map (·.1)).reverse.map fun n => call "sha256" [int 1, sym n] :=
        List.mem_cons_of_mem _ (List.mem_map.mpr ⟨p.1, by simpa using ⟨p.2, hp⟩, rfl⟩)
      obtain ⟨w, hw⟩ := evaluates_of_mem_call (by decide) h hmem
      obtain ⟨b, h, hb⟩ := atom_of_evaluates_sha256_one hlib.sha256 hw
      rw [lookup_spendEnv hc.names hp sol] at hb
      exact ⟨b, h, Option.some.inj hb⟩
    exact ⟨hatoms, h.unique (selfPuzzleHash_evaluates_of_atoms hc hlib hatoms sol)⟩
  · rintro ⟨hatoms, rfl⟩
    exact selfPuzzleHash_evaluates_of_atoms hc hlib hatoms sol

/-! ### The library function for any number of curried values -/

/-- `(sha256 2 x y)`: the tree hash of a pair from the hashes of its parts. -/
def pairHashCode (x y : Noted) : Noted := call "sha256" [int 2, x, y]

/-- `(sha256 1 x)`: the tree hash of an atom from its bytes. -/
def atomHashCode (x : Noted) : Noted := call "sha256" [int 1, x]

/-- The parameter that takes the hash of a curried value, `i` values before the last; the
names differ in length. -/
def valueHashParam (i : Nat) : String := String.ofList (List.replicate (i + 1) 'v')

/-- The code of the hash of the environment `(c (q . v₁) (c (q . v₂) … 1))` whose values have
the hashes held by the parameters `ns`, first value first. -/
def valuesHashCode : List String → Noted
  | [] => atomHashCode (int 1)
  | n :: ns => pairHashCode (atomHashCode (int 4))
      (pairHashCode (pairHashCode (atomHashCode (int 1)) (sym n))
        (pairHashCode (valuesHashCode ns) (atomHashCode (int 0))))

/-- `puzzle-hash-of-curried-function` for a program with `k` curried values, written out with
`sha256` over the form `(a (q . m) (c (q . v₁) … 1))`; it takes the hashes of the values last
first. -/
def curriedHashFunction (k : Nat) : Defun where
  name := "puzzle-hash-of-curried-function"
  params := "mod_hash" :: (List.range k).map valueHashParam
  body := (pairHashCode (atomHashCode (int 2))
    (pairHashCode (pairHashCode (atomHashCode (int 1)) (sym "mod_hash"))
      (pairHashCode (valuesHashCode ((List.range k).map valueHashParam).reverse)
        (atomHashCode (int 0))))).tree

theorem valueHashParam_injective : Function.Injective valueHashParam := fun i j h => by
  simpa [valueHashParam] using congrArg String.length h

theorem valueHashParam_ne_modHash (i : Nat) : valueHashParam i ≠ "mod_hash" := fun h => by
  simpa [valueHashParam, List.replicate_succ] using congrArg String.toList h

section HashCode

variable {defs : List Defun} {env : Meaning.Env}

theorem evaluates_atomHashCode (hd : defs.find? (·.name == "sha256") = none) {x : Noted}
    {a : List UInt8} {h : Hint} (hx : Evaluates defs env x.tree (.atom a h)) :
    Evaluates defs env (atomHashCode x).tree (.atom (atomHash a) .bytes) := by
  have hone : Bytes.ofInt 1 = [1] := by decide
  refine evaluates_call_op (by decide) hd (.cons (evaluates_int 1) (.cons hx .nil)) ?_
  simp [applyOp, Tree.bytes?, atomHash, hone]

theorem evaluates_pairHashCode (hd : defs.find? (·.name == "sha256") = none) {x y : Noted}
    {a b : List UInt8} {ha hb : Hint} (hx : Evaluates defs env x.tree (.atom a ha))
    (hy : Evaluates defs env y.tree (.atom b hb)) :
    Evaluates defs env (pairHashCode x y).tree (.atom (pairHash a b) .bytes) := by
  have htwo : Bytes.ofInt 2 = [2] := by decide
  refine evaluates_call_op (by decide) hd (.cons (evaluates_int 2) (.cons hx (.cons hy .nil))) ?_
  simp [applyOp, Tree.bytes?, pairHash, htwo]

theorem evaluates_atomHashCode_int (hd : defs.find? (·.name == "sha256") = none) (i : Int)
    {b : List UInt8} (hb : Bytes.ofInt i = b) :
    Evaluates defs env (atomHashCode (int i)).tree (.atom (atomHash b) .bytes) :=
  hb ▸ evaluates_atomHashCode hd (evaluates_int i)

theorem evaluates_valuesHashCode (hd : defs.find? (·.name == "sha256") = none) :
    ∀ {ns : List String} {hs : List (List UInt8)},
      List.Forall₂ (fun n h => env.lookup n = some (.atom h .bytes)) ns hs →
      Evaluates defs env (valuesHashCode ns).tree (.atom (curriedValuesHash hs) .bytes)
  | [], [], .nil => evaluates_atomHashCode_int hd 1 (by decide)
  | _ :: _, _ :: _, .cons hn hrest =>
    evaluates_pairHashCode hd (evaluates_atomHashCode_int hd 4 (by decide))
      (evaluates_pairHashCode hd
        (evaluates_pairHashCode hd (evaluates_atomHashCode_int hd 1 (by decide)) (evaluates_sym hn))
        (evaluates_pairHashCode hd (evaluates_valuesHashCode hd hrest)
          (evaluates_atomHashCode_int hd 0 (by decide))))

end HashCode

/-- The library function written out for `k` curried values is one `selfPuzzleHash_evaluates`
can call: its parameters are distinct, so each is bound to the hash it is given. -/
theorem curriedHashLibrary_function (k : Nat) : CurriedHashLibrary [curriedHashFunction k] k := by
  have hd : [curriedHashFunction k].find? (·.name == "sha256") = none := by
    simp [curriedHashFunction]
  refine ⟨hd, curriedHashFunction k, by simp [curriedHashFunction], by simp [curriedHashFunction],
    fun mh hs hlen => ?_⟩
  let names := (List.range k).map valueHashParam
  let env : Meaning.Env :=
    (curriedHashFunction k).params.zip (Tree.atom mh .bytes :: hs.map (Tree.atom · .bytes))
  have hlen' : names.length = (hs.map (Tree.atom · .bytes)).length := by
    simp [names, hlen]
  have hnodup : (env.map Prod.fst).Nodup := by
    have hfst : env.map Prod.fst = "mod_hash" :: names := by
      simp only [env, curriedHashFunction, List.zip_cons_cons, List.map_cons]
      rw [List.map_fst_zip (Nat.le_of_eq hlen')]
    rw [hfst, List.nodup_cons]
    refine ⟨fun hm => ?_, (List.nodup_range).map valueHashParam_injective⟩
    obtain ⟨i, -, hi⟩ := List.mem_map.mp hm
    exact valueHashParam_ne_modHash i hi
  have hmod : env.lookup "mod_hash" = some (.atom mh .bytes) := by
    simp [env, curriedHashFunction]
  have hvals : List.Forall₂ (fun n h => env.lookup n = some (.atom h .bytes)) names hs := by
    refine List.forall₂_iff_zip.mpr ⟨by simpa using hlen', fun {n h} hm => lookup_of_mem hnodup ?_⟩
    refine List.mem_cons_of_mem _ (?_ : (n, Tree.atom h .bytes) ∈ names.zip (hs.map (Tree.atom · .bytes)))
    rw [List.zip_map_right]
    exact List.mem_map.mpr ⟨(n, h), hm, rfl⟩
  exact evaluates_pairHashCode hd (evaluates_atomHashCode_int hd 2 (by decide))
    (evaluates_pairHashCode hd
      (evaluates_pairHashCode hd (evaluates_atomHashCode_int hd 1 (by decide)) (evaluates_sym hmod))
      (evaluates_pairHashCode hd (evaluates_valuesHashCode hd (List.forall₂_reverse_iff.mpr hvals))
        (evaluates_atomHashCode_int hd 0 (by decide))))

/-- A coin with state that stores its owner, curried after the module hash. -/
def counterCoin : Compiled :=
  { name := "Counter", mode := .direct, mod := Tree.nil, source := "",
    curried := [("MOD_HASH", bytesAtom Tree.nil.hash), ("OWNER", bytesAtom (List.replicate 32 0))],
    signatures := [], stateSchema := [("count", "uint64")], includes := [], actionMods := [],
    actionSources := [], actionTree := none, storage := [("OWNER", bytesAtom (List.replicate 32 0))],
    launcherId := none, library := none, codec := {} }

theorem selfPuzzleHash_evaluates_counter :
    counterCoin.SelfHashReady ∧
    CurriedHashLibrary [curriedHashFunction 2] counterCoin.curried.length ∧
    (Evaluates [curriedHashFunction 2] (counterCoin.spendEnv Tree.nil)
        (Generate.selfPuzzleHash (counterCoin.curried.map (·.1))).tree
        (.atom counterCoin.puzzleHash .bytes) ↔
      (∀ p ∈ counterCoin.curried, ∃ b h, p.2.tree = .atom b h) ∧
        Tree.atom counterCoin.puzzleHash .bytes = .atom counterCoin.puzzleHash .bytes) :=
  have hc : counterCoin.SelfHashReady := ⟨rfl, by decide⟩
  ⟨hc, curriedHashLibrary_function 2, selfPuzzleHash_evaluates hc (curriedHashLibrary_function 2) _ _⟩

end PuzzleKit
