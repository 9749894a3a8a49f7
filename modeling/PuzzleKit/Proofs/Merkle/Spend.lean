import PuzzleKit.Proofs.Merkle.Dispatch
import PuzzleKit.Proofs.ActionNames
import PuzzleKit.Proofs.CurriedHash

/-!
# A merkle spend runs as the action tree checks proofs

Compiling a coin in merkle mode adds the curried hash of each action program to an action
tree, one action after the other, and curries the tree's root into the main program
(`compileSource_merkleReady`). A spend of an action then gives the main program the action's
name, its curried program, its own solution and the tree's proof of the action. The main
program hashes the leaf of the name and the program, walks the proof with
`merkle_root_from_proof` and compares the top with the curried root; the meaning of that code
(`Meaning.Evaluates`) follows the tree step for step, so the check passes on every solution the
compiled coin gives (`merkle_spend_agrees`).
-/

namespace PuzzleKit

open Build Meaning Script

section Runs

variable {ε σ α β γ : Type}

theorem run_bind_ok {x : EStateM ε σ α} {f : α → EStateM ε σ β} {s s' : σ} {b : β}
    (h : (x >>= f).run s = .ok b s') : ∃ a s₁, x.run s = .ok a s₁ ∧ (f a).run s₁ = .ok b s' := by
  rw [EStateM.run_bind] at h
  cases hx : x.run s with
  | ok a s₁ => rw [hx] at h; exact ⟨a, s₁, rfl, h⟩
  | error e s₁ => rw [hx] at h; cases h

theorem ofExcept_run_ok {r : Except Failure α} {s s' : List String} {a : α}
    (h : (Logged.ofExcept r).run s = .ok a s') : r = .ok a := by
  cases r with
  | ok b => cases h; rfl
  | error e => cases h

theorem forIn_inv (I : β → Prop) {body : γ → β → EStateM ε σ (ForInStep β)}
    (hstep : ∀ x b s r s', I b → (body x b).run s = .ok r s' → I r.value) :
    ∀ (xs : List γ) {b : β} {s s' : σ} {r : β}, I b → (forIn xs b body).run s = .ok r s' → I r
  | [], _, _, _, _, hb, h => by cases h; exact hb
  | x :: xs, b, s, s', r, hb, h => by
    rw [List.forIn_cons] at h
    obtain ⟨step, s₁, h1, h2⟩ := run_bind_ok h
    have hI := hstep x b s step s₁ hb h1
    cases step with
    | done b' => cases h2; exact hI
    | yield b' => exact forIn_inv I hstep xs hI h2

/-- A loop whose every round goes on and carries an invariant of the elements done so far keeps
it over the whole list. -/
theorem forIn_inv_seen (I : List γ → β → Prop) {body : γ → β → EStateM ε σ (ForInStep β)}
    (hstep : ∀ pre x b s r s', I pre b → (body x b).run s = .ok r s' →
      ∃ b', r = .yield b' ∧ I (pre ++ [x]) b') :
    ∀ (xs pre : List γ) {b : β} {s s' : σ} {r : β}, I pre b → (forIn xs b body).run s = .ok r s' →
      I (pre ++ xs) r
  | [], pre, _, _, _, _, hb, h => by
    cases h
    simpa using hb
  | x :: xs, pre, b, s, s', r, hb, h => by
    rw [List.forIn_cons] at h
    obtain ⟨step, s₁, h1, h2⟩ := run_bind_ok h
    obtain ⟨b', rfl, hb'⟩ := hstep pre x b s step s₁ hb h1
    have hrest := forIn_inv_seen I hstep xs (pre ++ [x]) hb' h2
    rwa [List.append_assoc, List.singleton_append] at hrest

end Runs

theorem coerce_str_of_nameLike {s : String} (h : NameLike s) : coerce (.str s) = .ok (str s) := by
  have hx : ¬ s.startsWith "0x" := by
    intro hs
    have hp : ['0', 'x'] <+: s.toList := by simpa using hs
    obtain ⟨rest, hrest⟩ := hp
    have h0 := h '0' (by simp [← hrest])
    exact absurd h0 (by decide)
  simp [coerce, hx]

/-- What compiling a coin in merkle mode guarantees (`compileSource_merkleReady`): the action
tree was built by adding the curried hash of each action program under the action's name, in
order; its root is curried last, after the module hash of a coin with state; and every action
has a name. -/
structure Script.Compiled.MerkleReady (c : Compiled) (t : ActionTree) : Prop where
  mode : c.mode = .merkle
  tree : c.actionTree = some t
  built : t.Built
  leaves : t.leaves.map (fun e => (e.1, e.2.1)) =
    c.actionMods.map fun p => (p.1, curriedHash p.2.hash (c.storage.map (·.2.tree.hash)))
  curried : c.curried = [("ACTION_MERKLE_ROOT", bytesAtom t.root)] ∨
    ∃ v, c.curried = [("MOD_HASH", v), ("ACTION_MERKLE_ROOT", bytesAtom t.root)]
  names : ∀ s ∈ c.signatures, NameLike s.name

/-- Compiling a coin in merkle mode adds the curried hash of each action program to a fresh
action tree, in order, and curries the tree's root, after the module hash when the coin has
state; every action it names has a name. -/
theorem compileSource_merkleReady {src : String} {opts : CompileOptions} {log log' : List String}
    {c : Compiled} (hc : (compileSource src opts).run log = .ok c log') (hm : c.mode = .merkle) :
    ∃ t, c.MerkleReady t := by
  simp only [compileSource] at hc
  obtain ⟨coin, s₁, hcoin, hc⟩ := run_bind_ok hc
  obtain ⟨a, s₂, ha, hc⟩ := run_bind_ok hc
  obtain ⟨g, s₃, hg, hc⟩ := run_bind_ok hc
  have hnames := generate_signatures_named (ofExcept_run_ok hcoin) (ofExcept_run_ok ha)
    (ofExcept_run_ok hg)
  obtain ⟨storage, s₄, -, hc⟩ := run_bind_ok hc
  obtain ⟨mod, s₅, -, hc⟩ := run_bind_ok hc
  split at hc
  · obtain ⟨st, s₆, hloop, hc⟩ := run_bind_ok hc
    -- the loop keeps: the tree is built by adding, and its leaves follow the programs built
    have hinv := forIn_inv (fun st : List (String × Tree) × List (String × String) × ActionTree =>
        st.2.2.Built ∧ st.2.2.leaves.map (fun e => (e.1, e.2.1)) =
          st.1.map (fun p => (p.1, curriedHash p.2.hash (storage.map (·.2.tree.hash)))))
      (fun x st s r s' hI hrun => by
        obtain ⟨m, s₁, -, hrun⟩ := run_bind_ok hrun
        obtain ⟨_, s₂, -, hrun⟩ := run_bind_ok hrun
        obtain ⟨t', s₃, hadd, hrun⟩ := run_bind_ok hrun
        cases hrun
        have hadd := ofExcept_run_ok hadd
        refine ⟨.add hI.1 hadd, ?_⟩
        rw [ActionTree.add_eq_ok hadd]
        simp [hI.2])
      g.actionMods ⟨.empty, rfl⟩ hloop
    split at hc
    · obtain ⟨_, s₇, -, hc⟩ := run_bind_ok hc
      obtain ⟨_, s₈, -, hc⟩ := run_bind_ok hc
      cases hc
      exact ⟨st.2.2, hm, rfl, hinv.1, hinv.2, .inr ⟨_, rfl⟩, hnames⟩
    · obtain ⟨_, s₇, -, hc⟩ := run_bind_ok hc
      obtain ⟨_, s₈, -, hc⟩ := run_bind_ok hc
      cases hc
      exact ⟨st.2.2, hm, rfl, hinv.1, hinv.2, .inl rfl, hnames⟩
  · rename_i hne
    split at hc <;>
    · obtain ⟨_, s₇, -, hc⟩ := run_bind_ok hc
      obtain ⟨_, s₈, -, hc⟩ := run_bind_ok hc
      cases hc
      dsimp only at hm
      simp [hm] at hne

/-- In merkle mode a spend's solution lists the action's name, its program, its own solution
and its merkle proof. -/
theorem solution_merkle {c : Compiled} (hm : c.mode = .merkle) {t : ActionTree}
    (ht : c.actionTree = some t) {action : Option String} {args : List Value}
    {signer amount state : Option Value} {sol : Noted}
    (hs : c.solution action args signer amount state = .ok sol) :
    ∃ sig inner prog proof el, c.signature action = .ok sig ∧
      c.actionSolution sig action args signer amount state = .ok inner ∧
      c.actionPuzzle sig.name = .ok prog ∧ t.proof (.str sig.name) = .ok proof ∧
      coerce (.str sig.name) = .ok el ∧
      sol = Noted.ofList [el, Noted.ofTree prog, inner.build,
        Noted.ofList (proof.map fun h => .atom h .bytes (.own []))] := by
  simp only [Compiled.solution] at hs
  obtain ⟨sig, hsig, hs⟩ := except_bind_ok hs
  obtain ⟨inner, hinner, hs⟩ := except_bind_ok hs
  rw [if_neg (by simp [hm])] at hs
  obtain ⟨prog, hprog, hs⟩ := except_bind_ok hs
  rw [ht] at hs
  obtain ⟨proof, hproof, hs⟩ := except_bind_ok hs
  cases hel : coerce (.str sig.name) with
  | error e =>
    simp only [Solution.add, List.forM, Solution.push, Solution.lift, hel] at hs
    cases hs
  | ok el =>
    simp only [Solution.add, List.forM, Solution.push, Solution.lift, hel] at hs
    simp [coerce, Solution.addMerkleProof, Solution.push, Solution.build] at hs
    exact ⟨sig, inner, prog, proof, el, hsig, hinner, hprog, hproof, hel, (Except.ok.inj hs).symm⟩

theorem signature_mem {c : Compiled} {action : Option String} {sig : Script.Signature}
    (h : c.signature action = .ok sig) : sig ∈ c.signatures := by
  unfold Compiled.signature at h
  split at h
  · rename_i hsigs
    cases h
    rw [hsigs]
    exact List.mem_cons_self
  · simp only at h
    split at h
    · cases h
      exact List.mem_of_find?_eq_some ‹_›
    · cases h

theorem snd_eq_of_nodup_fst {β : Type} : ∀ {l : List (String × β)}, (l.map Prod.fst).Nodup →
    ∀ {a : String} {b b' : β}, (a, b) ∈ l → (a, b') ∈ l → b = b'
  | [], _, _, _, _, h, _ => by cases h
  | (k, v) :: l, hl, a, b, b', h, h' => by
    rw [List.map_cons, List.nodup_cons] at hl
    rcases List.mem_cons.mp h with h | h <;> rcases List.mem_cons.mp h' with h' | h'
    · cases h
      cases h'
      rfl
    · cases h
      exact absurd (List.mem_map.mpr ⟨_, h', rfl⟩) hl.1
    · cases h'
      exact absurd (List.mem_map.mpr ⟨_, h, rfl⟩) hl.1
    · exact snd_eq_of_nodup_fst hl.2 h h'

theorem mem_of_lookup_eq_some {β : Type} : ∀ {l : List (String × β)} {a : String} {b : β},
    l.lookup a = some b → (a, b) ∈ l
  | [], _, _, h => by cases h
  | (k, v) :: l, a, b, h => by
    by_cases hk : a = k
    · subst hk
      simp only [List.lookup, beq_self_eq_true, Option.some.injEq] at h
      subst h
      exact List.mem_cons_self
    · simp only [List.lookup, beq_false_of_ne hk] at h
      exact List.mem_cons_of_mem _ (mem_of_lookup_eq_some h)

theorem lookup_of_mem {β : Type} {l : List (String × β)} (hl : (l.map Prod.fst).Nodup) {a : String}
    {b : β} (h : (a, b) ∈ l) : l.lookup a = some b := by
  obtain ⟨b', hb'⟩ := Option.isSome_iff_exists.mp
    (List.lookup_isSome_iff.mpr ⟨(a, b), h, beq_self_eq_true a⟩)
  rw [hb', snd_eq_of_nodup_fst hl h (mem_of_lookup_eq_some hb')]

theorem leaf_of_actionPuzzle {c : Compiled} {t : ActionTree} (ht : t.Built)
    (hL : t.leaves.map (fun e => (e.1, e.2.1)) =
      c.actionMods.map fun p => (p.1, curriedHash p.2.hash (c.storage.map (·.2.tree.hash))))
    {name : String} {prog : Tree} (hp : c.actionPuzzle name = .ok prog) :
    ∃ proof, t.leaf (.str name) = .ok (actionLeaf name prog.hash) ∧
      t.proof (.str name) = .ok proof ∧ proof.foldl merkleParent (actionLeaf name prog.hash) = t.root := by
  unfold Compiled.actionPuzzle at hp
  cases hm : c.actionMods.lookup name with
  | none => rw [hm] at hp; cases hp
  | some m =>
    rw [hm] at hp
    cases hp
    have hhash : (curry m (c.storage.map (·.2.tree))).hash =
        curriedHash m.hash (c.storage.map (·.2.tree.hash)) := by
      rw [← curriedHash_map_hash, List.map_map]
      rfl
    have hmem : (name, curriedHash m.hash (c.storage.map (·.2.tree.hash))) ∈
        t.leaves.map (fun e => (e.1, e.2.1)) := by
      rw [hL]
      exact List.mem_map.mpr ⟨(name, m), mem_of_lookup_eq_some hm, rfl⟩
    have hname : name ∈ t.names := by
      obtain ⟨e, he, hfst⟩ := List.mem_map.mp hmem
      exact List.mem_map.mpr ⟨e, he, congrArg Prod.fst hfst⟩
    obtain ⟨i, e, hpos, he, hfst⟩ := ActionTree.position?_of_mem_names ht.wf hname
    -- names are distinct, so the entry found holds that hash
    have hnodup : ((t.leaves.map (fun e => (e.1, e.2.1))).map Prod.fst).Nodup := by
      rw [List.map_map]
      exact ht.nodup_names
    have he2 : e.2.1 = curriedHash m.hash (c.storage.map (·.2.tree.hash)) := by
      have hmem' : (e.1, e.2.1) ∈ t.leaves.map (fun e => (e.1, e.2.1)) :=
        List.mem_map.mpr ⟨e, List.mem_of_getElem? he, rfl⟩
      rw [hfst] at hmem'
      exact snd_eq_of_nodup_fst hnodup hmem' hmem
    have hleaf : e.2.2 = actionLeaf e.1 e.2.1 := ht.wf.leaf e (List.mem_of_getElem? he)
    refine ⟨proofPath t.levels i, ?_, ?_, ?_⟩
    · simp only [ActionTree.leaf, ActionTree.entry, ActionTree.lookup, hpos, bind, Except.bind,
        pure, Except.pure, he]
      rw [hleaf, he2, hhash, hfst]
    · simp only [ActionTree.proof, ActionTree.lookup, hpos, bind, Except.bind, pure, Except.pure]
    · rw [ActionTree.root_eq_foldl_proofPath t he, hleaf, he2, hhash, hfst]

/-- The values the main program of a compiled coin is run with on a solution: the curried
values, then the items of the solution under the names of the solution parameters. -/
def Script.Compiled.spendEnv (c : Compiled) (sol : Tree) : Meaning.Env :=
  c.curried.map (fun p => (p.1, p.2.tree)) ++ c.solutionParams.zip sol.spine

/-- A merkle spend runs as the action tree checks proofs: the solution is the action's name,
its program, its own solution and its proof; the leaf the main program computes from the name
and the program is the tree's leaf of the action; the walk of `merkle_root_from_proof` is the
fold of `merkleParent` that `verifyProof` makes, for every start and every list of siblings;
and on this solution it leads to the root curried as `ACTION_MERKLE_ROOT`, so the check
passes. -/
theorem merkle_spend_agrees {c : Compiled} {t : ActionTree} (hc : c.MerkleReady t)
    {action : Option String} {args : List Value} {signer amount state : Option Value}
    {sol : Noted} (hs : c.solution action args signer amount state = .ok sol) :
    ∃ sig inner puzzle proof leaf, c.signature action = .ok sig ∧
      c.actionSolution sig action args signer amount state = .ok inner ∧
      c.actionPuzzle sig.name = .ok puzzle ∧ t.proof (.str sig.name) = .ok proof ∧
      sol.tree = Tree.ofList [(str sig.name).tree, puzzle, inner.build.tree, hashList proof]
        (.atom [] .bytes) ∧
      t.leaf (.str sig.name) = .ok leaf ∧
      Evaluates [merkleWalk] (c.spendEnv sol.tree) Script.merkleLeaf.tree (.atom leaf .bytes) ∧
      (∀ cur p, Evaluates [merkleWalk] [("cur", .atom cur .bytes), ("proof", hashList p)]
        Script.proofWalk.tree (.atom (p.foldl merkleParent cur) .bytes)) ∧
      proof.foldl merkleParent leaf = t.root ∧
      List.lookup "ACTION_MERKLE_ROOT" c.curried = some (bytesAtom t.root) ∧
      Evaluates [merkleWalk] (c.spendEnv sol.tree) Script.merkleCheck.tree (truth true) := by
  obtain ⟨sig, inner, puzzle, proof, el, hsig, hinner, hpuzzle, hproof, hel, rfl⟩ :=
    solution_merkle hc.mode hc.tree hs
  -- the action's name is a name, so the solution holds it as its text
  rw [coerce_str_of_nameLike (hc.names sig (signature_mem hsig))] at hel
  cases hel
  obtain ⟨proof', hleaf, hproof', hroot⟩ := leaf_of_actionPuzzle hc.built hc.leaves hpuzzle
  rw [hproof] at hproof'
  cases hproof'
  have htree : (Noted.ofList [str sig.name, Noted.ofTree puzzle, inner.build,
      Noted.ofList (proof.map fun h => .atom h .bytes (.own []))]).tree =
      Tree.ofList [(str sig.name).tree, puzzle, inner.build.tree, hashList proof] (.atom [] .bytes) := by
    simp [Noted.tree_ofList, Noted.tree_ofTree, hashList, Noted.tree, Noted.nil, Function.comp_def]
  have henv : c.spendEnv (Tree.ofList [(str sig.name).tree, puzzle, inner.build.tree, hashList proof]
      (.atom [] .bytes)) = c.curried.map (fun p => (p.1, p.2.tree)) ++
      [("action_name", (str sig.name).tree), ("action_puzzle", puzzle),
        ("action_solution", inner.build.tree), ("proof", hashList proof)] := by
    simp [Compiled.spendEnv, Compiled.solutionParams, hc.mode, Tree.spine]
  have hroot' : List.lookup "ACTION_MERKLE_ROOT" c.curried = some (bytesAtom t.root) := by
    rcases hc.curried with h | ⟨v, h⟩ <;> rw [h] <;> rfl
  rw [htree, henv]
  have hlookup : ∀ k ∈ ["action_name", "action_puzzle", "proof", "ACTION_MERKLE_ROOT"],
      List.lookup k (c.curried.map (fun p => (p.1, p.2.tree)) ++
        [("action_name", (str sig.name).tree), ("action_puzzle", puzzle),
          ("action_solution", inner.build.tree), ("proof", hashList proof)]) =
      List.lookup k ([("ACTION_MERKLE_ROOT", (bytesAtom t.root).tree), ("action_name", (str sig.name).tree),
        ("action_puzzle", puzzle), ("proof", hashList proof)]) := by
    intro k hk
    simp only [List.mem_cons, List.not_mem_nil, or_false] at hk
    rcases hc.curried with h | ⟨v, h⟩ <;> rw [h] <;> rcases hk with rfl | rfl | rfl | rfl <;> rfl
  refine ⟨sig, inner, puzzle, proof, _, hsig, hinner, hpuzzle, hproof, rfl, hleaf, ?_,
    fun cur p => evaluates_proofWalk p cur, hroot, hroot', ?_⟩
  · exact evaluates_merkleLeaf ((hlookup _ (by simp)).trans rfl) ((hlookup _ (by simp)).trans rfl)
  · have hcheck := evaluates_merkleCheck ((hlookup _ (by simp)).trans rfl)
      ((hlookup _ (by simp)).trans rfl) ((hlookup "proof" (by simp)).trans rfl)
      ((hlookup _ (by simp)).trans rfl)
    have hfold : proof.foldl merkleParent
        (pairHash (atomHash sig.name.toUTF8.toList) (atomHash puzzle.hash)) = t.root := hroot
    rw [hfold, beq_self_eq_true] at hcheck
    exact hcheck

/-- The program of the action `go`: the empty atom. -/
def goProgram : Tree := .atom [] .bytes

/-- The tree of the one action `go`, curried with no storage. -/
def goTree : ActionTree :=
  ⟨[("go", curriedHash goProgram.hash [], actionLeaf "go" (curriedHash goProgram.hash []))],
    [(.str "go", 0)]⟩

/-- A coin of the one merkle action `go`, with no storage and no state. -/
def goCoin : Compiled :=
  { name := "C", mode := .merkle, mod := goProgram, source := "",
    curried := [("ACTION_MERKLE_ROOT", bytesAtom goTree.root)],
    signatures := [{ name := "go", params := [] }], stateSchema := [], includes := [],
    actionMods := [("go", goProgram)], actionSources := [], actionTree := some goTree, storage := [],
    launcherId := none, library := none, codec := {} }

set_option maxRecDepth 100000 in
theorem merkle_spend_agrees_go :
    goCoin.MerkleReady goTree ∧
    goCoin.solution (some "go") [] none none none =
      .ok (Noted.ofList [str "go", Noted.ofTree (curry goProgram []), Noted.ofList [], Noted.ofList []]) ∧
    ∃ sig inner puzzle proof leaf, goCoin.signature (some "go") = .ok sig ∧
      goCoin.actionSolution sig (some "go") [] none none none = .ok inner ∧
      goCoin.actionPuzzle sig.name = .ok puzzle ∧ goTree.proof (.str sig.name) = .ok proof ∧
      (Noted.ofList [str "go", Noted.ofTree (curry goProgram []), Noted.ofList [],
        Noted.ofList []]).tree =
        Tree.ofList [(str sig.name).tree, puzzle, inner.build.tree, hashList proof] (.atom [] .bytes) ∧
      goTree.leaf (.str sig.name) = .ok leaf ∧
      Evaluates [merkleWalk] (goCoin.spendEnv (Noted.ofList [str "go", Noted.ofTree (curry goProgram []),
        Noted.ofList [], Noted.ofList []]).tree) Script.merkleLeaf.tree (.atom leaf .bytes) ∧
      (∀ cur p, Evaluates [merkleWalk] [("cur", .atom cur .bytes), ("proof", hashList p)]
        Script.proofWalk.tree (.atom (p.foldl merkleParent cur) .bytes)) ∧
      proof.foldl merkleParent leaf = goTree.root ∧
      List.lookup "ACTION_MERKLE_ROOT" goCoin.curried = some (bytesAtom goTree.root) ∧
      Evaluates [merkleWalk] (goCoin.spendEnv (Noted.ofList [str "go", Noted.ofTree (curry goProgram []),
        Noted.ofList [], Noted.ofList []]).tree) Script.merkleCheck.tree (truth true) := by
  have hname : NameLike "go" := by
    intro ch hch
    have hgo : "go".toList = ['g', 'o'] := by decide
    rw [hgo, List.head?_cons, Option.mem_some_iff] at hch
    subst hch
    decide
  have hready : goCoin.MerkleReady goTree :=
    { mode := rfl, tree := rfl,
      built := @ActionTree.Built.add _ _ "go" (curriedHash goProgram.hash []) .empty rfl,
      leaves := by simp [goTree, goCoin], curried := .inl rfl,
      names := fun s hs => by
        rw [List.mem_singleton.mp hs]
        exact hname }
  have hsig : goCoin.signature (some "go") = .ok { name := "go", params := [] } := rfl
  have hinner : goCoin.actionSolution { name := "go", params := [] } (some "go") [] none none none =
      .ok {} := rfl
  have hprog : goCoin.actionPuzzle "go" = .ok (curry goProgram []) := rfl
  have hproof : goTree.proof (.str "go") = .ok [] := by
    simp [ActionTree.proof, ActionTree.lookup, ActionTree.position?, goTree, Build.Puzzle.itemEq_str,
      Value.asKey, ActionTree.levels, levelsFrom, proofPath, bind, Except.bind, Value.hashable, pure,
      Except.pure]
  have hsol : goCoin.solution (some "go") [] none none none =
      .ok (Noted.ofList [str "go", Noted.ofTree (curry goProgram []), Noted.ofList [],
        Noted.ofList []]) := by
    simp only [Compiled.solution, hsig, hinner, bind, Except.bind, hprog]
    simp only [goCoin, hproof, Solution.add, List.forM, Solution.push, Solution.lift,
      coerce_str_of_nameLike hname]
    rfl
  exact ⟨hready, hsol, merkle_spend_agrees hready hsol⟩

end PuzzleKit
