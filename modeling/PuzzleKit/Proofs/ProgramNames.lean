import PuzzleKit.Proofs.Binders
import PuzzleKit.Proofs.Programs

/-!
# Generated programs bind each name once

The check compares the generated names of a coin's storage variables, constants and functions
with one another (`analyze_claimed_nodup`), and those of the parameters of one action or one
function with one another, but never a parameter with a declaration: a function `half` and an
action parameter `half` both become `half`, which the program of a coin of one action then binds
as a solution parameter and declares as a function. Nor does it keep a function from taking the
name of a parameter of a helper that generated code may add. For a coin whose names keep apart
in these places (`CoinDecl.NamesApart`), every program that generation produces binds each name
once (`generate_binds_once`).

What a program declares is read off its builder (`Declares`) at each step of generation. Its
names come from three pools (`nodup_of_pools`): the generated names the coin claims, the
generated names of one action's parameters, and names the generated programs keep for
themselves, which no generated name can be (`vmSafe_not_mem_programNames`).
-/

namespace PuzzleKit.Script

open Build Build.Puzzle

/-! ### Coins whose names keep apart -/

/-- The generated names of a coin's constants and functions, which its programs declare. -/
def CoinDecl.declaredNames (coin : CoinDecl) : List String :=
  coin.consts.map (fun k => vmSafe (upperSnake k.name)) ++
    coin.functions.map (fun f => vmSafe (snakeCase f.name))

/-- The generated names a coin claims: those of its storage variables, then those it
declares. -/
def CoinDecl.claimedNames (coin : CoinDecl) : List String :=
  coin.storageVars.map (fun v => vmSafe (upperSnake v.name)) ++ coin.declaredNames

namespace Generate

/-- The helpers a program may get after the coin's functions, with their parameters:
`mapping_get` and `mapping_set` when it reads or writes a mapping, `merge_list` when it merges
lists. -/
def helperFunctions (mappings merge : Bool) : List (String × List String) :=
  (if mappings then [("mapping_get", ["m", "k"]), ("mapping_set", ["m", "k", "v"])] else []) ++
    (if merge then [("merge_list", ["a", "b"])] else [])

/-- A coin's function as code generation declares it: under the name the check gives it, with
the generated names its scope records for its parameters. -/
def functionNames (A : Analysis) (f : FunctionDecl) : String × List String :=
  (A.vmName f.name, f.params.map fun q =>
    ((((A.functions.lookup f.name).getD []).find? (·.name == q.name)).map (·.vmName)).getD q.name)

end Generate

/-- A coin whose names keep apart where the check does not compare them: no parameter of an
action has the generated name of a storage variable, constant or function, no parameter of a
function has that of a constant or function, no constant or function has the name of a
parameter of a helper, and no constant is named like a library function, whose name a call of
it would bind instead. -/
structure CoinDecl.NamesApart (coin : CoinDecl) : Prop where
  actions : ∀ a ∈ coin.actions, ∀ p ∈ a.params, vmSafe (snakeCase p.name) ∉ coin.claimedNames
  functions : ∀ f ∈ coin.functions, ∀ p ∈ f.params, vmSafe (snakeCase p.name) ∉ coin.declaredNames
  helpers : ∀ x ∈ coin.declaredNames, ∀ h ∈ Generate.helperFunctions true true, x ∉ h.2
  library : ∀ n ∈ coin.consts.map (·.name), libraryFunction n = none

instance (coin : CoinDecl) : Decidable coin.NamesApart :=
  decidable_of_iff
    ((∀ a ∈ coin.actions, ∀ p ∈ a.params, vmSafe (snakeCase p.name) ∉ coin.claimedNames) ∧
      (∀ f ∈ coin.functions, ∀ p ∈ f.params, vmSafe (snakeCase p.name) ∉ coin.declaredNames) ∧
      (∀ x ∈ coin.declaredNames, ∀ h ∈ Generate.helperFunctions true true, x ∉ h.2) ∧
      ∀ n ∈ coin.consts.map (·.name), libraryFunction n = none)
    ⟨fun ⟨a, f, h, l⟩ => ⟨a, f, h, l⟩, fun ⟨a, f, h, l⟩ => ⟨a, f, h, l⟩⟩

/-! ### The generated names of a checked coin -/

section Checked

variable {coin : CoinDecl} {codec : AddressCodec} {A : Analysis}

theorem analyze_vmName_entry (h : analyze coin codec = .ok A) {n vm : String} {k : SymbolKind}
    (he : (n, k, vm) ∈ coin.entries) (hk : k.claims = true)
    (hl : libraryFunction n = none ∨ k = .function) : A.vmName n = vm := by
  obtain ⟨hentries, hdecl⟩ := analyze_declared h
  obtain ⟨s, hs, hse⟩ := find?_of_mem_entries hdecl.names (e := (n, k, vm)) (by rw [hentries]; exact he)
  simp only [Symbol.entry, Prod.mk.injEq] at hse
  obtain ⟨hn, hkind, hvm⟩ := hse
  rw [← hn, analyze_vmName h (List.mem_of_find?_eq_some hs) (by rw [hkind]; exact hk) (by rw [hn, hkind]; exact hl),
    hvm]

theorem analyze_constNames (h : analyze coin codec = .ok A) (hapart : coin.NamesApart) :
    A.coin.consts.map (A.vmName ·.name) = coin.consts.map fun k => vmSafe (upperSnake k.name) := by
  rw [analyze_coin h]
  refine List.map_congr_left fun k hk => analyze_vmName_entry h (k := .constant) ?_ rfl
    (.inl (hapart.library _ (List.mem_map_of_mem hk)))
  exact List.mem_append_left _ (List.mem_append_left _ (List.mem_append_right _
    (List.mem_map_of_mem (f := fun k : ConstDecl => (k.name, SymbolKind.constant, vmSafe (upperSnake k.name))) hk)))

theorem analyze_functionNames (h : analyze coin codec = .ok A) :
    A.coin.functions.map (Generate.functionNames A) =
      coin.functions.map fun f => (vmSafe (snakeCase f.name), f.params.map fun q => vmSafe (snakeCase q.name)) := by
  rw [analyze_coin h]
  refine List.map_congr_left fun f hf => ?_
  have hname : A.vmName f.name = vmSafe (snakeCase f.name) := by
    refine analyze_vmName_entry h (k := .function) (List.mem_append_right _ ?_) rfl (.inr rfl)
    exact List.mem_map_of_mem (f := fun f : FunctionDecl => (f.name, SymbolKind.function, vmSafe (snakeCase f.name))) hf
  obtain ⟨syms, hl, hnamed⟩ := analyze_functions h f hf
  have hparams : ∀ q ∈ f.params,
      ((((A.functions.lookup f.name).getD []).find? (·.name == q.name)).map (·.vmName)).getD q.name =
        vmSafe (snakeCase q.name) := by
    intro q hq
    rw [hl, Option.getD_some, hnamed q hq, Option.getD_some]
  simp only [Generate.functionNames, hname, List.map_congr_left hparams]

theorem analyze_actionParams (h : analyze coin codec = .ok A) (hapart : coin.NamesApart)
    {info : ActionInfo} (hi : info ∈ A.actions) :
    Generate.directNames info info.signature =
        info.action.params.map (fun q => vmSafe (snakeCase q.name)) ++
          info.signature.template.drop info.signature.params.length ∧
      (info.action.params.map fun q => vmSafe (snakeCase q.name)).Nodup ∧
      ∀ x ∈ info.action.params.map (fun q => vmSafe (snakeCase q.name)), x ∉ coin.claimedNames := by
  obtain ⟨hmem, hnamed⟩ := analyze_recorded h info hi
  obtain ⟨c, hs, hglobals, hactions, -⟩ := analyze_shown h
  have hchk := hs.actions info (hactions ▸ hi) (by simp)
  refine ⟨directNames_of_named hnamed, hchk.vmNames, fun x hx => ?_⟩
  obtain ⟨q, hq, rfl⟩ := List.mem_map.mp hx
  exact hapart.actions _ hmem q hq

end Checked

/-! ### What each program declares -/

namespace Generate

variable {A : Analysis} {cur sol : List String} {rest : Option String} {ks : List String}
  {fs : List (String × List String)}

theorem onPuzzle_leads {α : Type} {P Q : Puzzle → Prop} {m : PuzzleM α} (h : Leads P Q m)
    {p : Puzzle} (hp : P p) : Ensures A (fun r => Q r.2) (onPuzzle p m) :=
  (onPuzzle_ensures p m).mono fun r hr => h p r.1 r.2 hp hr

/-- A new builder curries the names it is given and declares the coin's constants, under the
names the check gives them. -/
theorem newBuilder_declares (name : String) (path : List Nat) (curried : List String) :
    Ensures A (Declares curried [] none (A.coin.consts.map (A.vmName ·.name)) [])
      (newBuilder name path curried) := by
  unfold newBuilder
  refine ensures_bind ensures_get fun g hg => ensures_bind (onPuzzle_leads (P := Declares [] [] none [] [])
    (Q := Declares curried [] none (A.coin.consts.map (A.vmName ·.name)) []) ?_
    (declares_start _ _ _)) fun r hr => ensures_pure hr
  rw [hg]
  refine leads_bind (declares_curriedParams curried) fun _ => ?_
  refine leads_bind (leads_forIn_seen (fun _ => Declares curried [] none [] [])
    (fun _ _ => leads_yield (declares_addInclude _)) _ []) fun _ => ?_
  refine leads_bind (leads_forIn_seen (fun pre => Declares curried [] none (pre.map (A.vmName ·.name)) [])
    (fun pre k p r p' hp hrun => ?_) _ []) fun _ => leads_pure _
  rw [List.map_append, List.map_singleton]
  exact leads_yield (declares_defconstant _ _) p r p' hp hrun

theorem declares_helpers (mappings merge : Bool) :
    Leads (Declares cur sol rest ks fs)
      (Declares cur sol rest ks (fs ++ helperFunctions mappings merge)) (do
        if mappings then
          defun (.str "mapping_get") (.list (texts ["m", "k"])) (.tree mappingGet) false
          defun (.str "mapping_set") (.list (texts ["m", "k", "v"])) (.tree mappingSet) false
        if merge then defun (.str "merge_list") (.list (texts ["a", "b"])) (.tree mergeList) false) := by
  have hmerge : ∀ fs', Leads (Declares cur sol rest ks fs')
      (Declares cur sol rest ks (fs' ++ if merge then [("merge_list", ["a", "b"])] else []))
      (if merge then defun (.str "merge_list") (.list (texts ["a", "b"])) (.tree mergeList) false
        else pure ()) := by
    intro fs'
    split
    · exact declares_defun _ _ _ _
    · simpa using leads_pure (P := Declares cur sol rest ks fs') ()
  cases mappings
  · simpa [helperFunctions] using hmerge fs
  · refine leads_bind (declares_defun _ _ _ _) fun _ => leads_bind (declares_defun _ _ _ _) fun _ => ?_
    simpa [helperFunctions] using
      hmerge (fs ++ [("mapping_get", ["m", "k"]), ("mapping_set", ["m", "k", "v"])])

/-- Adding the coin's functions declares each of them in its turn, then the helpers the program
uses. -/
theorem addFunctions_declares {p : Puzzle} (hp : Declares cur sol rest ks fs p) :
    Ensures A (fun q => ∃ mappings merge, Declares cur sol rest ks
      (fs ++ A.coin.functions.map (functionNames A) ++ helperFunctions mappings merge) q)
      (addFunctions p) := by
  unfold addFunctions
  refine ensures_bind ensures_get fun g hg => ?_
  rw [hg]
  refine ensures_bind (ensures_forIn_seen
    (fun pre q => Declares cur sol rest ks (fs ++ pre.map (functionNames A)) q) _
    (fun pre f q hq => ?_) A.coin.functions [] p (by simpa using hp)) fun q hq => ?_
  · refine ensures_bind (body_ensures _ _ _) fun code _ => ensures_bind (onPuzzle_leads
      (leads_bind (declares_comment _) fun _ => declares_defun _ _ _ _) hq) fun r hr =>
        ensures_pure ⟨r.2, rfl, ?_⟩
    rw [List.map_append, List.map_singleton, ← List.append_assoc]
    exact hr
  · refine ensures_bind ensures_get fun g' _ => ensures_bind (onPuzzle_leads
      (declares_helpers g'.usesMappings g'.usesMerge) hq) fun r hr =>
        ensures_pure ⟨g'.usesMappings, g'.usesMerge, ?_⟩
    simpa using hr

theorem finish_declares {q : Puzzle} {code : Noted} (hq : Declares cur sol rest ks [] q) :
    Ensures A (fun p => ∃ mappings merge, Declares cur sol rest ks
      (A.coin.functions.map (functionNames A) ++ helperFunctions mappings merge) p)
      (get >>= fun g : Gen => addFunctions { q with remarks := g.remarks } >>= fun p =>
        onPuzzle p (Puzzle.returns (.tree code)) >>= fun r => keepRemarks r.2 >>= fun _ => pure r.2) := by
  refine ensures_bind ensures_get fun g _ => ?_
  refine ensures_bind (addFunctions_declares (hq.withRemarks _)) fun q' ⟨m, m', hq'⟩ => ?_
  refine ensures_bind (onPuzzle_leads (declares_returns _) hq') fun r hr => ?_
  exact ensures_bind (keepRemarks_ensures _) fun _ _ => ensures_pure ⟨m, m', by simpa using hr⟩

/-- How the main program of direct or dispatch mode takes its solution: the action's name with
the rest of the arguments, or the names the spend of the coin's one action carries. -/
def Layout (A : Analysis) (sol : List String) (rest : Option String) : Prop :=
  (sol = ["action"] ∧ rest = some "args") ∨
    ∃ info ∈ A.actions, sol = directNames info info.signature ∧ rest = none

/-- The main program of direct or dispatch mode: it curries the module hash, when the coin has
state, and the storage variables, takes its solution as its layout says, and declares the
coin's constants, its functions and the helpers it uses. -/
def MainProgram (A : Analysis) (p : Puzzle) : Prop :=
  ∃ sol rest mappings merge, Layout A sol rest ∧
    Declares (curriedNames A) sol rest (A.coin.consts.map (A.vmName ·.name))
      (A.coin.functions.map (functionNames A) ++ helperFunctions mappings merge) p

/-- The program of one action in merkle mode: it curries the storage variables, takes the coin's
own puzzle hash, when the coin has state, and the names the action's spend carries, and
declares what the main program of the other modes does. -/
def ActionProgram (A : Analysis) (p : Puzzle) : Prop :=
  ∃ info ∈ A.actions, ∃ mappings merge, Declares (A.storage.map (·.vmName))
    ((if A.hasState then ["self_puzzle_hash"] else []) ++ directNames info info.signature) none
    (A.coin.consts.map (A.vmName ·.name))
    (A.coin.functions.map (functionNames A) ++ helperFunctions mappings merge) p

/-- The main program of merkle mode, whose names are fixed: it curries the module hash, when the
coin has state, and the merkle root, takes the action's name, program, solution and proof, and
declares only the function that walks the proof. -/
def MerkleProgram (A : Analysis) (p : Puzzle) : Prop :=
  Declares ((if A.hasState then ["MOD_HASH"] else []) ++ ["ACTION_MERKLE_ROOT"])
    ["action_name", "action_puzzle", "action_solution", "proof"] none []
    [("merkle_root_from_proof", ["cur", "proof"])] p

theorem single_declares (mode : Mode) :
    Ensures A (MainProgram A) (single mode (A.actions.map ActionInfo.signature)) := by
  unfold single
  refine ensures_bind ensures_get fun g hg => ?_
  rw [hg]
  refine ensures_bind storageNames_ensures fun names hnames => ?_
  subst hnames
  refine ensures_bind (newBuilder_declares _ _ _) fun p hp => ?_
  refine ensures_bind (keepRemarks_ensures p) fun _ _ => ?_
  dsimp only
  split
  · -- direct mode: the solution names what the spend of the one action carries
    rename_i info _ sig _ hacts hsigs
    have hmem : info ∈ A.actions := by rw [hacts]; exact List.mem_cons_self
    have hsig : sig = info.signature := by
      rw [hacts, List.map_cons] at hsigs
      exact (List.cons.inj hsigs).1.symm
    subst hsig
    refine ensures_bind (onPuzzle_leads (declares_solutionParams _) hp) fun r hr => ?_
    refine ensures_bind (actionBody_ensures _ _ _ _) fun code _ => ?_
    refine ensures_bind (ensures_pure (Q := fun r' : Puzzle × Noted =>
      Declares (curriedNames A) (directNames info info.signature) none
        (A.coin.consts.map fun k : ConstDecl => A.vmName k.name) [] r'.1) hr) fun r' hr' => ?_
    exact (finish_declares hr').mono fun p ⟨m, m', hp⟩ =>
      ⟨_, none, m, m', .inr ⟨info, hmem, rfl, rfl⟩, hp⟩
  · -- dispatch mode: the solution is the action's name and the rest its arguments
    refine ensures_bind (onPuzzle_leads (leads_bind (declares_solutionParams ["action"]) fun _ =>
      declares_restParam "args") hp) fun r hr => ?_
    refine ensures_bind (dispatchChain_ensures _ _) fun code _ => ?_
    refine ensures_bind (ensures_pure (Q := fun r' : Puzzle × Noted =>
      Declares (curriedNames A) ["action"] (some "args") (A.coin.consts.map fun k : ConstDecl => A.vmName k.name)
        [] r'.1) hr) fun r' hr' => ?_
    exact (finish_declares hr').mono fun p ⟨m, m', hp⟩ =>
      ⟨_, some "args", m, m', .inl ⟨rfl, rfl⟩, hp⟩

theorem merkle_declares (hnames : (A.actions.map (·.action.name)).Nodup) :
    Ensures A (fun r => MerkleProgram A r.1 ∧ ∀ m ∈ r.2, ActionProgram A m.2)
      (merkle (A.actions.map ActionInfo.signature)) := by
  unfold merkle
  refine ensures_bind ensures_get fun g hg => ?_
  rw [hg]
  dsimp only
  refine ensures_bind (ensures_forIn (fun mods : List (String × Puzzle) => ∀ m ∈ mods, ActionProgram A m.2)
    _ _ (fun x hx mods hmods => ?_) [] fun _ h => (List.not_mem_nil h).elim) fun mods hmods => ?_
  · have hmem : x.1 ∈ A.actions := List.fst_mem_of_mem_zipIdx hx
    refine ensures_bind (ensures_modify fun _ => rfl) fun _ _ => ?_
    rw [find_signature hnames hmem]
    dsimp only
    refine ensures_bind storageNames_ensures fun names hnames' => ?_
    subst hnames'
    refine ensures_bind (newBuilder_declares _ _ _) fun p hp => ?_
    refine ensures_bind (keepRemarks_ensures p) fun _ _ => ?_
    refine ensures_bind (onPuzzle_leads (declares_solutionParams _) hp) fun q hq => ?_
    refine ensures_bind (actionBody_ensures _ _ _ _) fun code _ => ?_
    refine ensures_bind ensures_get fun g' _ => ?_
    refine ensures_bind (addFunctions_declares (hq.withRemarks _)) fun q' ⟨m, m', hq'⟩ => ?_
    refine ensures_bind (onPuzzle_leads (declares_returns _) hq') fun r hr => ?_
    refine ensures_bind (keepRemarks_ensures _) fun _ _ => ensures_pure fun a ha => ?_
    rcases List.mem_append.mp ha with ha | ha
    · exact hmods a ha
    · rw [List.mem_singleton.mp ha]
      exact ⟨x.1, hmem, m, m', by simpa using hr⟩
  refine ensures_bind ensures_get fun g' _ => ?_
  refine ensures_bind (onPuzzle_leads (P := Declares [] [] none [] []) ?_ (declares_start _ [] _))
    fun r hr => ensures_bind (keepRemarks_ensures _) fun _ _ => ensures_pure ⟨hr, hmods⟩
  refine leads_bind (declares_curriedParams _) fun _ => ?_
  refine leads_bind (declares_solutionParams _) fun _ => ?_
  exact leads_bind (declares_defun _ _ _ _) fun _ => declares_returns _

theorem generate_programs (hnames : (A.actions.map (·.action.name)).Nodup) {request : String}
    {codec : AddressCodec} {maxDepth : PuzzleKit.Bound} {g : Generated}
    (hgen : generate A request codec maxDepth = .ok g) :
    ∀ p ∈ g.main :: g.actionMods.map (·.2), MainProgram A p ∨ MerkleProgram A p ∨ ActionProgram A p := by
  unfold generate at hgen
  obtain ⟨mode, -, hgen⟩ := except_bind_ok hgen
  dsimp only at hgen
  obtain ⟨⟨g', st⟩, hrun, hgen⟩ := except_bind_ok hgen
  obtain ⟨_, -, hgen⟩ := except_bind_ok hgen
  cases hgen
  intro p hp
  split at hrun
  · -- merkle mode: the main program and one program for each action
    obtain ⟨⟨main, mods⟩, st₁, hm, hrun⟩ := stateT_bind_ok hrun
    obtain ⟨_, _, -, hrun⟩ := stateT_bind_ok hrun
    cases hrun
    obtain ⟨hmain, hmods⟩ := (merkle_declares hnames _ _ _ rfl hm).1
    rcases List.mem_cons.mp hp with rfl | hp
    · exact .inr (.inl hmain)
    · obtain ⟨m, hm', rfl⟩ := List.mem_map.mp hp
      exact .inr (.inr (hmods m hm'))
  · -- direct and dispatch mode: the main program alone
    obtain ⟨main, st₁, hmain, hrun⟩ := stateT_bind_ok hrun
    obtain ⟨_, _, -, hrun⟩ := stateT_bind_ok hrun
    cases hrun
    rcases List.mem_cons.mp hp with rfl | hp
    · exact .inl (single_declares _ _ _ _ rfl hmain).1
    · exact absurd hp List.not_mem_nil

/-! ### Names from three pools -/

/-- Names the generated programs keep for themselves, in the order in which they can stand
among the fixed names of one program. -/
def programNames : List String :=
  ["MOD_HASH", "self_puzzle_hash", "action", "args", "signer", "my_amount", "state",
    "mapping_get", "mapping_set", "merge_list"]

theorem programNames_nodup : programNames.Nodup := by decide

/-- No generated name is one the programs keep for themselves: all of those are reserved. -/
theorem vmSafe_not_mem_programNames (x : String) : vmSafe x ∉ programNames := by
  have hres : ∀ y ∈ programNames, y ∈ reservedNames ∧ y.toList.getLast? ≠ some '_' := by
    simp [programNames, reservedNames]
  intro hx
  exact vmSafe_ne_of_reserved (hres _ hx).1 (hres _ hx).2 x rfl

/-- Names drawn from three pools are distinct: the generated names the coin claims, the
generated names of one scope's parameters, which avoid the claimed ones, and some of the names
the programs keep for themselves, in their order. -/
theorem nodup_of_pools {l C P R : List String} (hl : l.Perm (C ++ P ++ R)) (hC : C.Nodup)
    (hP : P.Nodup) (hCP : ∀ x ∈ P, x ∉ C) (hgen : ∀ x ∈ C ++ P, ∃ y, x = vmSafe y)
    (hR : R.Sublist programNames) : l.Nodup := by
  refine hl.nodup_iff.mpr (List.nodup_append.mpr ⟨List.nodup_append.mpr ⟨hC, hP, ?_⟩,
    hR.nodup programNames_nodup, ?_⟩)
  · intro a ha b hb hab
    subst hab
    exact hCP a hb ha
  · intro a ha b hb hab
    subst hab
    obtain ⟨y, rfl⟩ := hgen a ha
    exact vmSafe_not_mem_programNames y (hR.subset hb)

theorem helperNames_sublist (mappings merge : Bool) :
    ((helperFunctions mappings merge).map (·.1)).Sublist (programNames.drop 7) := by
  cases mappings <;> cases merge <;> decide

theorem mem_helperFunctions {mappings merge : Bool} {h : String × List String}
    (hh : h ∈ helperFunctions mappings merge) : h ∈ helperFunctions true true := by
  have hsub : (helperFunctions mappings merge).Sublist (helperFunctions true true) := by
    cases mappings <;> cases merge <;> decide
  exact hsub.subset hh

theorem helperParams_not_mem (h : String × List String) (hh : h ∈ helperFunctions true true) :
    ∀ x ∈ h.2, x ∉ programNames.drop 7 := by
  revert h
  decide

theorem template_extras_sublist (s : Signature) :
    (s.template.drop s.params.length).Sublist ["signer", "my_amount", "state"] := by
  simp only [Signature.template, List.append_assoc, List.drop_left]
  cases s.signer <;> cases s.amount <;> cases s.stateful <;> decide

theorem fixed_sublist (b : Bool) {l : List String}
    (hl : l.Sublist ["self_puzzle_hash", "action", "args", "signer", "my_amount", "state"]) :
    ((if b then ["MOD_HASH"] else []) ++ l).Sublist (programNames.take 7) := by
  cases b
  · exact hl.trans (List.sublist_cons_self _ _)
  · exact hl.cons_cons _

theorem spend_sublist (b : Bool) (s : Signature) :
    ((if b then ["self_puzzle_hash"] else []) ++ s.template.drop s.params.length).Sublist
      ["self_puzzle_hash", "action", "args", "signer", "my_amount", "state"] := by
  have hextras := (template_extras_sublist s).trans
    (show ["signer", "my_amount", "state"].Sublist ["action", "args", "signer", "my_amount", "state"]
      by decide)
  cases b
  · exact hextras.trans (List.sublist_cons_self _ _)
  · exact hextras.cons_cons _

theorem coinProgram_bindsOnce {coin : CoinDecl} {codec : AddressCodec}
    (h : analyze coin codec = .ok A) (hapart : coin.NamesApart)
    {c s P E : List String} {rest : Option String} {mappings merge : Bool} {p : Puzzle}
    (hp : Declares (c ++ A.storage.map (·.vmName)) (s ++ P ++ E) rest
      (A.coin.consts.map (A.vmName ·.name))
      (A.coin.functions.map (functionNames A) ++ helperFunctions mappings merge) p)
    (hP : P.Nodup) (hPC : ∀ x ∈ P, x ∉ coin.claimedNames) (hPgen : ∀ x ∈ P, ∃ y, x = vmSafe y)
    (hfixed : (c ++ s ++ rest.toList ++ E).Sublist (programNames.take 7)) : p.BindsOnce := by
  rw [analyze_storage_vmNames h, analyze_constNames h hapart, analyze_functionNames h] at hp
  have hfns : (coin.functions.map fun f => (vmSafe (snakeCase f.name),
      f.params.map fun q => vmSafe (snakeCase q.name))).map (·.1) =
        coin.functions.map fun f => vmSafe (snakeCase f.name) := by
    simp only [List.map_map, Function.comp_def]
  have hC : coin.claimedNames.Nodup := by
    rw [CoinDecl.claimedNames, CoinDecl.declaredNames, ← List.append_assoc]
    exact analyze_claimed_nodup h
  have hH : ∀ y ∈ (helperFunctions mappings merge).map (·.1), y ∈ programNames.drop 7 :=
    fun y hy => (helperNames_sublist mappings merge).subset hy
  refine hp.bindsOnce ?_ fun f hf x hx => ?_
  · -- the claimed names, the parameters and the fixed names, in another order
    refine nodup_of_pools (C := coin.claimedNames) (P := P)
      (R := c ++ s ++ rest.toList ++ E ++ (helperFunctions mappings merge).map (·.1)) ?_ hC hP hPC
      ?_ ?_
    · rw [List.map_append, hfns]
      refine List.perm_iff_count.mpr fun x => ?_
      simp only [CoinDecl.claimedNames, CoinDecl.declaredNames, List.count_append]
      omega
    · intro x hx
      rcases List.mem_append.mp hx with hx | hx
      · simp only [CoinDecl.claimedNames, CoinDecl.declaredNames, List.mem_append, List.mem_map] at hx
        rcases hx with ⟨v, -, rfl⟩ | ⟨k, -, rfl⟩ | ⟨f, -, rfl⟩ <;> exact ⟨_, rfl⟩
      · exact hPgen x hx
    · rw [← List.take_append_drop 7 programNames]
      exact hfixed.append (helperNames_sublist mappings merge)
  · -- a parameter of a function is neither a declared name nor a helper's name
    rw [List.map_append, hfns, ← List.append_assoc]
    have hdecl : coin.consts.map (fun k => vmSafe (upperSnake k.name)) ++
        coin.functions.map (fun f => vmSafe (snakeCase f.name)) = coin.declaredNames := rfl
    rw [hdecl]
    intro hmem
    rcases List.mem_append.mp hmem with hmem | hmem
    · rcases List.mem_append.mp hf with hf | hf
      · obtain ⟨fd, hfd, rfl⟩ := List.mem_map.mp hf
        obtain ⟨q, hq, rfl⟩ := List.mem_map.mp hx
        exact hapart.functions fd hfd q hq hmem
      · exact hapart.helpers x hmem f (mem_helperFunctions hf) hx
    · rcases List.mem_append.mp hf with hf | hf
      · obtain ⟨fd, -, rfl⟩ := List.mem_map.mp hf
        obtain ⟨q, -, rfl⟩ := List.mem_map.mp hx
        exact vmSafe_not_mem_programNames _ (List.mem_of_mem_drop (hH _ hmem))
      · exact helperParams_not_mem f (mem_helperFunctions hf) x hx (hH _ hmem)

end Generate

/-- Every program generated for a coin the check accepts binds each name once, when the coin's
names keep apart where the check does not compare them: in the main program and in each
action's program the curried, solution and rest parameters and the names of the constants and
functions are distinct, and no function takes the name of a constant or function of its
program as a parameter. -/
theorem generate_binds_once {coin : CoinDecl} {codec : AddressCodec} {A : Analysis}
    (hcheck : analyze coin codec = .ok A) (hapart : coin.NamesApart) {request : String}
    {maxDepth : Bound} {g : Generated} (hgen : generate A request codec maxDepth = .ok g) :
    ∀ p ∈ g.main :: g.actionMods.map (·.2), p.BindsOnce := by
  intro p hp
  rcases Generate.generate_programs (analyze_tables hcheck).1 hgen p hp with
    ⟨sol, rest, m, m', hlayout, hd⟩ | hmerkle | ⟨info, hi, m, m', hd⟩
  · -- the main program of direct or dispatch mode
    rcases hlayout with ⟨rfl, rfl⟩ | ⟨info, hi, rfl, rfl⟩
    · exact Generate.coinProgram_bindsOnce hcheck hapart (s := ["action"]) (P := []) (E := []) hd
        List.nodup_nil (fun _ h => (List.not_mem_nil h).elim) (fun _ h => (List.not_mem_nil h).elim)
        (by simpa using Generate.fixed_sublist A.hasState (l := ["action", "args"]) (by decide))
    · obtain ⟨hdirect, hnd, hout⟩ := analyze_actionParams hcheck hapart hi
      rw [hdirect] at hd
      refine Generate.coinProgram_bindsOnce hcheck hapart (s := []) hd hnd hout
        (fun x hx => ?_) ?_
      · obtain ⟨q, -, rfl⟩ := List.mem_map.mp hx
        exact ⟨_, rfl⟩
      · simpa using Generate.fixed_sublist A.hasState (Generate.spend_sublist false info.signature)
  · -- the main program of merkle mode declares only fixed names
    exact hmerkle.bindsOnce (by cases A.hasState <;> decide) (by decide)
  · -- the program of an action in merkle mode
    obtain ⟨hdirect, hnd, hout⟩ := analyze_actionParams hcheck hapart hi
    rw [hdirect, ← List.append_assoc] at hd
    refine Generate.coinProgram_bindsOnce hcheck hapart (c := []) hd hnd hout
      (fun x hx => ?_) ?_
    · obtain ⟨q, -, rfl⟩ := List.mem_map.mp hx
      exact ⟨_, rfl⟩
    · simpa using Generate.fixed_sublist false (Generate.spend_sublist A.hasState info.signature)

/-- The text of a coin of one action that calls a function, with their parameters named apart
from the function. -/
def halvesText : String :=
  "coin Halves \x7b\n  function half(uint64 a) returns uint64 \x7b return a / 2; \x7d\n" ++
    "  action go(uint64 amount) \x7b reserveFee(half(amount)); \x7d\n\x7d\n"

theorem generate_binds_once_halves : ∃ coin A g, parse halvesText = .ok coin ∧
    analyze coin {} = .ok A ∧ coin.NamesApart ∧ generate A "auto" {} (.whole 500) = .ok g ∧
    ∀ p ∈ g.main :: g.actionMods.map (·.2), p.BindsOnce := by
  have hok : ((parse halvesText).bind fun coin => (analyze coin {}).map fun A =>
      decide coin.NamesApart && (generate A "auto" {} (.whole 500)).toBool).toOption = some true := by
    decide +kernel
  cases hp : parse halvesText with
  | error e => rw [hp] at hok; cases hok
  | ok coin =>
    rw [hp] at hok
    change ((analyze coin {}).map fun A =>
      decide coin.NamesApart && (generate A "auto" {} (.whole 500)).toBool).toOption = some true at hok
    cases ha : analyze coin {} with
    | error e => rw [ha] at hok; cases hok
    | ok A =>
      rw [ha] at hok
      obtain ⟨hn, hgen⟩ := Bool.and_eq_true_iff.mp (Option.some.inj hok)
      cases hg : generate A "auto" {} (.whole 500) with
      | error e => rw [hg] at hgen; cases hgen
      | ok g =>
        exact ⟨coin, A, g, rfl, ha, of_decide_eq_true hn, hg, generate_binds_once ha (of_decide_eq_true hn) hg⟩

end PuzzleKit.Script
