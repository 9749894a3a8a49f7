import PuzzleKit.Proofs.ProgramNames

/-!
# The slots a spend's solution fills

`Compiled.solution` lays out the values of a spend, and the generator writes, on its own, the
code that reads them. In direct mode the program takes, after its curried names, the solution
names of the coin's one action, one for each name of the action's template, and its body is the
code generated for that action with the `i`-th of those parameters as the slot of the `i`-th
name (`compileSource_directReady`). In merkle mode the program of each action takes, after the
storage and, for a coin with state, `self_puzzle_hash`, the same names, and the main program
runs it on the coin's own puzzle hash consed onto the action's solution
(`compileSource_merkleLayout`). With the dispatch of dispatch mode, every solution meets the
interface of the program it was made for (`solution_meets_interface`).
-/

namespace PuzzleKit

open Build Build.Puzzle Meaning Script

/-! ### Programs that return one code -/

namespace Script.Generate

variable {A : Analysis} {cur sol : List String} {ks : List String}
  {fs : List (String × List String)} {α β : Type}

/-- `code` is, up to remarks, the code generated from the coin `A` for the action `info` that
reads the names of its template from `slots`, in order. -/
def BodyWith (A : Analysis) (info : ActionInfo) (slots : List Noted) (selfHash : Noted)
    (code : Tree) : Prop :=
  ∃ g g' body, g.analysis = A ∧
    (actionBody info info.signature slots selfHash).run g = .ok (body, g') ∧ body.tree = code

/-- The parameter list of a program that takes the names `names` and no rest. -/
def paramsTree (names : List String) : Tree := (Noted.ofList (names.map sym)).tree

/-- A builder of a program that takes the curried names `cur`, then the solution names `sol`
and no rest, and whose body is a step that only stops and then the code `code`. -/
structure Shaped (cur sol : List String) (code : Tree) (p : Puzzle) : Prop where
  declares : ∃ ks fs, Declares cur sol none ks fs p
  steps : ∃ notes, p.steps = [(notes, .stop)]
  tail : ∃ t, p.tail = some t ∧ t.tree = code

theorem ensures_and {P Q : α → Prop} {x : GenM α} (hP : Ensures A P x) (hQ : Ensures A Q x) :
    Ensures A (fun a => P a ∧ Q a) x :=
  fun g r g' hA h => ⟨⟨(hP g r g' hA h).1, (hQ g r g' hA h).1⟩, (hP g r g' hA h).2⟩

theorem leads_open {P Q : Puzzle → Prop} {m : PuzzleM α} {b : Body} (hl : Leads P Q m)
    (hk : KeepsBody b m) : Leads (fun p => P p ∧ p.body = b) (fun p => Q p ∧ p.body = b) m :=
  fun p a p' hp h => ⟨hl p a p' hp.1 h, hk p a p' hp.2 h⟩

theorem newBuilder_opens (name : String) (path : List Nat) (curried : List String) :
    Ensures A (fun p => Declares curried [] none (A.coin.consts.map (A.vmName ·.name)) [] p ∧
      p.body = .mk [] none) (newBuilder name path curried) :=
  ensures_and (newBuilder_declares name path curried) (newBuilder_ensures name path curried)

theorem leads_returns_shaped (code : Noted) :
    Leads (fun p => (∃ ks fs, Declares cur sol none ks fs p) ∧ p.body = .mk [] none)
      (Shaped cur sol code.tree) (Puzzle.returns (.tree code)) := by
  intro p u p' ⟨⟨ks, fs, hd⟩, hb⟩ h
  obtain ⟨t, hsteps, htail, ht⟩ := returns_run h
  have hempty : p.steps = [] := (Body.mk.inj hb).1
  refine ⟨⟨ks, fs, declares_returns _ p u p' hd h⟩, ⟨p.pending, ?_⟩, t, htail, ht⟩
  rw [hsteps, hempty, List.nil_append]

theorem finish_shaped {q : Puzzle} {code : Noted} (hq : Declares cur sol none ks [] q)
    (hb : q.body = .mk [] none) {Q : β → Prop} {k : Puzzle → GenM β}
    (hk : ∀ p, Shaped cur sol code.tree p → Ensures A Q (k p)) :
    Ensures A Q (get >>= fun g : Gen => addFunctions { q with remarks := g.remarks } >>= fun p =>
      onPuzzle p (Puzzle.returns (.tree code)) >>= fun r => keepRemarks r.2 >>= fun _ => k r.2) := by
  refine ensures_bind ensures_get fun g _ => ?_
  refine ensures_bind (ensures_and (addFunctions_declares (hq.withRemarks _))
    (addFunctions_ensures _)) fun q' ⟨⟨m, m', hq'⟩, hbody⟩ => ?_
  refine ensures_bind (onPuzzle_leads (leads_returns_shaped code)
    ⟨⟨_, _, hq'⟩, hbody.trans hb⟩) fun r hr => ?_
  exact ensures_bind (keepRemarks_ensures _) fun _ _ => hk r.2 hr

end Script.Generate

namespace Build.Puzzle

variable {cur sol : List String} {ks : List String} {fs : List (String × List String)}
  {p p' : Puzzle} {el : Noted}

theorem Declares.paramsElement (h : Declares cur sol none ks fs p) :
    p.paramsElement = .ok (Noted.ofList ((cur ++ sol).map sym)) := by
  unfold Puzzle.paramsElement
  rw [h.rest, h.curried, h.solution, ← List.map_append, mapM_symOf]
  rfl

theorem build_params (h : build.run p = .ok el p') {params : Noted}
    (hp : p.paramsElement = .ok params) : el.tree.spine[1]? = some params.tree := by
  obtain ⟨body, p₁, h1, h⟩ := run_bind_ok h
  -- building the body changes only the remarks, which the parameters do not read
  have hp₁ : p₁.paramsElement = .ok params := by
    unfold buildBody at h1
    obtain ⟨q, p₂, h2, h1⟩ := run_bind_ok h1
    cases h2
    split at h1
    · obtain ⟨_, _, h3, h1⟩ := run_bind_ok h1
      cases h3
      cases h1
      exact hp
    · obtain ⟨_, _, h3, h1⟩ := run_bind_ok h1
      cases h1
  obtain ⟨q, p₂, h2, h⟩ := run_bind_ok h
  cases h2
  obtain ⟨incs, p₃, h3, h⟩ := run_bind_ok h
  obtain ⟨params', p₄, h4, h⟩ := run_bind_ok h
  rw [hp₁] at h4
  cases h4
  cases h
  simp [Noted.tree_ofList, Meaning.spine_ofList]

end Build.Puzzle

namespace Script.Generate

variable {cur sol : List String} {p p' : Puzzle} {el : Noted}

theorem Shaped.withRemarks {code : Tree} (h : Shaped cur sol code p) (rm : Remarks) :
    Shaped cur sol code { p with remarks := rm } :=
  ⟨h.declares.imp fun _ => Exists.imp fun _ hd => hd.withRemarks rm, h.steps, h.tail⟩

theorem Shaped.build {code : Tree} (h : Shaped cur sol code p)
    (hb : build.run p = .ok el p') :
    el.tree.spine[1]? = some (paramsTree (cur ++ sol)) ∧ el.tree.spine.getLast? = some code := by
  obtain ⟨_, _, hd⟩ := h.declares
  obtain ⟨notes, hsteps⟩ := h.steps
  obtain ⟨t, htail, ht⟩ := h.tail
  refine ⟨build_params hb hd.paramsElement, ?_⟩
  rw [build_last hb (by simp [hsteps]) htail, ht]

end Script.Generate

/-! ### Direct mode -/

namespace Script.Generate

variable {A : Analysis}

theorem single_direct_ensures {info : ActionInfo} {rest : List ActionInfo}
    (hacts : A.actions = info :: rest) :
    Ensures A (fun p => ∃ code, BodyWith A info ((directNames info info.signature).map sym)
        (selfPuzzleHash (curriedNames A)) code ∧
      Shaped (curriedNames A) (directNames info info.signature) code p)
      (single .direct (A.actions.map ActionInfo.signature)) := by
  unfold single
  refine ensures_bind ensures_get fun g hg => ?_
  subst hg
  refine ensures_bind storageNames_ensures fun names hnames => ?_
  subst hnames
  refine ensures_bind (newBuilder_opens _ _ _) fun p hp => ?_
  refine ensures_bind (keepRemarks_ensures p) fun _ _ => ?_
  simp only [hacts, List.map_cons]
  refine ensures_bind (onPuzzle_leads (leads_open (declares_solutionParams _)
    (keepsBody_solutionParams _)) hp) fun r hr => ?_
  refine ensures_bind (actionBody_ensures _ _ _ _).run fun code hcode => ?_
  refine ensures_bind (ensures_pure (Q := fun r' : Puzzle × Noted => r' = (r.2, code)) rfl)
    fun r' hr' => ?_
  subst hr'
  exact finish_shaped hr.1 hr.2 fun q hq => ensures_pure ⟨code.tree, by
    obtain ⟨g₁, g₂, hA, hrun⟩ := hcode
    exact ⟨g₁, g₂, code, hA, hrun, rfl⟩, hq⟩

theorem pickMode_direct {request : String} (h : pickMode A request = .ok .direct) :
    A.coin.actions.length = 1 := by
  unfold pickMode at h
  split at h
  · simp only [pure, Except.pure, Except.ok.injEq] at h
    split_ifs at h with hm hn
    simpa using hn
  · simp only at h
    split_ifs at h with hn
    simpa using hn
  all_goals cases h

/-! ### Merkle mode -/

/-- The names the main program of merkle mode curries. -/
def merkleCurried (A : Analysis) : List String :=
  (if A.hasState then ["MOD_HASH"] else []) ++ ["ACTION_MERKLE_ROOT"]

/-- The body of the main program of merkle mode: when the proof leads from the action's leaf to
the root, it runs the action's program on the action's solution, behind the coin's own puzzle
hash for a coin with state. -/
def merkleMain (A : Analysis) : Noted :=
  ifNode merkleCheck (call "a" [sym "action_puzzle",
      if A.hasState then call "c" [selfPuzzleHash (merkleCurried A), sym "action_solution"]
      else sym "action_solution"])
    (failNode (some "invalid action proof"))

/-- The program of the action `info` in merkle mode: it curries the storage, takes the coin's
own puzzle hash for a coin with state and then the solution names of the action, and returns
the code generated for the action reading the names of its template from those. -/
def ActionShaped (A : Analysis) (info : ActionInfo) (p : Puzzle) : Prop :=
  ∃ code, BodyWith A info ((directNames info info.signature).map sym)
      (if A.hasState then sym "self_puzzle_hash" else Noted.nil) code ∧
    Shaped (A.storage.map (·.vmName))
      ((if A.hasState then ["self_puzzle_hash"] else []) ++ directNames info info.signature) code p

theorem ensures_forIn_among {γ : Type} (I : List γ → β → Prop) {body : γ → β → GenM (ForInStep β)} :
    ∀ (xs pre : List γ) (b : β), (∀ pre x b, x ∈ xs → I pre b →
      Ensures A (fun r => ∃ b', r = .yield b' ∧ I (pre ++ [x]) b') (body x b)) →
      I pre b → Ensures A (I (pre ++ xs)) (forIn xs b body)
  | [], pre, b, _, hb => ensures_pure (by simpa using hb)
  | x :: xs, pre, b, h, hb => by
    rw [List.forIn_cons]
    refine ensures_bind (h pre x b List.mem_cons_self hb) fun r ⟨b', hr, hb'⟩ => ?_
    subst hr
    have hrest := ensures_forIn_among I xs (pre ++ [x]) b'
      (fun pre y b hy => h pre y b (List.mem_cons_of_mem _ hy)) hb'
    rwa [List.append_assoc, List.singleton_append] at hrest

theorem merkle_shaped (hnames : (A.actions.map (·.action.name)).Nodup) :
    Ensures A (fun r => Shaped (merkleCurried A)
        ["action_name", "action_puzzle", "action_solution", "proof"] (merkleMain A).tree r.1 ∧
      List.Forall₂ (fun info m => m.1 = info.action.name ∧ ActionShaped A info m.2) A.actions r.2)
      (merkle (A.actions.map ActionInfo.signature)) := by
  unfold merkle
  refine ensures_bind ensures_get fun g hg => ?_
  rw [hg]
  dsimp only
  refine ensures_bind (ensures_forIn_among (fun pre (mods : List (String × Puzzle)) =>
      List.Forall₂ (fun info m => m.1 = info.action.name ∧ ActionShaped A info m.2)
        (pre.map (·.1)) mods) _ [] []
      (fun pre x mods hx hmods => ?_) .nil) fun mods hmods => ?_
  · have hmem : x.1 ∈ A.actions := List.fst_mem_of_mem_zipIdx hx
    refine ensures_bind (ensures_modify fun _ => rfl) fun _ _ => ?_
    rw [find_signature hnames hmem]
    dsimp only
    refine ensures_bind storageNames_ensures fun names hnames' => ?_
    subst hnames'
    refine ensures_bind (newBuilder_opens _ _ _) fun p hp => ?_
    refine ensures_bind (keepRemarks_ensures p) fun _ _ => ?_
    refine ensures_bind (onPuzzle_leads (leads_open (declares_solutionParams _)
      (keepsBody_solutionParams _)) hp) fun q hq => ?_
    refine ensures_bind (actionBody_ensures _ _ _ _).run fun code ⟨g₁, g₂, hA, hrun⟩ => ?_
    have hslots : (if A.hasState = true then ((if A.hasState = true then ["self_puzzle_hash"]
        else []) ++ directNames x.1 x.1.signature).drop 1 else (if A.hasState = true then
        ["self_puzzle_hash"] else []) ++ directNames x.1 x.1.signature) =
        directNames x.1 x.1.signature := by
      cases A.hasState <;> rfl
    rw [hslots] at hrun
    rw [List.nil_append] at hq
    refine finish_shaped (k := fun p => pure (ForInStep.yield (mods ++ [(x.1.action.name, p)])))
      hq.1 hq.2 fun r hr => ensures_pure ⟨_, rfl, ?_⟩
    rw [List.map_append, List.map_singleton]
    exact List.rel_append hmods (.cons ⟨rfl, code.tree, ⟨g₁, g₂, code, hA, hrun, rfl⟩, hr⟩ .nil)
  refine ensures_bind ensures_get fun g' _ => ?_
  refine ensures_bind (onPuzzle_leads (P := fun p => Declares [] [] none [] [] p ∧
    p.body = .mk [] none) (Q := Shaped (merkleCurried A)
      ["action_name", "action_puzzle", "action_solution", "proof"] (merkleMain A).tree) ?_
    ⟨declares_start _ [] _, rfl⟩) fun r hr => ?_
  · refine leads_bind (leads_open (declares_curriedParams _) (keepsBody_curriedParams _)) fun _ => ?_
    refine leads_bind (leads_open (declares_solutionParams _) (keepsBody_solutionParams _)) fun _ => ?_
    refine leads_bind (leads_open (declares_defun _ _ _ _) (keepsBody_defun _ _ _ _)) fun _ => ?_
    exact fun p u p' hp h => leads_returns_shaped (merkleMain A) p u p' ⟨⟨_, _, hp.1⟩, hp.2⟩ h
  refine ensures_bind (keepRemarks_ensures _) fun _ _ => ensures_pure ⟨hr, ?_⟩
  have hfst : (A.actions.zipIdx.map (·.1)) = A.actions := List.zipIdx_map_fst 0 A.actions
  simpa [hfst] using hmods

end Script.Generate

theorem generate_direct {A : Analysis} {request : String} {codec : AddressCodec}
    {maxDepth : Bound} {g : Generated} (h : generate A request codec maxDepth = .ok g)
    (hm : g.mode = .direct) {info : ActionInfo} {rest : List ActionInfo}
    (hacts : A.actions = info :: rest) :
    A.coin.actions.length = 1 ∧ ∃ code, Generate.BodyWith A info
        ((Generate.directNames info info.signature).map sym)
        (Generate.selfPuzzleHash (Generate.curriedNames A)) code ∧
      Generate.Shaped (Generate.curriedNames A) (Generate.directNames info info.signature) code g.main := by
  unfold generate at h
  obtain ⟨mode, hmode, h⟩ := except_bind_ok h
  dsimp only at h
  obtain ⟨⟨g', st⟩, hrun, h⟩ := except_bind_ok h
  obtain ⟨_, -, h⟩ := except_bind_ok h
  cases h
  split at hrun
  · rename_i hmerkle
    obtain ⟨_, _, -, hrun⟩ := stateT_bind_ok hrun
    obtain ⟨_, _, -, hrun⟩ := stateT_bind_ok hrun
    cases hrun
    simp only at hm
    simp [hm] at hmerkle
  · obtain ⟨main, st₁, hmain, hrun⟩ := stateT_bind_ok hrun
    obtain ⟨_, _, -, hrun⟩ := stateT_bind_ok hrun
    cases hrun
    simp only at hm ⊢
    subst hm
    exact ⟨Generate.pickMode_direct hmode,
      (Generate.single_direct_ensures hacts _ _ _ rfl hmain).1⟩

theorem generate_merkle {A : Analysis} {request : String} {codec : AddressCodec}
    {maxDepth : Bound} {g : Generated} (h : generate A request codec maxDepth = .ok g)
    (hm : g.mode = .merkle) (hnames : (A.actions.map (·.action.name)).Nodup) :
    Generate.Shaped (Generate.merkleCurried A)
        ["action_name", "action_puzzle", "action_solution", "proof"]
        (Generate.merkleMain A).tree g.main ∧
      List.Forall₂ (fun info m => m.1 = info.action.name ∧ Generate.ActionShaped A info m.2)
        A.actions g.actionMods := by
  unfold generate at h
  obtain ⟨mode, -, h⟩ := except_bind_ok h
  dsimp only at h
  obtain ⟨⟨g', st⟩, hrun, h⟩ := except_bind_ok h
  obtain ⟨_, -, h⟩ := except_bind_ok h
  cases h
  split at hrun
  · obtain ⟨⟨main, mods⟩, st₁, hmain, hrun⟩ := stateT_bind_ok hrun
    obtain ⟨_, _, -, hrun⟩ := stateT_bind_ok hrun
    cases hrun
    exact (Generate.merkle_shaped hnames _ _ _ rfl hmain).1
  · rename_i hmerkle
    obtain ⟨_, _, -, hrun⟩ := stateT_bind_ok hrun
    obtain ⟨_, _, -, hrun⟩ := stateT_bind_ok hrun
    cases hrun
    simp only at hm
    simp [hm] at hmerkle

/-! ### What compilation guarantees -/

section Lists

variable {α β γ : Type} {R : α → β → Prop}

theorem forall₂_exists_right {l₁ : List α} {l₂ : List β} (h : List.Forall₂ R l₁ l₂) {a : α}
    (ha : a ∈ l₁) : ∃ b ∈ l₂, R a b := by
  induction h with
  | nil => cases ha
  | cons hab _ ih =>
    rcases List.mem_cons.mp ha with rfl | ha
    · exact ⟨_, List.mem_cons_self, hab⟩
    · obtain ⟨b, hb, hr⟩ := ih ha
      exact ⟨b, List.mem_cons_of_mem _ hb, hr⟩

theorem forall₂_map_eq {l₁ : List α} {l₂ : List β} (h : List.Forall₂ R l₁ l₂) {f : α → γ}
    {g : β → γ} (hfg : ∀ a b, R a b → f a = g b) : l₁.map f = l₂.map g := by
  induction h with
  | nil => rfl
  | cons hab _ ih => rw [List.map_cons, List.map_cons, hfg _ _ hab, ih]

end Lists

namespace Script.Compiled

open Generate

/-- What compiling a coin in direct mode guarantees (`compileSource_directReady`): the coin has
the one action `info`; the program takes, after the curried names of the coin, the solution
names of that action, and its body is the code generated for the action with the `i`-th of them
as the slot of the `i`-th name of its template. -/
structure DirectReady (c : Compiled) (A : Analysis) (info : ActionInfo) : Prop where
  mode : c.mode = .direct
  signatures : c.signatures = [info.signature]
  params : c.mod.spine[1]? = some (paramsTree (curriedNames A ++ directNames info info.signature))
  body : ∃ code, c.mod.spine.getLast? = some code ∧
    BodyWith A info ((directNames info info.signature).map sym) (selfPuzzleHash (curriedNames A))
      code

/-- The program `m` of the action `info` of a coin compiled in merkle mode: under the action's
name, it takes, after the storage and, for a coin with state, the coin's own puzzle hash, the
solution names of the action, and its body is the code generated for the action with the
`i`-th of them as the slot of the `i`-th name of its template. -/
structure ActionReady (c : Compiled) (A : Analysis) (info : ActionInfo) (m : Tree) : Prop where
  program : c.actionMods.lookup info.action.name = some m
  params : m.spine[1]? = some (paramsTree (A.storage.map (·.vmName) ++
    ((if A.hasState then ["self_puzzle_hash"] else []) ++ directNames info info.signature)))
  body : ∃ code, m.spine.getLast? = some code ∧
    BodyWith A info ((directNames info info.signature).map sym)
      (if A.hasState then sym "self_puzzle_hash" else Noted.nil) code

/-- What compiling a coin in merkle mode guarantees (`compileSource_merkleLayout`): the main
program takes the action's name, program, solution and proof, and runs the program on the
solution, behind the coin's own puzzle hash for a coin with state; every action has its
program. -/
structure MerkleLayout (c : Compiled) (A : Analysis) : Prop where
  mode : c.mode = .merkle
  signatures : c.signatures = A.actions.map ActionInfo.signature
  params : c.mod.spine[1]? = some (paramsTree (merkleCurried A ++
    ["action_name", "action_puzzle", "action_solution", "proof"]))
  main : c.mod.spine.getLast? = some (merkleMain A).tree
  actions : ∀ info ∈ A.actions, ∃ m, c.ActionReady A info m

end Script.Compiled

variable {src : String} {opts : CompileOptions} {log log' : List String} {c : Compiled}

/-- Compiling a coin in direct mode makes the program of its one action. -/
theorem compileSource_directReady (hc : (compileSource src opts).run log = .ok c log')
    (hm : c.mode = .direct) (hne : c.signatures ≠ []) : ∃ A info, c.DirectReady A info := by
  obtain ⟨coin, A, g, el, p', -, hA, hg, hbuild, hmode, hmodc, hsigs, -⟩ := compileSource_main hc
  have hsigs' : c.signatures = A.actions.map ActionInfo.signature :=
    hsigs.trans (generate_signatures hg)
  obtain ⟨info, rest, hacts⟩ : ∃ info rest, A.actions = info :: rest := by
    cases h : A.actions with
    | nil => exact absurd (by rw [hsigs', h]; rfl) hne
    | cons info rest => exact ⟨info, rest, rfl⟩
  obtain ⟨hone, code, hbody, hshaped⟩ := generate_direct hg (hmode ▸ hm) hacts
  have hrest : rest = [] := by
    have hsub : A.actions.map (·.action.name) ⊆ A.coin.actions.map (·.name) := fun n hn => by
      obtain ⟨i, hi, rfl⟩ := List.mem_map.mp hn
      rw [analyze_coin hA]
      exact List.mem_map.mpr ⟨i.action, analyze_actions hA i hi, rfl⟩
    have hle := (List.Nodup.subperm (analyze_tables hA).1 hsub).length_le
    simp only [List.length_map, hacts, List.length_cons, hone] at hle
    exact List.eq_nil_of_length_eq_zero (by omega)
  obtain ⟨hparams, hlast⟩ := (hshaped.withRemarks g.remarks).build hbuild
  refine ⟨A, info, hm, ?_, ?_, code, ?_, hbody⟩
  · rw [hsigs', hacts, hrest]
    rfl
  · rw [hmodc, hparams]
  · rw [hmodc, hlast]

/-- Compiling a coin in merkle mode makes the main program that checks the proof and, under the
name of each action, its program. -/
theorem compileSource_merkleLayout (hc : (compileSource src opts).run log = .ok c log')
    (hm : c.mode = .merkle) : ∃ A, c.MerkleLayout A := by
  obtain ⟨coin, A, g, el, p', -, hA, hg, hbuild, hmode, hmodc, hsigs, hmods⟩ :=
    compileSource_main hc
  have hnames : (A.actions.map (·.action.name)).Nodup := (analyze_tables hA).1
  obtain ⟨hmain, hacts⟩ := generate_merkle hg (hmode ▸ hm) hnames
  have hmods := hmods (hmode ▸ hm)
  obtain ⟨hparams, hlast⟩ := (hmain.withRemarks g.remarks).build hbuild
  -- the compiled programs stand under the names of the actions, each once
  have hfst : c.actionMods.map Prod.fst = A.actions.map (·.action.name) :=
    (forall₂_map_eq hmods fun _ _ h => h.1.symm).symm.trans
      (forall₂_map_eq hacts fun _ _ h => h.1.symm).symm
  refine ⟨A, hm, hsigs.trans (generate_signatures hg), by rw [hmodc, hparams],
    by rw [hmodc, hlast], fun info hi => ?_⟩
  obtain ⟨q, hq, hqname, code, hbody, hshaped⟩ := forall₂_exists_right hacts hi
  obtain ⟨x, hx, hxname, el', rm, hb', hxt⟩ := forall₂_exists_right hmods hq
  obtain ⟨hp', hl'⟩ := (hshaped.withRemarks g.remarks).build hb'
  have hmem : (info.action.name, x.2) ∈ c.actionMods := by
    rw [← hqname, ← hxname]
    exact hx
  exact ⟨x.2, lookup_of_mem (hfst ▸ hnames) hmem, by rw [hxt, hp'], code, by rw [hxt, hl'], hbody⟩

/-! ### The interface -/

/-- What the interface of a compiled program asks of the solution `sol` of a spend of `action`.
Its values `V` are one for each name of the action's template: the carried values coerced, then
the code of the state. In direct mode the solution is `V`, and the program takes, after its
curried names, the solution names of the action, the `i`-th of them the slot of the `i`-th name
of the template. In merkle mode the solution is the action's name, its program curried with the
storage, `V` and the proof; the program takes the same names after the storage and the coin's
own puzzle hash, which the main program puts in front of `V`. In dispatch mode the solution is
the selector followed by `V`; the body of the program runs the code generated for the action
under the selector, that code reads the `i`-th name from the slot `(f (r … (r args)))`, which
holds the `i`-th value, and a selector that names no action, other than the empty one of a coin
with a default action, reaches the failure. -/
def Script.Compiled.MeetsInterface (c : Compiled) (action : Option String) (args : List Value)
    (signer amount state : Option Value) (sol : Noted) : Prop :=
  ∃ (sig : Script.Signature) (V : List Noted), c.signature action = .ok sig ∧
    args.length = sig.params.length ∧ V.length = sig.template.length ∧
    (∃ xs st, V = xs ++ st ∧
      List.Forall₂ (fun v x => coerce (c.spendValue v) = .ok x)
        (carriedValues sig args signer amount) xs ∧
      (if sig.stateful then ∃ s el, state = some s ∧ c.StateCode s el ∧ st = [el] else st = [])) ∧
    (c.mode = .direct → sol = Noted.ofList V ∧
      ∃ A info, c.DirectReady A info ∧ sig = info.signature ∧
        (Generate.directNames info sig).length = V.length) ∧
    (c.mode = .merkle → ∃ (A : Analysis) (info : ActionInfo) (m : Tree) (el : Noted)
        (proof : List (List UInt8)),
      c.MerkleLayout A ∧ info ∈ A.actions ∧ sig = info.signature ∧ c.ActionReady A info m ∧
      (Generate.directNames info sig).length = V.length ∧ coerce (.str sig.name) = .ok el ∧
      sol = Noted.ofList [el, Noted.ofTree (curry m (c.storage.map (·.2.tree))), Noted.ofList V,
        Noted.ofList (proof.map fun h => .atom h .bytes (.own []))]) ∧
    (c.mode = .dispatch → sol = Noted.ofList (selectorOf sig action :: V) ∧
      ∃ A codes code, c.DispatchReady A codes ∧
        codes.find? (·.1 == sig.name) = some (sig.name, code) ∧
        Generate.BodyOf A c.signatures (Generate.selfPuzzleHash (Generate.curriedNames A))
          sig.name code ∧
        (∀ (defs : List Defun) (env : Meaning.Env), NoOperatorDefs defs →
          env.lookup "action" = some (selectorOf sig action).tree →
          env.lookup "args" = some (Noted.ofList V).tree →
          (∀ v, Evaluates defs env (Generate.dispatchOn codes).tree v ↔
            Evaluates defs env code.tree v) ∧
          ∀ (i : Nat) (hi : i < V.length),
            Evaluates defs env (Script.nth (sym "args") i).tree (V.get ⟨i, hi⟩).tree) ∧
        ∀ (s : List UInt8) (hint : Hint), (∀ sg ∈ c.signatures, s ≠ sg.name.toUTF8.toList) →
          (s = [] → ∀ sg ∈ c.signatures, sg.name ≠ "default") →
          ∀ (defs : List Defun) (env : Meaning.Env), NoOperatorDefs defs →
            env.lookup "action" = some (.atom s hint) →
            ∀ v, Evaluates defs env (Generate.dispatchOn codes).tree v ↔
              Evaluates defs env (failNode (some "unknown action")).tree v)

/-- Every solution of a compiled program meets the program's interface. -/
theorem solution_meets_interface (hc : (compileSource src opts).run log = .ok c log')
    {action : Option String} {args : List Value} {signer amount state : Option Value} {sol : Noted}
    (hs : c.solution action args signer amount state = .ok sol) :
    c.MeetsInterface action args signer amount state sol := by
  obtain ⟨sig, inner, hsig, hinner, hplain, -⟩ := solution_cases hs
  obtain ⟨hargs, hsigner, hamount, xs, st, hxs, hst, hitems⟩ := actionSolution_items hinner
  have hlen : (xs ++ st).length = sig.template.length := by
    rw [← carriedValues_length hargs hsigner hamount, List.length_append, ← hxs.length_eq]
    split at hst
    · obtain ⟨_, _, -, -, rfl⟩ := hst
      rw [if_pos ‹_›]
      rfl
    · rw [hst, if_neg ‹_›]
      rfl
  have hbuild : c.mode ≠ .dispatch → inner.build = Noted.ofList (xs ++ st) := fun hm => by
    rw [Solution.build, hitems, if_neg hm, List.nil_append]
  refine ⟨sig, xs ++ st, hsig, hargs, hlen, ⟨xs, st, rfl, hxs, hst⟩, fun hm => ?_, fun hm => ?_,
    fun hm => ?_⟩
  · obtain ⟨A, info, hready⟩ :=
      compileSource_directReady hc hm (List.ne_nil_of_mem (signature_mem hsig))
    have hsig' : sig = info.signature := by
      have hmem := signature_mem hsig
      rw [hready.signatures] at hmem
      exact List.mem_singleton.mp hmem
    refine ⟨by rw [hplain (by rw [hm]; decide), hbuild (by rw [hm]; decide)], A, info, hready,
      hsig', ?_⟩
    rw [hsig', Generate.directNames_length, ← hsig', hlen]
  · obtain ⟨A, hlayout⟩ := compileSource_merkleLayout hc hm
    obtain ⟨t, ht⟩ := compileSource_merkleReady hc hm
    obtain ⟨sig', inner', prog, proof, el, hsig', hinner', hprog, -, hel, hsol⟩ :=
      solution_merkle hm ht.tree hs
    rw [hsig] at hsig'
    cases hsig'
    rw [hinner] at hinner'
    cases hinner'
    have hmem := signature_mem hsig
    rw [hlayout.signatures] at hmem
    obtain ⟨info, hi, rfl⟩ := List.mem_map.mp hmem
    obtain ⟨m, hready⟩ := hlayout.actions info hi
    have hprog' : prog = curry m (c.storage.map (·.2.tree)) := by
      unfold Compiled.actionPuzzle at hprog
      rw [show info.signature.name = info.action.name from rfl, hready.program] at hprog
      exact (Except.ok.inj hprog).symm
    refine ⟨A, info, m, el, proof, hlayout, hi, rfl, hready,
      by rw [Generate.directNames_length, hlen], hel, ?_⟩
    rw [hsol, hprog', hbuild (by rw [hm]; decide)]
  · obtain ⟨A, codes, hready⟩ := compileSource_dispatchReady hc hm
    obtain ⟨code, hfind, hbody, hsel⟩ := hready.selects hsig
    refine ⟨?_, A, codes, code, hready, hfind, hbody,
      fun defs env hd haction hvals => ⟨hsel defs env hd haction, fun i hi => ?_⟩, hready.unknown⟩
    · rw [hplain (by rw [hm]; decide), Solution.build, hitems, if_pos hm]
      rfl
    · -- the slot reads the list the solution binds to args
      have hv : Evaluates defs env (sym "args").tree
          (Tree.ofList ((xs ++ st).map Noted.tree) Tree.nil) := by
        apply evaluates_sym
        rw [hvals, Noted.tree_ofList]
        rfl
      have hslot := evaluates_nth hd i hv (by simpa using hi)
      rwa [List.getElem_map] at hslot

/-- A coin of one action `pay` that reserves the fee it is given. -/
def payText : String := "coin Pay \x7b\n  action pay(uint64 amount) \x7b\n    reserveFee(amount);\n  \x7d\n\x7d\n"

theorem solution_meets_interface_pay : ∃ c log' sol,
    (compileSource payText {}).run [] = .ok c log' ∧
      c.solution none [.int 5] none none none = .ok sol ∧
      c.MeetsInterface none [.int 5] none none none sol := by
  have hok : (match (compileSource payText {}).run [] with
      | .ok c _ => (c.solution none [.int 5] none none none).toBool
      | .error _ _ => false) = true := by
    decide +kernel
  cases hc : (compileSource payText {}).run [] with
  | error e log' =>
    rw [hc] at hok
    cases hok
  | ok c log' =>
    rw [hc] at hok
    dsimp only at hok
    cases hs : c.solution none [.int 5] none none none with
    | error e =>
      rw [hs] at hok
      cases hok
    | ok sol => exact ⟨c, log', sol, rfl, hs, solution_meets_interface hc hs⟩

end PuzzleKit
