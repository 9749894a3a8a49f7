import PuzzleKit.Proofs.Generation
import PuzzleKit.Proofs.Merkle.Spend
import PuzzleKit.Proofs.Declared

/-!
# A spend's solution meets its program's interface

`Compiled.solution` lays out what a spend of an action carries, and the generator writes, on
its own, the code that reads it. In dispatch mode the body of the main program is `dispatchOn`
the code of each action, in the coin's order (`compileSource_dispatchReady`): a test of the
`action` selector for each action, under a test for the default action. Read with `=` as byte
equality and `not` as the test for the empty atom, it runs the code of the action the selector
names, the default action's for the empty selector or `default`, and the failure for any other
(`dispatchOn_evaluates`). Every solution lists the values of the action's template in its
order, coerced, with the encoded state last: after the selector in dispatch mode, and as the
action's own solution in merkle mode; in dispatch mode the slot `(f (r … (r args)))` of the
`i`-th name reads the `i`-th value (`evaluates_nth`). `Compiled.MeetsInterface` puts these
together with the slots of the direct and merkle programs.
-/

namespace PuzzleKit

open Build Meaning Script

/-! ### Building declarations leaves the body alone -/

namespace Build.Puzzle

variable {α β γ : Type}

/-- A building step that, started on a program with the body `b`, ends with the same body
whenever it succeeds. -/
def KeepsBody (b : Body) (m : PuzzleM α) : Prop :=
  ∀ p a p', p.body = b → m.run p = .ok a p' → p'.body = b

variable {b : Body}

theorem KeepsBody.body_eq {m : PuzzleM α} (h : KeepsBody b m) {p p' : Puzzle} {a : α}
    (hp : p.body = b) (hr : m.run p = .ok a p') : p'.body = b :=
  h p a p' hp hr

theorem keepsBody_pure (a : α) : KeepsBody b (pure a : PuzzleM α) := by
  intro p a' p' hb h
  cases h
  exact hb

theorem keepsBody_bind {x : PuzzleM α} {f : α → PuzzleM β} (hx : KeepsBody b x)
    (hf : ∀ a, KeepsBody b (f a)) : KeepsBody b (x >>= f) := by
  intro p r p' hb h
  obtain ⟨a, p₁, h1, h2⟩ := run_bind_ok h
  exact hf a p₁ r p' (hx p a p₁ hb h1) h2

theorem keepsBody_get_bind {f : Puzzle → PuzzleM α} (hf : ∀ p, p.body = b → KeepsBody b (f p)) :
    KeepsBody b (get >>= f) := by
  intro p r p' hb h
  obtain ⟨q, p₁, h1, h2⟩ := run_bind_ok h
  cases h1
  exact hf p hb p r p' hb h2

theorem keepsBody_set {q : Puzzle} (hq : q.body = b) : KeepsBody b (set q : PuzzleM PUnit) := by
  intro p a p' _ h
  cases h
  exact hq

theorem keepsBody_modify {f : Puzzle → Puzzle} (hf : ∀ p, (f p).body = p.body) :
    KeepsBody b (modify f : PuzzleM PUnit) := by
  intro p a p' hb h
  cases h
  exact (hf p).trans hb

theorem keepsBody_lift (r : Except Failure α) : KeepsBody b (lift r) := by
  intro p a p' hb h
  cases r with
  | ok x =>
    cases h
    exact hb
  | error e => cases h

theorem keepsBody_map {x : PuzzleM α} (f : α → β) (hx : KeepsBody b x) :
    KeepsBody b (EStateM.map f x) := by
  intro p r p' hb h
  simp only [EStateM.run, EStateM.map] at h
  split at h
  · cases h
    exact hx p _ p' hb (by simp only [EStateM.run]; assumption)
  · cases h

theorem keepsBody_throw (e : Failure) : KeepsBody b (throw e : PuzzleM α) := by
  intro p a p' _ h
  cases h

theorem keepsBody_forM (f : γ → PuzzleM PUnit) (hf : ∀ x, KeepsBody b (f x)) :
    ∀ xs : List γ, KeepsBody b (xs.forM f)
  | [] => keepsBody_pure _
  | x :: xs => show KeepsBody b (f x >>= fun _ => xs.forM f) from
    keepsBody_bind (hf x) fun _ => keepsBody_forM f hf xs

theorem keepsBody_forIn (body : γ → β → PuzzleM (ForInStep β))
    (hbody : ∀ x c, KeepsBody b (body x c)) : ∀ (xs : List γ) (c : β), KeepsBody b (forIn xs c body)
  | [], c => keepsBody_pure c
  | x :: xs, c => by
    rw [List.forIn_cons]
    refine keepsBody_bind (hbody x c) fun r => ?_
    cases r with
    | done c' => exact keepsBody_pure c'
    | yield c' => exact keepsBody_forIn body hbody xs c'

theorem keepsBody_curriedParam (name : Value) (value : Option Value) :
    KeepsBody b (curriedParam name value) := by
  unfold curriedParam
  refine keepsBody_get_bind fun p hp => ?_
  have hset : ∀ v, KeepsBody b (set { p with curried := p.curried ++ [(name, v)] } : PuzzleM PUnit) :=
    fun _ => keepsBody_set hp
  cases value with
  | some v =>
    dsimp only
    split
    · exact keepsBody_bind (keepsBody_throw _) fun _ =>
        keepsBody_bind (keepsBody_map _ (keepsBody_lift _)) hset
    · exact keepsBody_bind (keepsBody_map _ (keepsBody_lift _)) hset
  | none =>
    dsimp only
    split
    · exact keepsBody_bind (keepsBody_throw _) fun _ => keepsBody_bind (keepsBody_pure _) hset
    · exact keepsBody_bind (keepsBody_pure _) hset

theorem keepsBody_curriedParams (names : List Value) : KeepsBody b (curriedParams names) :=
  keepsBody_forM _ (fun n => keepsBody_curriedParam n none) names

theorem keepsBody_solutionParams (names : List Value) : KeepsBody b (solutionParams names) := by
  refine keepsBody_forM _ (fun n => keepsBody_get_bind fun p hp => ?_) names
  dsimp only
  split
  · exact keepsBody_bind (keepsBody_throw _) fun _ => keepsBody_set hp
  · exact keepsBody_set hp

theorem keepsBody_restParam (name : Value) : KeepsBody b (restParam name) :=
  keepsBody_modify fun _ => rfl

theorem keepsBody_addInclude (path : Value) : KeepsBody b (addInclude path) := by
  refine keepsBody_modify fun p => ?_
  split <;> rfl

theorem keepsBody_comment (text : Value) : KeepsBody b (comment text) :=
  keepsBody_modify fun _ => rfl

theorem keepsBody_noted (el : Noted) : KeepsBody b (noted el) :=
  keepsBody_get_bind fun _ hp => keepsBody_bind (keepsBody_set hp) fun _ => keepsBody_pure _

theorem keepsBody_defconstant (name value : Value) : KeepsBody b (defconstant name value) :=
  keepsBody_bind (keepsBody_lift _) fun _ => keepsBody_bind (keepsBody_lift _) fun _ =>
    keepsBody_bind (keepsBody_noted _) fun _ => keepsBody_modify fun _ => rfl

theorem keepsBody_defun (name params body : Value) (inline : Bool) :
    KeepsBody b (defun name params body inline) :=
  keepsBody_bind (keepsBody_lift _) fun _ => keepsBody_bind (keepsBody_lift _) fun _ =>
    keepsBody_bind (keepsBody_lift _) fun _ =>
      keepsBody_bind (keepsBody_noted _) fun _ => keepsBody_modify fun _ => rfl

/-! ### The body a program ends with -/

theorem step_run {s : Step} {p p' : Puzzle} {u : PUnit} (h : (step s).run p = .ok u p') :
    p' = { p with steps := p.steps ++ [(p.pending, s)], pending := [] } := by
  obtain ⟨q, p₁, h1, h⟩ := run_bind_ok h
  cases h1
  dsimp only at h
  split at h
  · obtain ⟨_, _, h1, -⟩ := run_bind_ok h
    cases h1
  · cases h
    rfl

theorem endWith_steps (p : Puzzle) (v : Noted) : (p.endWith v).steps = p.steps := by
  unfold endWith
  split <;> rfl

theorem endWith_tail (p : Puzzle) (v : Noted) : ∃ t, (p.endWith v).tail = some t ∧ t.tree = v.tree := by
  unfold endWith
  split
  · exact ⟨v, rfl, rfl⟩
  · exact ⟨_, rfl, Noted.tree_withTag _ v⟩

theorem returns_run {v : Noted} {p p' : Puzzle} {u : PUnit} (h : (returns (.tree v)).run p = .ok u p') :
    ∃ t, p'.steps = p.steps ++ [(p.pending, .stop)] ∧ p'.tail = some t ∧ t.tree = v.tree := by
  obtain ⟨_, p₁, h1, h⟩ := run_bind_ok h
  obtain ⟨v', p₂, h2, h⟩ := run_bind_ok h
  cases h2
  cases h
  obtain ⟨t, ht, htree⟩ := endWith_tail p₁ v
  refine ⟨t, ?_, ht, htree⟩
  rw [endWith_steps, step_run h1]

theorem buildSteps_tree : ∀ (steps : List (List String × Step)) (next : Noted) {rm rm' : Remarks}
    {n : Noted}, (∀ st ∈ steps, st.2 = .stop) → (buildSteps steps next).run rm = .ok n rm' →
      n.tree = next.tree
  | [], next, rm, rm', n, _, h => by
    cases h
    rfl
  | (notes, s) :: rest, next, rm, rm', n, hs, h => by
    obtain ⟨r, rm₁, h1, h⟩ := run_bind_ok h
    have hr := buildSteps_tree rest next (fun st h => hs st (List.mem_cons_of_mem _ h)) h1
    have hstop : s = .stop := hs _ List.mem_cons_self
    subst hstop
    obtain ⟨r', rm₂, h2, h⟩ := run_bind_ok h
    cases h2
    cases h
    exact (Noted.tree_attach _ r notes).trans hr

/-- A program whose body is steps that only stop and then the code `t` is built as a list
whose last item is `t`. -/
theorem build_last {p p' : Puzzle} {el : Noted} (h : build.run p = .ok el p')
    (hsteps : ∀ st ∈ p.steps, st.2 = .stop) {t : Noted} (ht : p.tail = some t) :
    el.tree.spine.getLast? = some t.tree := by
  obtain ⟨body, p₁, h1, h⟩ := run_bind_ok h
  have hbody : body.tree = t.tree := by
    unfold buildBody at h1
    obtain ⟨q, p₂, h2, h1⟩ := run_bind_ok h1
    cases h2
    split at h1
    · rename_i r rm hr
      obtain ⟨_, _, h3, h1⟩ := run_bind_ok h1
      cases h1
      simp only [Puzzle.body, Body.build, ht, Option.getD_some] at hr
      exact buildSteps_tree _ _ hsteps hr
    · obtain ⟨_, _, h3, h1⟩ := run_bind_ok h1
      cases h1
  obtain ⟨q, p₂, h2, h⟩ := run_bind_ok h
  cases h2
  obtain ⟨incs, p₃, h3, h⟩ := run_bind_ok h
  obtain ⟨params, p₄, h4, h⟩ := run_bind_ok h
  cases h
  have hnil : Noted.nil.tree.spine = [] := rfl
  rw [Noted.tree_ofList, Meaning.spine_ofList, hnil, List.append_nil, List.map_append,
    List.map_singleton, List.getLast?_concat, hbody]

end Build.Puzzle

/-! ### The builders of the generator -/

namespace Script.Generate

open Build.Puzzle

variable {A : Analysis} {α : Type}

theorem onPuzzle_ensures (p : Puzzle) (m : PuzzleM α) :
    Ensures A (fun r => m.run p = .ok r.1 r.2) (onPuzzle p m) := by
  intro g r g' hA h
  unfold onPuzzle at h
  split at h
  · rename_i a q hm
    cases h
    exact ⟨hm, hA⟩
  · cases h

theorem keepRemarks_ensures (p : Puzzle) : Ensures A (fun _ => True) (keepRemarks p) :=
  ensures_modify fun _ => rfl

theorem remark_ensures (n : Noted) (text : String) :
    Ensures A (fun r => r.tree = n.tree) (remark n text) := by
  unfold remark
  refine ensures_bind ensures_get fun g hg => ?_
  split
  rename_i n' rm hatt
  refine ensures_bind (ensures_set hg) fun _ _ => ensures_pure ?_
  rw [← Noted.tree_attach g.remarks n [text], hatt]

theorem newBuilder_ensures (name : String) (path : List Nat) (curried : List String) :
    Ensures A (fun p => p.body = .mk [] none) (newBuilder name path curried) := by
  unfold newBuilder
  refine ensures_bind ensures_get fun g _ => ensures_bind (onPuzzle_ensures _ _) fun r hr => ?_
  refine ensures_pure (KeepsBody.body_eq ?_ rfl hr)
  refine keepsBody_bind (keepsBody_curriedParams _) fun _ => ?_
  refine keepsBody_bind (keepsBody_forIn _ (fun i _ =>
    keepsBody_bind (keepsBody_addInclude _) fun _ => keepsBody_pure _) _ _) fun _ => ?_
  exact keepsBody_bind (keepsBody_forIn _ (fun k _ =>
    keepsBody_bind (keepsBody_defconstant _ _) fun _ => keepsBody_pure _) _ _) fun _ => keepsBody_pure _

theorem addFunctions_ensures (p : Puzzle) :
    Ensures A (fun q => q.body = p.body) (addFunctions p) := by
  unfold addFunctions
  refine ensures_bind ensures_get fun g _ => ?_
  refine ensures_bind (ensures_forIn (fun q : Puzzle => q.body = p.body) _ _ (fun f _ q hq => ?_) p rfl)
    fun q hq => ?_
  · refine ensures_bind (body_ensures _ _ _) fun code _ =>
      ensures_bind (onPuzzle_ensures _ _) fun r hr => ensures_pure ?_
    show r.2.body = p.body
    rw [← hq]
    exact KeepsBody.body_eq (keepsBody_bind (keepsBody_comment _) fun _ => keepsBody_defun _ _ _ _)
      rfl hr
  · refine ensures_bind ensures_get fun g' _ => ensures_bind (onPuzzle_ensures _ _) fun r hr =>
      ensures_pure ?_
    rw [← hq]
    refine KeepsBody.body_eq ?_ rfl hr
    dsimp only
    have hmerge : ∀ u : PUnit, KeepsBody q.body (if g'.usesMerge = true then
        defun (.str "merge_list") (.list (texts ["a", "b"])) (.tree mergeList) false else pure u) := by
      intro u
      split
      · exact keepsBody_defun _ _ _ _
      · exact keepsBody_pure _
    split
    · exact keepsBody_bind (keepsBody_defun _ _ _ _) fun _ =>
        keepsBody_bind (keepsBody_defun _ _ _ _) hmerge
    · exact hmerge _

/-! ### The dispatch on the action name -/

/-- The tests of the actions other than `default`, in order, each running its action's code
when the selector has its name, over the failure for any other selector. -/
def dispatchTests (codes : List (String × Noted)) : Noted :=
  (codes.filter (·.1 != "default")).foldr
    (fun c rest => ifNode (call "=" [sym "action", str c.1]) c.2 rest) (failNode (some "unknown action"))

/-- The dispatch over the code of each action, in the coin's order: the first action named
`default` runs for an empty selector or for `default`, before the tests of the others. -/
def dispatchOn (codes : List (String × Noted)) : Noted :=
  match codes.find? (·.1 == "default") with
  | some d => ifNode (call "any" [call "not" [sym "action"], call "=" [sym "action", str "default"]])
      d.2 (dispatchTests codes)
  | none => dispatchTests codes

/-- `code` is, up to remarks, the body generated from the coin `A` for the action named `n` of
a dispatch program: from the first action of that name the check recorded, the first signature
of that name, and slots that read the arguments from `args`. -/
def BodyOf (A : Analysis) (sigs : List Signature) (selfHash : Noted) (n : String) (code : Noted) :
    Prop :=
  ∃ info sig, A.action? n = some info ∧ sigs.find? (·.name == n) = some sig ∧
    ∃ g g' body, g.analysis = A ∧
      (actionBody info sig ((List.range sig.template.length).map (nth (sym "args"))) selfHash).run g =
        .ok (body, g') ∧ body.tree = code.tree

/-- The actions of the coin that the dispatch has code for: those the check recorded and that
have a signature. -/
def dispatched (A : Analysis) (sigs : List Signature) : List Action :=
  A.coin.actions.filter fun act =>
    (A.action? act.name).isSome && (sigs.find? (·.name == act.name)).isSome

/-- The code of each dispatched action: its name and the body generated for it. -/
def CodesOf (A : Analysis) (sigs : List Signature) (selfHash : Noted) (acts : List Action)
    (codes : List (String × Noted)) : Prop :=
  List.Forall₂ (fun act c => c.1 = act.name ∧ BodyOf A sigs selfHash act.name c.2) acts codes

/-- The chain of tests and the default action after each round of the loop of `dispatchChain`,
which walks the actions from the last: they are those of the code of the actions seen. -/
def ChainSoFar (A : Analysis) (sigs : List Signature) (selfHash : Noted) (seen : List Action)
    (st : Noted × Option Noted) : Prop :=
  ∃ codes, CodesOf A sigs selfHash (seen.reverse.filter fun act =>
      (A.action? act.name).isSome && (sigs.find? (·.name == act.name)).isSome) codes ∧
    st.1 = dispatchTests codes ∧ st.2 = (codes.find? (·.1 == "default")).map (·.2)

theorem chainSoFar_nil (sigs : List Signature) (selfHash : Noted) :
    ChainSoFar A sigs selfHash [] (failNode (some "unknown action"), none) :=
  ⟨[], .nil, rfl, rfl⟩

theorem dispatchChain_round (sigs : List Signature) (selfHash : Noted) (seen : List Action)
    (act : Action) (st : Noted × Option Noted) (hst : ChainSoFar A sigs selfHash seen st) :
    Ensures A (fun r => ∃ st', r = .yield st' ∧ ChainSoFar A sigs selfHash (seen ++ [act]) st')
      (match A.action? act.name, sigs.find? (·.name == act.name) with
        | some info, some sig => do
          let code ← actionBody info sig
            ((List.range sig.template.length).map (nth (sym "args"))) selfHash
          let code ← remark code ("action " ++ act.name)
          if (act.name == "default") = true then pure (ForInStep.yield (st.1, some code))
          else pure (ForInStep.yield
            (ifNode (call "=" [sym "action", str act.name]) code st.1, st.2))
        | _, _ => pure (ForInStep.yield (st.1, st.2))) := by
  obtain ⟨codes, hcodes, h1, h2⟩ := hst
  split
  · rename_i info sig hinfo hsig
    have hkeep : ((A.action? act.name).isSome && (sigs.find? (·.name == act.name)).isSome) = true := by
      simp [hinfo, hsig]
    refine ensures_bind (actionBody_ensures (A := A) _ _ _ _).run fun body ⟨g, g', hg, hrun⟩ =>
      ensures_bind (remark_ensures body _) fun code hcode => ?_
    have hnew : CodesOf A sigs selfHash ((seen ++ [act]).reverse.filter fun act =>
        (A.action? act.name).isSome && (sigs.find? (·.name == act.name)).isSome)
        ((act.name, code) :: codes) := by
      rw [List.reverse_append, List.reverse_singleton, List.singleton_append]
      simp only [List.filter_cons, hkeep, if_true]
      exact .cons ⟨rfl, info, sig, hinfo, hsig, g, g', body, hg, hrun, hcode.symm⟩ hcodes
    split
    · rename_i hdef
      have hdef : act.name = "default" := by simpa using hdef
      refine ensures_pure ⟨_, rfl, _, hnew, ?_, ?_⟩
      · simp [h1, dispatchTests, hdef]
      · simp [hdef]
    · rename_i hdef
      have hdef : act.name ≠ "default" := by simpa using hdef
      refine ensures_pure ⟨_, rfl, _, hnew, ?_, ?_⟩
      · simp [h1, dispatchTests, hdef]
      · simp [h2, hdef]
  · rename_i hnone
    have hskip : ((A.action? act.name).isSome && (sigs.find? (·.name == act.name)).isSome) = false := by
      cases hi : A.action? act.name <;> cases hs : sigs.find? (·.name == act.name) <;> simp_all
    refine ensures_pure ⟨_, rfl, codes, ?_, h1, h2⟩
    rw [List.reverse_append, List.reverse_singleton, List.singleton_append]
    simp only [List.filter_cons, hskip, Bool.false_eq_true, if_false]
    exact hcodes

/-- The dispatch `dispatchChain` generates is `dispatchOn` the code it generates for each action
of the coin that the check recorded and that has a signature, in the coin's order. -/
theorem dispatchChain_ensures (sigs : List Signature) (selfHash : Noted) :
    Ensures A (fun chain => ∃ codes, CodesOf A sigs selfHash (dispatched A sigs) codes ∧
      chain = dispatchOn codes) (dispatchChain sigs selfHash) := by
  unfold dispatchChain
  refine ensures_bind ensures_get fun g hg => ?_
  subst hg
  refine ensures_bind (ensures_forIn_seen (ChainSoFar g.analysis sigs selfHash) _
    (fun seen act st hst => dispatchChain_round sigs selfHash seen act st hst) _ [] _
    (chainSoFar_nil sigs selfHash)) fun st hst => ?_
  obtain ⟨codes, hcodes, h1, h2⟩ := hst
  rw [List.nil_append, List.reverse_reverse] at hcodes
  dsimp only
  split
  · rename_i d hd
    rw [hd] at h2
    obtain ⟨c, hc, rfl⟩ := Option.map_eq_some_iff.mp h2.symm
    refine ensures_pure ⟨codes, hcodes, ?_⟩
    simp [dispatchOn, hc, h1]
  · rename_i hd
    rw [hd] at h2
    refine ensures_pure ⟨codes, hcodes, ?_⟩
    have hc : codes.find? (·.1 == "default") = none := Option.map_eq_none_iff.mp h2.symm
    simp [dispatchOn, hc, h1]

theorem storageNames_ensures : Ensures A (· = A.storage.map (·.vmName)) storageNames :=
  ensures_bind ensures_get fun _ hg => ensures_pure (by rw [hg])

/-- The names a program of the coin curries, the module hash first when the coin has state. -/
def curriedNames (A : Analysis) : List String :=
  (if A.hasState then ["MOD_HASH"] else []) ++ A.storage.map (·.vmName)

theorem single_dispatch_ensures (sigs : List Signature) :
    Ensures A (fun p => ∃ codes notes t,
      CodesOf A sigs (selfPuzzleHash (curriedNames A)) (dispatched A sigs) codes ∧
      p.steps = [(notes, .stop)] ∧ p.tail = some t ∧ t.tree = (dispatchOn codes).tree)
      (single .dispatch sigs) := by
  unfold single
  refine ensures_bind ensures_get fun g hg => ?_
  subst hg
  refine ensures_bind storageNames_ensures fun names hnames => ?_
  subst hnames
  refine ensures_bind (newBuilder_ensures _ _ _) fun p hp => ?_
  refine ensures_bind (keepRemarks_ensures p) fun _ _ => ?_
  dsimp only
  refine ensures_bind (onPuzzle_ensures _ _) fun r hr => ?_
  have hr1 : r.2.body = .mk [] none := KeepsBody.body_eq
    (keepsBody_bind (keepsBody_solutionParams _) fun _ => keepsBody_restParam _) hp hr
  refine ensures_bind (dispatchChain_ensures _ _) fun chain ⟨codes, hcodes, hchain⟩ => ?_
  refine ensures_bind (ensures_pure (Q := fun x => x = (r.2, chain)) rfl) fun x hx => ?_
  subst hx
  refine ensures_bind ensures_get fun g' _ => ensures_bind (addFunctions_ensures _) fun q hq => ?_
  refine ensures_bind (onPuzzle_ensures _ _) fun r' hr' =>
    ensures_bind (keepRemarks_ensures _) fun _ _ => ensures_pure ?_
  obtain ⟨t, hsteps, htail, ht⟩ := returns_run hr'
  have hq' : q.steps = [] := (Body.mk.inj (hq.trans hr1)).1
  refine ⟨codes, q.pending, t, hcodes, ?_, htail, ?_⟩
  · rw [hsteps, hq', List.nil_append]
  · rw [ht, hchain]

end Script.Generate

theorem generate_dispatch {A : Analysis} {request : String} {codec : AddressCodec}
    {maxDepth : Bound} {g : Generated} (h : generate A request codec maxDepth = .ok g)
    (hm : g.mode = .dispatch) :
    ∃ codes notes t, Generate.CodesOf A g.signatures (Generate.selfPuzzleHash (Generate.curriedNames A))
        (Generate.dispatched A g.signatures) codes ∧
      g.main.steps = [(notes, .stop)] ∧ g.main.tail = some t ∧ t.tree = (Generate.dispatchOn codes).tree := by
  unfold generate at h
  obtain ⟨mode, -, h⟩ := except_bind_ok h
  dsimp only at h
  obtain ⟨⟨g', st⟩, hrun, h⟩ := except_bind_ok h
  obtain ⟨_, -, h⟩ := except_bind_ok h
  cases h
  split at hrun
  · -- a merkle coin is generated in merkle mode
    rename_i hmerkle
    obtain ⟨_, _, -, hrun⟩ := stateT_bind_ok hrun
    obtain ⟨_, _, -, hrun⟩ := stateT_bind_ok hrun
    cases hrun
    simp only at hm
    simp [hm] at hmerkle
  · obtain ⟨main, st₁, hmain, hrun⟩ := stateT_bind_ok hrun
    obtain ⟨_, _, -, hrun⟩ := stateT_bind_ok hrun
    cases hrun
    simp only at hm ⊢
    subst hm
    exact (Generate.single_dispatch_ensures _ _ main st₁ rfl hmain).1

/-! ### What the dispatch runs -/

namespace Script.Generate

/-- The code the tests of the dispatch run for a selector with the bytes `s`: that of the first
action other than `default` whose name has those bytes, or else the failure. -/
def testedFor (codes : List (String × Noted)) (s : List UInt8) : Noted :=
  (((codes.filter (·.1 != "default")).find? (fun c => s == c.1.toUTF8.toList)).map (·.2)).getD
    (failNode (some "unknown action"))

/-- The code the dispatch runs for a selector with the bytes `s`: that of the first action named
`default`, when there is one, for the empty selector and for `default`; else what the tests
run. -/
def selected (codes : List (String × Noted)) (s : List UInt8) : Noted :=
  match codes.find? (·.1 == "default") with
  | some d => if (s.isEmpty || s == "default".toUTF8.toList) = true then d.2 else testedFor codes s
  | none => testedFor codes s

theorem toUTF8_toList_inj {a b : String} (h : a.toUTF8.toList = b.toUTF8.toList) : a = b := by
  have ha := utf8Text_toUTF8 a
  rw [h, utf8Text_toUTF8] at ha
  exact (Except.ok.inj ha).symm

theorem selected_named {codes : List (String × Noted)} {n : String} (hn : n ≠ "default")
    (hne : n ≠ "" ∨ codes.find? (·.1 == "default") = none) :
    selected codes n.toUTF8.toList =
      ((codes.find? (·.1 == n)).map (·.2)).getD (failNode (some "unknown action")) := by
  have htests : testedFor codes n.toUTF8.toList =
      ((codes.find? (·.1 == n)).map (·.2)).getD (failNode (some "unknown action")) := by
    unfold testedFor
    rw [List.find?_filter]
    congr 2
    refine List.find?_congr fun c _ => ?_
    rw [Bool.eq_iff_iff]
    simp only [decide_eq_true_eq, bne_iff_ne, ne_eq, beq_iff_eq]
    constructor
    · rintro ⟨-, hb⟩
      exact (toUTF8_toList_inj hb).symm
    · rintro rfl
      exact ⟨hn, rfl⟩
  unfold selected
  split
  · rename_i d hd
    -- the selector is neither empty nor `default`
    have hempty : n.toUTF8.toList ≠ [] := by
      rcases hne with hne | hne
      · exact fun hb => hne (toUTF8_toList_inj (hb.trans (by simp)))
      · rw [hne] at hd
        cases hd
    have hcond : ¬ ((n.toUTF8.toList.isEmpty || n.toUTF8.toList == "default".toUTF8.toList) = true) := by
      rw [Bool.or_eq_true, List.isEmpty_iff, beq_iff_eq]
      exact fun h => h.elim hempty fun h => hn (toUTF8_toList_inj h)
    rw [if_neg hcond]
    exact htests
  · exact htests

theorem selected_default {codes : List (String × Noted)} {d : String × Noted}
    (hd : codes.find? (·.1 == "default") = some d) {s : List UInt8}
    (hs : s = [] ∨ s = "default".toUTF8.toList) : selected codes s = d.2 := by
  unfold selected
  rw [hd]
  rcases hs with rfl | rfl <;> simp

theorem selected_unknown {codes : List (String × Noted)} {s : List UInt8}
    (hs : ∀ c ∈ codes, s ≠ c.1.toUTF8.toList) (hnil : s = [] → codes.find? (·.1 == "default") = none) :
    selected codes s = failNode (some "unknown action") := by
  have htests : testedFor codes s = failNode (some "unknown action") := by
    unfold testedFor
    rw [List.find?_eq_none.mpr fun c hc => by
      simpa using hs c (List.mem_of_mem_filter hc)]
    rfl
  unfold selected
  split
  · rename_i d hd
    -- a default action is an action, so the selector is neither empty nor `default`
    have hne : s ≠ [] := fun h => by
      rw [hnil h] at hd
      cases hd
    have hdef : s ≠ "default".toUTF8.toList := by
      have hmem := List.mem_of_find?_eq_some hd
      have hname : d.1 = "default" := by simpa using List.find?_some hd
      exact hname ▸ hs d hmem
    have hcond : ¬ ((s.isEmpty || s == "default".toUTF8.toList) = true) := by
      rw [Bool.or_eq_true, List.isEmpty_iff, beq_iff_eq]
      exact fun h => h.elim hne hdef
    rw [if_neg hcond]
    exact htests
  · exact htests

end Script.Generate

section Selector

open Generate

variable {defs : List Defun} {env : Meaning.Env} {s : List UInt8} {h : Hint}

/-- The program defines none of the operators the interface code reads the solution with, so
they are the two parts of a pair, byte equality, the test for the empty atom and disjunction. -/
def NoOperatorDefs (defs : List Defun) : Prop :=
  ∀ op ∈ ["f", "r", "=", "not", "any"], defs.find? (·.name == op) = none

theorem truth_isNil (b : Bool) : (truth b).isNil = !b := by
  cases b <;> rfl

theorem evaluates_nameTest (hd : NoOperatorDefs defs) (hs : env.lookup "action" = some (.atom s h))
    (n : String) : Evaluates defs env (call "=" [sym "action", str n]).tree
      (truth (s == n.toUTF8.toList)) :=
  evaluates_call_op (by decide) (hd "=" (by simp))
    (.cons (evaluates_sym hs) (.cons (evaluates_atom (by decide)) .nil)) rfl

theorem evaluates_defaultTest (hd : NoOperatorDefs defs) (hs : env.lookup "action" = some (.atom s h)) :
    Evaluates defs env
      (call "any" [call "not" [sym "action"], call "=" [sym "action", str "default"]]).tree
      (truth (s.isEmpty || s == "default".toUTF8.toList)) := by
  have hnot : Evaluates defs env (call "not" [sym "action"]).tree (truth s.isEmpty) :=
    evaluates_call_op (by decide) (hd "not" (by simp)) (.cons (evaluates_sym hs) .nil) rfl
  refine evaluates_call_op (by decide) (hd "any" (by simp))
    (.cons hnot (.cons (evaluates_nameTest hd hs "default") .nil)) ?_
  simp [applyOp, truth_isNil]

theorem evaluates_tests (hd : NoOperatorDefs defs) (hs : env.lookup "action" = some (.atom s h))
    (fail : Noted) : ∀ (cs : List (String × Noted)) (v : Tree),
      Evaluates defs env
        (cs.foldr (fun c rest => ifNode (call "=" [sym "action", str c.1]) c.2 rest) fail).tree v ↔
      Evaluates defs env (((cs.find? (fun c => s == c.1.toUTF8.toList)).map (·.2)).getD fail).tree v
  | [], _ => Iff.rfl
  | c :: cs, v => by
    rw [List.foldr_cons, evaluates_ifNode_iff (evaluates_nameTest hd hs c.1), List.find?_cons,
      truth_isNil]
    cases hc : (s == c.1.toUTF8.toList)
    · exact evaluates_tests hd hs fail cs v
    · exact Iff.rfl

/-- Read with `=` as byte equality and `not` as the test for the empty atom, the dispatch runs
what `selected` picks for the selector. -/
theorem dispatchOn_evaluates (hd : NoOperatorDefs defs) (hs : env.lookup "action" = some (.atom s h))
    (codes : List (String × Noted)) (v : Tree) :
    Evaluates defs env (dispatchOn codes).tree v ↔ Evaluates defs env (selected codes s).tree v := by
  unfold dispatchOn selected
  split
  · rw [evaluates_ifNode_iff (evaluates_defaultTest hd hs), truth_isNil]
    cases (s.isEmpty || s == "default".toUTF8.toList)
    · exact evaluates_tests hd hs _ _ v
    · exact Iff.rfl
  · exact evaluates_tests hd hs _ _ v

/-- The slot `(f (r … (r base)))` with `i` rests reads the `i`-th item of the list `base`
holds. -/
theorem evaluates_nth (hd : NoOperatorDefs defs) :
    ∀ (i : Nat) {base : Noted} {xs : List Tree} {tail : Tree},
      Evaluates defs env base.tree (Tree.ofList xs tail) → (hi : i < xs.length) →
        Evaluates defs env (nth base i).tree xs[i]
  | 0, base, x :: xs, tail, hb, _ =>
    evaluates_call_op (by decide) (hd "f" (by simp)) (.cons hb .nil) rfl
  | i + 1, base, x :: xs, tail, hb, hi => by
    have hrest : Evaluates defs env (call "r" [base]).tree (Tree.ofList xs tail) :=
      evaluates_call_op (by decide) (hd "r" (by simp)) (.cons hb .nil) rfl
    exact evaluates_nth hd i hrest (Nat.lt_of_succ_lt_succ hi)

end Selector

/-! ### The layout of a solution -/

namespace Build.Solution

/-- Adding host values appends their spend-time values, in order; it succeeds exactly when
each of them has one. -/
theorem add_run : ∀ {vs : List Value} {s s' : Solution} {u : PUnit},
    (add vs).run s = .ok u s' →
      ∃ xs, List.Forall₂ (fun v x => coerce v = .ok x) vs xs ∧ s'.items = s.items ++ xs
  | [], s, s', u, h => by
    cases h
    exact ⟨[], .nil, (List.append_nil _).symm⟩
  | v :: vs, s, s', u, h => by
    obtain ⟨_, s₁, h1, h⟩ := run_bind_ok h
    obtain ⟨x, s₂, h2, h1⟩ := run_bind_ok h1
    cases hv : coerce v with
    | error e =>
      rw [hv] at h2
      cases h2
    | ok y =>
      rw [hv] at h2
      cases h2
      cases h1
      obtain ⟨xs, hxs, hitems⟩ := add_run h
      refine ⟨x :: xs, .cons hv hxs, ?_⟩
      rw [hitems]
      simp

theorem add_run_of_forall₂ : ∀ {vs : List Value} {xs : List Noted} (s : Solution),
    List.Forall₂ (fun v x => coerce v = .ok x) vs xs → (add vs).run s = .ok () ⟨s.items ++ xs⟩
  | [], [], s, .nil => by
    simp only [List.append_nil]
    rfl
  | v :: vs, x :: xs, s, .cons hv hxs => by
    have h := add_run_of_forall₂ ⟨s.items ++ [x]⟩ hxs
    rw [List.append_assoc, List.singleton_append] at h
    show (lift (coerce v) >>= push >>= fun _ => add vs).run s = _
    rw [hv]
    exact h

end Build.Solution

namespace Script

/-- The host values a spend of the action with signature `sig` carries before its state, in
the order of the template: the arguments, then the signer and the amount when the action reads
them. -/
def carriedValues (sig : Signature) (args : List Value) (signer amount : Option Value) :
    List Value :=
  args ++ (if sig.signer then signer.toList else []) ++ (if sig.amount then amount.toList else [])

/-- The selector a dispatch solution starts with: the action's name, or the empty list for the
default action named by no name. -/
def selectorOf (sig : Signature) (action : Option String) : Noted :=
  match action.map fun _ => sig.name with
  | some n => str n
  | none => Noted.nil

theorem wanted_length {α β : Type} {wanted : Bool} {o : Option α} (h : wanted = true → o.isSome)
    (x : β) : (if wanted then o.toList else []).length = (if wanted then [x] else []).length := by
  cases hw : wanted
  · rfl
  · obtain ⟨y, rfl⟩ := Option.isSome_iff_exists.mp (h hw)
    rfl

theorem carriedValues_length {sig : Signature} {args : List Value} {signer amount : Option Value}
    (hargs : args.length = sig.params.length) (hsigner : sig.signer = true → signer.isSome)
    (hamount : sig.amount = true → amount.isSome) :
    (carriedValues sig args signer amount).length + (if sig.stateful then 1 else 0) =
      sig.template.length := by
  unfold carriedValues Signature.template
  simp only [List.length_append, hargs, wanted_length hsigner "signer",
    wanted_length hamount "my_amount"]
  by_cases hst : sig.stateful = true <;> simp [hst]

/-- The code of a state of the coin: its entries encoded by the coin's schema. -/
def Compiled.StateCode (c : Compiled) (state : Value) (el : Noted) : Prop :=
  ∃ schema entries w, StateSchema.make (c.stateSchema.map fun p => (.str p.1, p.2)) = .ok schema ∧
    FieldType.entries state = .ok entries ∧ (schema.encode entries).run [] = .ok el w

theorem extraRound {wanted : Bool} {v : Option Value} {acc : List Value} {e : Failure}
    {f : Value → Value} {r : ForInStep (List Value)}
    (h : (if wanted = true then
        match v with
        | some v => pure (ForInStep.yield (acc ++ [f v]))
        | none => (throw e : Except Failure PUnit) >>= fun _ => pure (ForInStep.yield acc)
      else pure (ForInStep.yield acc)) = .ok r) :
    (wanted = true → v.isSome) ∧ r = .yield (acc ++ (if wanted then v.toList else []).map f) := by
  split at h
  · rename_i hw
    split at h
    · cases h
      simp [hw]
    · cases h
  · rename_i hw
    cases h
    simp [hw]

/-- An action's own solution: the selector in dispatch mode, then the values the action carries
before its state, coerced, then the code of the state for an action with state. The arguments
match the parameters, and the signer and the amount are there when the action reads them. -/
theorem actionSolution_items {c : Compiled} {sig : Signature} {action : Option String}
    {args : List Value} {signer amount state : Option Value} {sol : Solution}
    (h : c.actionSolution sig action args signer amount state = .ok sol) :
    args.length = sig.params.length ∧ (sig.signer = true → signer.isSome) ∧
      (sig.amount = true → amount.isSome) ∧
      ∃ xs st, List.Forall₂ (fun v x => coerce (c.spendValue v) = .ok x)
          (carriedValues sig args signer amount) xs ∧
        (if sig.stateful then ∃ s el, state = some s ∧ c.StateCode s el ∧ st = [el] else st = []) ∧
        sol.items = (if c.mode = .dispatch then [selectorOf sig action] else []) ++ xs ++ st := by
  unfold Compiled.actionSolution at h
  dsimp only at h
  split at h
  · obtain ⟨_, h, -⟩ := except_bind_ok h
    cases h
  rename_i hlen
  obtain ⟨vals, hloop, h⟩ := except_bind_ok h
  rw [List.forIn_cons] at hloop
  obtain ⟨r₁, h₁, hloop⟩ := except_bind_ok hloop
  obtain ⟨hsigner, rfl⟩ := extraRound h₁
  dsimp only at hloop
  rw [List.forIn_cons] at hloop
  obtain ⟨r₂, h₂, hloop⟩ := except_bind_ok hloop
  obtain ⟨hamount, rfl⟩ := extraRound h₂
  cases hloop
  simp only at hsigner hamount
  have hvals : List.map c.spendValue args ++
      List.map c.spendValue (if sig.signer = true then signer.toList else []) ++
      List.map c.spendValue (if sig.amount = true then amount.toList else []) =
      (carriedValues sig args signer amount).map c.spendValue := by
    simp [carriedValues]
  simp only at h
  rw [hvals] at h
  split at h
  · rename_i u sol₀ hinner
    have hsel : ∃ xs, List.Forall₂ (fun v x => coerce (c.spendValue v) = .ok x)
        (carriedValues sig args signer amount) xs ∧
        sol₀.items = (if c.mode = .dispatch then [selectorOf sig action] else []) ++ xs := by
      split at hinner
      · rename_i hd
        obtain ⟨_, s₁, h1, hinner⟩ := run_bind_ok hinner
        cases h1
        obtain ⟨xs, hxs, hitems⟩ := Solution.add_run hinner
        refine ⟨xs, List.forall₂_map_left_iff.mp hxs, ?_⟩
        rw [hitems, if_pos (by simpa using hd)]
        rfl
      · rename_i hd
        obtain ⟨xs, hxs, hitems⟩ := Solution.add_run hinner
        refine ⟨xs, List.forall₂_map_left_iff.mp hxs, ?_⟩
        rw [hitems, if_neg (by simpa using hd)]
    obtain ⟨xs, hxs, hitems⟩ := hsel
    refine ⟨by simpa using hlen, hsigner, hamount, xs, ?_⟩
    obtain ⟨_, hw, h⟩ := except_bind_ok h
    cases hw
    split at h
    · rename_i hst
      split at h
      · obtain ⟨_, h, -⟩ := except_bind_ok h
        cases h
      · obtain ⟨schema, hschema, h⟩ := except_bind_ok h
        obtain ⟨entries, hentries, h⟩ := except_bind_ok h
        split at h
        · rename_i u' sol₁ hstate
          cases h
          unfold Solution.addState at hstate
          split at hstate
          · rename_i el w henc
            cases hstate
            refine ⟨[el], hxs, ?_, ?_⟩
            · rw [if_pos hst]
              exact ⟨_, el, rfl, ⟨schema, entries, w, hschema, hentries, henc⟩, rfl⟩
            · show sol₀.items ++ [el] = _
              rw [hitems]
          · cases hstate
        · obtain ⟨_, h, -⟩ := except_bind_ok h
          cases h
    · rename_i hst
      cases h
      refine ⟨[], hxs, ?_, ?_⟩
      · rw [if_neg hst]
      · rw [hitems, List.append_nil]
  · obtain ⟨_, h, -⟩ := except_bind_ok h
    cases h

end Script

/-- A spend's solution is the action's own solution, which in merkle mode comes after the
action's name and its program and before its proof. -/
theorem solution_cases {c : Compiled} {action : Option String} {args : List Value}
    {signer amount state : Option Value} {sol : Noted}
    (hs : c.solution action args signer amount state = .ok sol) :
    ∃ sig inner, c.signature action = .ok sig ∧
      c.actionSolution sig action args signer amount state = .ok inner ∧
      (c.mode ≠ .merkle → sol = inner.build) ∧
      (c.mode = .merkle → ∃ (el : Noted) (prog : Tree) (proof : List (List UInt8)),
        sol = Noted.ofList [el, Noted.ofTree prog, inner.build,
          Noted.ofList (proof.map fun h => .atom h .bytes (.own []))]) := by
  simp only [Compiled.solution] at hs
  obtain ⟨sig, hsig, hs⟩ := except_bind_ok hs
  obtain ⟨inner, hinner, hs⟩ := except_bind_ok hs
  refine ⟨sig, inner, hsig, hinner, fun hm => ?_, fun hm => ?_⟩
  · rw [if_pos (by simpa using hm)] at hs
    exact (Except.ok.inj hs).symm
  · rw [if_neg (by simp [hm])] at hs
    obtain ⟨prog, -, hs⟩ := except_bind_ok hs
    split at hs <;>
    · obtain ⟨proof, -, hs⟩ := except_bind_ok hs
      cases hel : coerce (.str sig.name) with
      | error e =>
        simp only [Solution.add, List.forM, Solution.push, Solution.lift, hel] at hs
        cases hs
      | ok el =>
        simp only [Solution.add, List.forM, Solution.push, Solution.lift, hel] at hs
        simp [coerce, Solution.addMerkleProof, Solution.push, Solution.build] at hs
        exact ⟨el, prog, proof, (Except.ok.inj hs).symm⟩

namespace Script.Generate

variable {A : Analysis} {sigs : List Signature} {selfHash : Noted}

theorem CodesOf.exists_of_mem {acts : List Action} {codes : List (String × Noted)}
    (h : CodesOf A sigs selfHash acts codes) {c : String × Noted} (hc : c ∈ codes) :
    ∃ act ∈ acts, c.1 = act.name ∧ BodyOf A sigs selfHash act.name c.2 := by
  induction h with
  | nil => cases hc
  | cons hr _ ih =>
    rcases List.mem_cons.mp hc with rfl | hc
    · exact ⟨_, List.mem_cons_self, hr⟩
    · obtain ⟨act, hact, hrel⟩ := ih hc
      exact ⟨act, List.mem_cons_of_mem _ hact, hrel⟩

theorem CodesOf.find?_name {acts : List Action} {codes : List (String × Noted)}
    (h : CodesOf A sigs selfHash acts codes) {act : Action} (hact : act ∈ acts) :
    ∃ code, codes.find? (·.1 == act.name) = some (act.name, code) ∧
      BodyOf A sigs selfHash act.name code := by
  -- some code has the action's name, so the first one of that name is found
  have hsome : ∃ c ∈ codes, c.1 = act.name := by
    induction h with
    | nil => cases hact
    | cons hr _ ih =>
      rcases List.mem_cons.mp hact with rfl | hact
      · exact ⟨_, List.mem_cons_self, hr.1⟩
      · obtain ⟨c, hc, hname⟩ := ih hact
        exact ⟨c, List.mem_cons_of_mem _ hc, hname⟩
  obtain ⟨c, hc, hname⟩ := hsome
  obtain ⟨c', hfind⟩ : ∃ c', codes.find? (·.1 == act.name) = some c' :=
    Option.isSome_iff_exists.mp (List.find?_isSome.mpr ⟨c, hc, by simp [hname]⟩)
  have h1 : c'.1 = act.name := by simpa using List.find?_some hfind
  obtain ⟨act', -, h2, hbody⟩ := h.exists_of_mem (List.mem_of_find?_eq_some hfind)
  refine ⟨c'.2, ?_, ?_⟩
  · rw [hfind, ← h1]
  · rwa [← h2, h1] at hbody

end Script.Generate

theorem runBuilder_map_ok {α β : Type} {p : Puzzle} {m : PuzzleM α} {f : α → β} {b : β}
    (h : (runBuilder p m).map f = .ok b) : ∃ a p', m.run p = .ok a p' ∧ f a = b := by
  unfold runBuilder at h
  split at h
  · rename_i a p' hm
    cases h
    exact ⟨a, p', hm, rfl⟩
  · cases h

/-- What compiling a coin in dispatch mode guarantees (`compileSource_dispatchReady`): the last
item of the program, its body, is the dispatch over the code generated from the check `A` for
each action of the coin it recorded, in the coin's order; the signatures are those of the actions
recorded, each of which is an action of the coin. -/
structure Script.Compiled.DispatchReady (c : Compiled) (A : Analysis)
    (codes : List (String × Noted)) : Prop where
  mode : c.mode = .dispatch
  body : c.mod.spine.getLast? = some (Generate.dispatchOn codes).tree
  signatures : c.signatures = A.actions.map ActionInfo.signature
  codes : Generate.CodesOf A c.signatures (Generate.selfPuzzleHash (Generate.curriedNames A))
    (Generate.dispatched A c.signatures) codes
  actions : ∀ info ∈ A.actions, info.action ∈ A.coin.actions
  named : ∀ s ∈ c.signatures, s.name ≠ ""

/-- A compiled program is the build of the main program that generation made from the checked
coin, in the mode and with the signatures of that generation. -/
theorem compileSource_main {src : String} {opts : CompileOptions} {log log' : List String}
    {c : Compiled} (hc : (compileSource src opts).run log = .ok c log') :
    ∃ coin A g el p', parse src = .ok coin ∧ analyze coin opts.codec = .ok A ∧
      generate A opts.dispatch opts.codec opts.maxDepth = .ok g ∧
      Puzzle.build.run { g.main with remarks := g.remarks } = .ok el p' ∧
      c.mode = g.mode ∧ c.mod = el.tree ∧ c.signatures = g.signatures ∧
      (g.mode = .merkle → List.Forall₂ (fun q x => x.1 = q.1 ∧ ∃ el rm,
        Puzzle.build.run { q.2 with remarks := g.remarks } = .ok el rm ∧ x.2 = el.tree)
        g.actionMods c.actionMods) := by
  simp only [compileSource] at hc
  obtain ⟨coin, s₁, hcoin, hc⟩ := run_bind_ok hc
  obtain ⟨A, s₂, hA, hc⟩ := run_bind_ok hc
  obtain ⟨g, s₃, hg, hc⟩ := run_bind_ok hc
  obtain ⟨storage, s₄, -, hc⟩ := run_bind_ok hc
  obtain ⟨mod, s₅, hmod, hc⟩ := run_bind_ok hc
  obtain ⟨el, p', hbuild, rfl⟩ := runBuilder_map_ok (ofExcept_run_ok hmod)
  refine ⟨coin, A, g, el, p', ofExcept_run_ok hcoin, ofExcept_run_ok hA, ofExcept_run_ok hg,
    hbuild, ?_⟩
  split at hc
  · obtain ⟨st, s₆, hloop, hc⟩ := run_bind_ok hc
    have hmods := forIn_inv_seen (fun pre (st : List (String × Tree) × List (String × String) ×
        ActionTree) => List.Forall₂ (fun q x => x.1 = q.1 ∧ ∃ el rm,
          Puzzle.build.run { q.2 with remarks := g.remarks } = .ok el rm ∧ x.2 = el.tree) pre st.1)
      (fun pre x st s r s' hI hrun => by
        obtain ⟨m, s₁, hm, hrun⟩ := run_bind_ok hrun
        obtain ⟨_, s₂, -, hrun⟩ := run_bind_ok hrun
        obtain ⟨_, s₃, -, hrun⟩ := run_bind_ok hrun
        cases hrun
        obtain ⟨el, p', hb, rfl⟩ := runBuilder_map_ok (ofExcept_run_ok hm)
        exact ⟨_, rfl, List.rel_append hI (.cons ⟨rfl, el, p', hb, rfl⟩ .nil)⟩)
      g.actionMods [] .nil hloop
    split at hc <;>
    · obtain ⟨_, s₇, -, hc⟩ := run_bind_ok hc
      obtain ⟨_, s₈, -, hc⟩ := run_bind_ok hc
      cases hc
      exact ⟨rfl, rfl, rfl, fun _ => hmods⟩
  · rename_i hne
    split at hc <;>
    · obtain ⟨_, s₇, -, hc⟩ := run_bind_ok hc
      obtain ⟨_, s₈, -, hc⟩ := run_bind_ok hc
      cases hc
      exact ⟨rfl, rfl, rfl, fun hm => absurd hm (by simpa using hne)⟩

/-- Compiling a coin in dispatch mode builds the main program around the dispatch over the
code of its actions. -/
theorem compileSource_dispatchReady {src : String} {opts : CompileOptions} {log log' : List String}
    {c : Compiled} (hc : (compileSource src opts).run log = .ok c log') (hm : c.mode = .dispatch) :
    ∃ A codes, c.DispatchReady A codes := by
  obtain ⟨coin, A, g, el, p', hcoin, hA, hg, hbuild, hmode, hmodc, hsigs, -⟩ := compileSource_main hc
  obtain ⟨codes, notes, t, hcodes, hsteps, htail, ht⟩ := generate_dispatch hg (hmode ▸ hm)
  have hlast := Puzzle.build_last hbuild (by simp [hsteps]) htail
  refine ⟨A, codes, hm, ?_, ?_, ?_, fun info hi => ?_, fun sg hsg => ?_⟩
  · rw [hmodc, hlast, ht]
  · rw [hsigs, generate_signatures hg]
  · rw [hsigs]
    exact hcodes
  · rw [analyze_coin hA]
    exact analyze_actions hA info hi
  · -- every action read from a text has a name that is not empty
    rw [hsigs, generate_signatures hg] at hsg
    obtain ⟨info, hi, rfl⟩ := List.mem_map.mp hsg
    exact analyze_actions_nonempty hcoin hA info hi

namespace Script.Compiled

variable {c : Compiled} {action : Option String} {sig : Script.Signature}

theorem signature_name (hm : c.mode ≠ .direct) (h : c.signature action = .ok sig) :
    sig.name = action.getD "default" := by
  unfold Compiled.signature at h
  split at h
  · exact absurd ‹c.mode = .direct› hm
  · simp only at h
    split at h
    · rename_i hfind
      cases h
      have hname := List.find?_some hfind
      exact beq_iff_eq.mp hname
    · cases h

end Script.Compiled

namespace Script.Compiled.DispatchReady

open Generate

variable {c : Compiled} {A : Analysis} {codes : List (String × Noted)}

theorem code_of_signature (hc : c.DispatchReady A codes) {sig : Script.Signature} (hsig : sig ∈ c.signatures) :
    ∃ code, codes.find? (·.1 == sig.name) = some (sig.name, code) ∧
      BodyOf A c.signatures (selfPuzzleHash (curriedNames A)) sig.name code := by
  have hsig' := hsig
  rw [hc.signatures] at hsig'
  obtain ⟨info, hi, rfl⟩ := List.mem_map.mp hsig'
  -- the action was recorded and has a signature, so the dispatch has code for it
  have hact : info.action ∈ dispatched A c.signatures := by
    refine List.mem_filter.mpr ⟨hc.actions info hi, ?_⟩
    have hrec : (A.action? info.action.name).isSome := List.find?_isSome.mpr ⟨info, hi, by simp⟩
    have hsg : (c.signatures.find? (·.name == info.action.name)).isSome :=
      List.find?_isSome.mpr ⟨_, hsig, by simp [ActionInfo.signature]⟩
    simp [hrec, hsg]
  exact hc.codes.find?_name hact

theorem signature_of_code (hc : c.DispatchReady A codes) {d : String × Noted} (hd : d ∈ codes) :
    ∃ sg ∈ c.signatures, sg.name = d.1 := by
  obtain ⟨act, hact, hname, -⟩ := hc.codes.exists_of_mem hd
  have hsg := (List.mem_filter.mp hact).2
  simp only [Bool.and_eq_true] at hsg
  obtain ⟨sg, hfind⟩ := Option.isSome_iff_exists.mp hsg.2
  exact ⟨sg, List.mem_of_find?_eq_some hfind, by simpa [hname] using List.find?_some hfind⟩

/-- The selector of a spend of an action runs the action's code: the code generated for its
name, or for no name the default action's. -/
theorem selects (hc : c.DispatchReady A codes) {action : Option String} {sig : Script.Signature}
    (hsig : c.signature action = .ok sig) :
    ∃ code, codes.find? (·.1 == sig.name) = some (sig.name, code) ∧
      BodyOf A c.signatures (selfPuzzleHash (curriedNames A)) sig.name code ∧
      ∀ (defs : List Defun) (env : Meaning.Env), NoOperatorDefs defs →
        env.lookup "action" = some (selectorOf sig action).tree →
        ∀ v, Evaluates defs env (dispatchOn codes).tree v ↔ Evaluates defs env code.tree v := by
  obtain ⟨code, hfind, hbody⟩ := hc.code_of_signature (signature_mem hsig)
  refine ⟨code, hfind, hbody, fun defs env hd haction v => ?_⟩
  have hname := Compiled.signature_name (by rw [hc.mode]; decide) hsig
  cases action with
  | none =>
    -- no name is the empty selector, which runs the default action
    rw [Option.getD_none] at hname
    rw [hname] at hfind
    have haction' : env.lookup "action" = some (.atom [] .bytes) := haction
    rw [dispatchOn_evaluates hd haction' codes v, selected_default hfind (.inl rfl)]
  | some n =>
    rw [Option.getD_some] at hname
    subst hname
    have haction' : env.lookup "action" = some (.atom sig.name.toUTF8.toList .string) := haction
    rw [dispatchOn_evaluates hd haction' codes v]
    by_cases hdef : sig.name = "default"
    · rw [hdef] at hfind
      rw [selected_default hfind (.inr (by rw [hdef]))]
    · -- a name read from a text is not empty, so it is not taken for the default action
      rw [selected_named hdef (.inl (hc.named sig (signature_mem hsig))), hfind]
      rfl

/-- A selector that names no action, and is not the empty one of a coin with a default action,
reaches the failure. -/
theorem unknown (hc : c.DispatchReady A codes) (s : List UInt8) (hint : Hint)
    (hs : ∀ sg ∈ c.signatures, s ≠ sg.name.toUTF8.toList)
    (hnil : s = [] → ∀ sg ∈ c.signatures, sg.name ≠ "default")
    (defs : List Defun) (env : Meaning.Env) (hd : NoOperatorDefs defs)
    (haction : env.lookup "action" = some (.atom s hint)) (v : Tree) :
    Evaluates defs env (dispatchOn codes).tree v ↔
      Evaluates defs env (failNode (some "unknown action")).tree v := by
  rw [dispatchOn_evaluates hd haction codes v, selected_unknown]
  · intro d hmem
    obtain ⟨sg, hsg, hname⟩ := hc.signature_of_code hmem
    exact hname ▸ hs sg hsg
  · intro hempty
    refine List.find?_eq_none.mpr fun d hmem hdef => ?_
    obtain ⟨sg, hsg, hname⟩ := hc.signature_of_code hmem
    exact hnil hempty sg hsg (hname.trans (by simpa using hdef))

end Script.Compiled.DispatchReady

end PuzzleKit
