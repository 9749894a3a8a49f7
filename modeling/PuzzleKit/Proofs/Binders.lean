import PuzzleKit.Proofs.Interface

/-!
# What a program binds

A program `(mod PARAMS …)` binds its curried parameters, its solution parameters and its rest
parameter, and declares constants `(defconstant NAME VALUE)` and functions
`(defun NAME (PARAMS…) BODY)`. It binds each name once (`BindsOnce`) when all these names are
distinct and no function takes the name of one of the program's constants or functions as a
parameter, which would hide that declaration inside the function.

`Declares cur sol rest ks fs p` reads those names off a builder as text. `Leads P Q m` says that
a run of the building call `m` from a puzzle where `P` holds ends where `Q` holds whenever it
succeeds; each call that code generation makes leads from one reading of the names to the
next, adding the names it is given (`declares_curriedParams`, `declares_defun`, …), and
`Declares.bindsOnce` turns a reading whose names are apart into `BindsOnce`.
-/

namespace PuzzleKit.Build.Puzzle

open Meaning

variable {α β γ : Type}

/-! ### Runs of building calls that succeed -/

/-- A building call that, run from a puzzle where `P` holds, ends where `Q` holds whenever it
succeeds. -/
def Leads (P Q : Puzzle → Prop) (m : PuzzleM α) : Prop :=
  ∀ p a p', P p → m.run p = .ok a p' → Q p'

section Leads

variable {P Q R : Puzzle → Prop}

theorem leads_pure (a : α) : Leads P P (pure a : PuzzleM α) := by
  intro p b p' hp h
  cases h
  exact hp

theorem leads_bind {x : PuzzleM α} {f : α → PuzzleM β} (hx : Leads P Q x)
    (hf : ∀ a, Leads Q R (f a)) : Leads P R (x >>= f) := by
  intro p b p' hp h
  obtain ⟨a, p₁, h1, h2⟩ := run_bind_ok h
  exact hf a p₁ b p' (hx p a p₁ hp h1) h2

theorem leads_modify {f : Puzzle → Puzzle} (hf : ∀ p, P p → Q (f p)) :
    Leads P Q (modify f : PuzzleM PUnit) := by
  intro p a p' hp h
  cases h
  exact hf p hp

theorem Leads.mono {m : PuzzleM α} (h : Leads P Q m) {P' Q' : Puzzle → Prop}
    (hP : ∀ p, P' p → P p) (hQ : ∀ p, Q p → Q' p) : Leads P' Q' m :=
  fun p a p' hp hr => hQ p' (h p a p' (hP p hp) hr)

/-- A loop whose round for each item goes on, and leads from what holds of the items before it
to what holds of them and the item, leads over all the items. -/
theorem leads_forIn_seen (I : List γ → Puzzle → Prop)
    {body : γ → PUnit → PuzzleM (ForInStep PUnit)}
    (hstep : ∀ pre x p r p', I pre p → (body x PUnit.unit).run p = .ok r p' →
      r = .yield PUnit.unit ∧ I (pre ++ [x]) p') :
    ∀ (xs pre : List γ), Leads (I pre) (I (pre ++ xs)) (forIn xs PUnit.unit body)
  | [], pre => by
    rw [List.append_nil]
    exact leads_pure _
  | x :: xs, pre => by
    rw [List.forIn_cons]
    intro p b p' hp h
    obtain ⟨r, p₁, h1, h2⟩ := run_bind_ok h
    obtain ⟨rfl, hp₁⟩ := hstep pre x p r p₁ hp h1
    have hrest := leads_forIn_seen I hstep xs (pre ++ [x]) p₁ b p' hp₁ h2
    rwa [List.append_assoc, List.singleton_append] at hrest

theorem leads_yield {m : PuzzleM α} (h : Leads P Q m) (p : Puzzle) (r : ForInStep PUnit)
    (p' : Puzzle) (hp : P p)
    (hrun : (do let _ ← m; pure (ForInStep.yield PUnit.unit)).run p = .ok r p') :
    r = .yield PUnit.unit ∧ Q p' := by
  obtain ⟨a, p₁, h1, h2⟩ := run_bind_ok hrun
  cases h2
  exact ⟨rfl, h p a _ hp h1⟩

end Leads

/-! ### The names a program binds -/

/-- The names a function's code `(defun NAME (PARAMS…) BODY)` takes as parameters: each atom of
its parameter list read as text, or none when one is not an atom of text. -/
def paramNames (el : Noted) : Option (List String) :=
  match el.tree with
  | .cons _ (.cons _ (.cons ps _)) =>
    ps.spine.mapM fun t => t.bytes?.bind fun b => (utf8Text b).toOption
  | _ => none

/-- A program binds each name once: its curried, solution and rest parameters and the names of
its constants and functions are distinct, and no function takes the name of a constant or a
function of the program as a parameter. -/
structure BindsOnce (p : Puzzle) : Prop where
  top : ∃ names, p.declared = .ok names ∧ names.Nodup
  params : ∃ decls, (p.constants ++ p.functions).mapM declName = .ok decls ∧
    ∀ el ∈ p.functions, ∃ ps, paramNames el = some ps ∧ ∀ x ∈ ps, x ∉ decls

/-- The builder binds the curried parameters `cur`, the solution parameters `sol` and the rest
parameter `rest`, and declares constants named `ks` and functions named as in `fs`, each with
the parameters it takes. -/
structure Declares (cur sol : List String) (rest : Option String) (ks : List String)
    (fs : List (String × List String)) (p : Puzzle) : Prop where
  curried : p.curriedNames = cur.map Value.str
  solution : p.solution = sol.map Value.str
  rest : p.rest = (rest.map Value.str).getD Value.none
  constants : p.constants.mapM declName = .ok ks
  functions : p.functions.mapM declName = .ok (fs.map (·.1))
  params : p.functions.map paramNames = fs.map (some ·.2)

theorem declares_start (name : Option String) (path : List Nat) (rm : Remarks) :
    Declares [] [] none [] [] ({ name, path, remarks := rm } : Puzzle) :=
  ⟨rfl, rfl, rfl, rfl, rfl, rfl⟩

section Declares

variable {cur sol : List String} {rest : Option String} {ks : List String}
  {fs : List (String × List String)} {p q : Puzzle}

theorem Declares.congr (h : Declares cur sol rest ks fs p) (hc : q.curried = p.curried)
    (hs : q.solution = p.solution) (hr : q.rest = p.rest) (hk : q.constants = p.constants)
    (hf : q.functions = p.functions) : Declares cur sol rest ks fs q := by
  refine ⟨?_, hs.trans h.solution, hr.trans h.rest, ?_, ?_, ?_⟩
  · rw [curriedNames, hc]
    exact h.curried
  · rw [hk]
    exact h.constants
  · rw [hf]
    exact h.functions
  · rw [hf]
    exact h.params

theorem Declares.withRemarks (h : Declares cur sol rest ks fs p) (rm : Remarks) :
    Declares cur sol rest ks fs { p with remarks := rm } :=
  h.congr rfl rfl rfl rfl rfl

/-! ### The building calls of code generation -/

theorem curriedParams_run : ∀ {names : List String} {p p' : Puzzle} {u : PUnit},
    (curriedParams (names.map Value.str)).run p = .ok u p' →
      p' = { p with curried := p.curried ++ names.map fun n => (Value.str n, none) }
  | [], p, p', u, h => by
    cases h
    simp
  | n :: ns, p, p', u, h => by
    rw [curriedParams, List.map_cons, List.forM] at h
    obtain ⟨_, p₁, h1, h2⟩ := run_bind_ok h
    have hp₁ : p₁ = { p with curried := p.curried ++ [(Value.str n, none)] } := by
      unfold curriedParam at h1
      dsimp only at h1
      obtain ⟨_, p₂, hget, h1⟩ := run_bind_ok h1
      cases hget
      by_cases hc : (p.curriedNames.any fun x => x.equal (Value.str n)) = true
      · rw [if_pos hc] at h1
        obtain ⟨_, _, hthrow, -⟩ := run_bind_ok h1
        cases hthrow
      · rw [if_neg hc] at h1
        cases h1
        rfl
    rw [curriedParams_run h2, hp₁, List.map_cons, List.append_assoc, List.singleton_append]

theorem solutionParams_run : ∀ {names : List String} {p p' : Puzzle} {u : PUnit},
    (solutionParams (names.map Value.str)).run p = .ok u p' →
      p' = { p with solution := p.solution ++ names.map Value.str }
  | [], p, p', u, h => by
    cases h
    simp
  | n :: ns, p, p', u, h => by
    rw [solutionParams, List.map_cons, List.forM] at h
    obtain ⟨_, p₁, h1, h2⟩ := run_bind_ok h
    have hp₁ : p₁ = { p with solution := p.solution ++ [Value.str n] } := by
      obtain ⟨_, p₂, hget, h1⟩ := run_bind_ok h1
      cases hget
      split at h1
      · obtain ⟨_, _, hthrow, -⟩ := run_bind_ok h1
        cases hthrow
      · cases h1
        rfl
    rw [solutionParams_run h2, hp₁, List.map_cons, List.append_assoc, List.singleton_append]

theorem declares_curriedParams (names : List String) :
    Leads (Declares cur sol rest ks fs) (Declares (cur ++ names) sol rest ks fs)
      (curriedParams (names.map Value.str)) := by
  intro p u p' h hrun
  rw [curriedParams_run hrun]
  refine ⟨?_, h.solution, h.rest, h.constants, h.functions, h.params⟩
  simp only [curriedNames, List.map_append, List.map_map]
  rw [← curriedNames, h.curried]
  rfl

theorem declares_solutionParams (names : List String) :
    Leads (Declares cur sol rest ks fs) (Declares cur (sol ++ names) rest ks fs)
      (solutionParams (names.map Value.str)) := by
  intro p u p' h hrun
  rw [solutionParams_run hrun]
  refine ⟨h.curried, ?_, h.rest, h.constants, h.functions, h.params⟩
  rw [h.solution, List.map_append]

theorem declares_restParam (s : String) :
    Leads (Declares cur sol none ks fs) (Declares cur sol (some s) ks fs) (restParam (.str s)) :=
  leads_modify fun _ h => ⟨h.curried, h.solution, rfl, h.constants, h.functions, h.params⟩

theorem declares_addInclude (path : Value) :
    Leads (Declares cur sol rest ks fs) (Declares cur sol rest ks fs) (addInclude path) := by
  refine leads_modify fun p h => ?_
  split
  · exact h
  · exact h.congr rfl rfl rfl rfl rfl

theorem declares_comment (text : Value) :
    Leads (Declares cur sol rest ks fs) (Declares cur sol rest ks fs) (comment text) :=
  leads_modify fun _ h => h.congr rfl rfl rfl rfl rfl

@[simp] theorem declName_withTag (t : Tag) (n : Noted) : declName (n.withTag t) = declName n := by
  cases n with
  | atom => rfl
  | cons f r _ =>
    cases r with
    | atom => rfl
    | cons f' _ _ => cases f' <;> rfl

@[simp] theorem paramNames_withTag (t : Tag) (n : Noted) : paramNames (n.withTag t) = paramNames n := by
  unfold paramNames
  rw [Noted.tree_withTag]

theorem declName_ofList (kw name : String) (args : List Noted) :
    declName (Noted.ofList (sym kw :: sym name :: args)) = .ok name :=
  utf8Text_toUTF8 name

theorem paramNames_ofList (kw name : String) (ps : List String) (b : Noted) :
    paramNames (Noted.ofList [sym kw, sym name, Noted.ofList (ps.map sym), b]) = some ps := by
  have hsyms : ∀ qs : List String, ((qs.map sym).map Noted.tree).mapM
      (fun t => t.bytes?.bind fun b => (utf8Text b).toOption) = some qs := by
    intro qs
    induction qs with
    | nil => rfl
    | cons q qs ih =>
      rw [List.map_cons, List.map_cons, List.mapM_cons, ih]
      simp only [sym, Noted.tree, Tree.bytes?, Option.bind_some, utf8Text_toUTF8]
      rfl
  unfold paramNames
  rw [Noted.tree_ofList]
  simp only [List.map_cons, List.map_nil, Tree.ofList, List.foldr_cons, List.foldr_nil]
  rw [Noted.tree_ofList, spine_ofList]
  simpa [Noted.nil, Noted.tree, Tree.spine] using hsyms ps

theorem declares_defconstant (name : String) (v : Noted) :
    Leads (Declares cur sol rest ks fs) (Declares cur sol rest (ks ++ [name]) fs)
      (defconstant (.str name) (.tree v)) := by
  intro p u p' h hrun
  cases hrun
  refine ⟨h.curried, h.solution, h.rest, ?_, h.functions, h.params⟩
  rw [List.mapM_append, h.constants, List.mapM_cons, declName_withTag]
  rw [show declName (call "defconstant" [sym name, v]) = .ok name from
    declName_ofList "defconstant" name [v]]
  rfl

theorem declares_defun (name : String) (ps : List String) (b : Noted) (inline : Bool) :
    Leads (Declares cur sol rest ks fs) (Declares cur sol rest ks (fs ++ [(name, ps)]))
      (defun (.str name) (.list (ps.map .str)) (.tree b) inline) := by
  intro p u p' h hrun
  have hps : (do (← (Value.list (ps.map .str)).iterate).mapM symOf) =
      (.ok (ps.map sym) : Except Failure (List Noted)) := mapM_symOf ps
  simp only [defun, hps] at hrun
  cases hrun
  refine ⟨h.curried, h.solution, h.rest, h.constants, ?_, ?_⟩
  · rw [List.mapM_append, h.functions, List.mapM_cons, declName_withTag, declName_ofList]
    simp [bind, Except.bind, pure, Except.pure]
  · rw [List.map_append, h.params, List.map_append]
    simp [paramNames_ofList]

theorem declares_returns (v : Value) :
    Leads (Declares cur sol rest ks fs) (Declares cur sol rest ks fs) (returns v) := by
  refine leads_bind (Q := Declares cur sol rest ks fs) (fun p a p' h hrun => ?_) fun _ =>
    leads_bind (Q := Declares cur sol rest ks fs) (fun p a p' h hrun => ?_) fun _ =>
      leads_modify fun p h => ?_
  · -- a step of the body changes no name
    obtain ⟨_, p₁, hget, hrun⟩ := run_bind_ok hrun
    cases hget
    split at hrun
    · obtain ⟨_, _, hthrow, -⟩ := run_bind_ok hrun
      cases hthrow
    · cases hrun
      exact h.congr rfl rfl rfl rfl rfl
  · cases hv : asElement v with
    | ok x =>
      rw [hv] at hrun
      cases hrun
      exact h
    | error e =>
      rw [hv] at hrun
      cases hrun
  · unfold endWith
    split
    · exact h.congr rfl rfl rfl rfl rfl
    · exact h.congr rfl rfl rfl rfl rfl

/-! ### Reading the names back -/

theorem mapM_asKey_str (xs : List String) :
    (xs.map Value.str).mapM Value.asKey = .ok (xs.map Value.str) := by
  induction xs with
  | nil => rfl
  | cons x xs ih =>
    rw [List.map_cons, List.mapM_cons, ih]
    rfl

theorem Declares.declared (h : Declares cur sol rest ks fs p) :
    p.declared = .ok ((cur ++ sol ++ rest.toList ++ ks ++ fs.map (·.1)).map Value.str) := by
  have hdecls : (p.constants ++ p.functions).mapM declName = .ok (ks ++ fs.map (·.1)) := by
    rw [List.mapM_append, h.constants, h.functions]
    rfl
  unfold Puzzle.declared
  rw [h.curried, h.solution, h.rest, hdecls, mapM_asKey_str, mapM_asKey_str]
  cases rest with
  | none => simp [bind, Except.bind, pure, Except.pure]
  | some s => simp [bind, Except.bind, pure, Except.pure, Except.map, Value.asKey, Value.hashable]

/-- A builder binds each name once when the names it binds are distinct and no function takes
the name of a constant or a function as a parameter. -/
theorem Declares.bindsOnce (h : Declares cur sol rest ks fs p)
    (htop : (cur ++ sol ++ rest.toList ++ ks ++ fs.map (·.1)).Nodup)
    (hparams : ∀ f ∈ fs, ∀ x ∈ f.2, x ∉ ks ++ fs.map (·.1)) : p.BindsOnce := by
  refine ⟨⟨_, h.declared, htop.map fun _ _ e => Value.str.inj e⟩, ⟨ks ++ fs.map (·.1), ?_, ?_⟩⟩
  · rw [List.mapM_append, h.constants, h.functions]
    rfl
  · intro el hel
    have hmem : paramNames el ∈ fs.map (some ·.2) := by
      rw [← h.params]
      exact List.mem_map_of_mem hel
    obtain ⟨f, hf, hfe⟩ := List.mem_map.mp hmem
    exact ⟨f.2, hfe.symm, hparams f hf⟩

end Declares

end PuzzleKit.Build.Puzzle
