import PuzzleKit.Build.Puzzle
import PuzzleKit.Build.Solution

/-!
# What a failed builder call leaves behind

A builder call that checks everything before it changes anything is all or nothing: when it
fails, the builder is as it was (`AllOrNothing`). Most calls are built that way: they read
their arguments, which may fail, and then make one change that cannot. The exceptions are
the calls that change the builder and then go on to something that may fail:

* adding several parameters adds them one by one, so a refused name keeps the names before it
  (`curriedParams_error`, `solutionParams_error`);
* ending the body with a failure or a value records the step that stops it before it reads the
  message or the value, so a refused message or value leaves that step, with the remarks it
  took, and no end (`fail_error`, `returns_error`);
* a branch counts itself as begun, and takes the remarks its arms made, before it reads its
  condition (`branch_error`);
* adding values to a solution adds them one by one, and adding an action adds its selector
  first (`Solution.add_error`, `Solution.addAction_error`).
-/

namespace PuzzleKit.Build

section Calls

variable {σ α β : Type}

/-- The state a call ends in, whether it succeeds or fails. -/
def finalState : EStateM.Result Failure σ α → σ
  | .ok _ s => s
  | .error _ s => s

/-- A call that, when it fails, leaves the state as it found it. -/
def AllOrNothing (m : EStateM Failure σ α) : Prop :=
  ∀ s e s', m.run s = .error e s' → s' = s

/-- A call that leaves the state as it found it, whatever it returns. -/
def ReadsOnly (m : EStateM Failure σ α) : Prop := ∀ s, finalState (m.run s) = s

/-- A call that never fails. -/
def NeverFails (m : EStateM Failure σ α) : Prop := ∀ s e s', m.run s ≠ .error e s'

theorem ReadsOnly.allOrNothing {m : EStateM Failure σ α} (h : ReadsOnly m) : AllOrNothing m :=
  fun s e s' hm => by simpa [hm, finalState] using h s

theorem NeverFails.allOrNothing {m : EStateM Failure σ α} (h : NeverFails m) : AllOrNothing m :=
  fun s e s' hm => absurd hm (h s e s')

theorem readsOnly_pure (a : α) : ReadsOnly (pure a : EStateM Failure σ α) := fun _ => rfl

theorem readsOnly_get : ReadsOnly (get : EStateM Failure σ σ) := fun _ => rfl

theorem readsOnly_throw (e : Failure) : ReadsOnly (throw e : EStateM Failure σ α) := fun _ => rfl

theorem neverFails_pure (a : α) : NeverFails (pure a : EStateM Failure σ α) :=
  fun _ _ _ h => by cases h

theorem neverFails_set (s : σ) : NeverFails (set s : EStateM Failure σ PUnit) :=
  fun _ _ _ h => by cases h

theorem neverFails_modify (f : σ → σ) : NeverFails (modify f : EStateM Failure σ PUnit) :=
  fun _ _ _ h => by cases h

theorem ReadsOnly.bind {x : EStateM Failure σ α} {f : α → EStateM Failure σ β}
    (hx : ReadsOnly x) (hf : ∀ a, ReadsOnly (f a)) : ReadsOnly (x >>= f) := by
  intro s
  have h := hx s
  rw [EStateM.run_bind]
  cases hrun : x.run s with
  | ok a s' =>
    rw [hrun] at h
    simp only [finalState] at h
    rw [h]
    exact hf a s
  | error e s' => simpa [hrun, finalState] using h

theorem ReadsOnly.map {x : EStateM Failure σ α} (hx : ReadsOnly x) (f : α → β) :
    ReadsOnly (f <$> x) := by
  intro s
  have h := hx s
  show finalState (EStateM.map f x s) = s
  simp only [EStateM.map]
  cases hrun : x s with
  | ok a s' => simpa [EStateM.run, hrun, finalState] using h
  | error e s' => simpa [EStateM.run, hrun, finalState] using h

theorem NeverFails.bind {x : EStateM Failure σ α} {f : α → EStateM Failure σ β}
    (hx : NeverFails x) (hf : ∀ a, NeverFails (f a)) : NeverFails (x >>= f) := by
  intro s e s' h
  rw [EStateM.run_bind] at h
  cases hrun : x.run s with
  | ok a s₁ => rw [hrun] at h; exact hf a s₁ e s' h
  | error e₁ s₁ => exact hx s e₁ s₁ hrun

theorem AllOrNothing.bind_of_readsOnly {x : EStateM Failure σ α} {f : α → EStateM Failure σ β}
    (hx : ReadsOnly x) (hf : ∀ a, AllOrNothing (f a)) : AllOrNothing (x >>= f) := by
  intro s e s' h
  have hs := hx s
  rw [EStateM.run_bind] at h
  cases hrun : x.run s with
  | ok a s₁ =>
    rw [hrun] at h hs
    simp only [finalState] at hs
    subst hs
    exact hf a _ e s' h
  | error e₁ s₁ =>
    rw [hrun] at h hs
    cases h
    exact hs

theorem AllOrNothing.ite {c : Prop} [Decidable c] {x y : EStateM Failure σ α}
    (hx : AllOrNothing x) (hy : AllOrNothing y) : AllOrNothing (if c then x else y) := by
  split
  · exact hx
  · exact hy

theorem allOrNothing_throw_bind (e : Failure) (f : PUnit → EStateM Failure σ α) :
    AllOrNothing (throw e >>= f) := fun _ _ _ h => by cases h; rfl

theorem error_of_bind_pure {x : EStateM Failure σ α} {b : β} {s s' : σ} {e : Failure}
    (h : (x >>= fun _ => pure b).run s = .error e s') : x.run s = .error e s' := by
  rw [EStateM.run_bind] at h
  cases hx : x.run s with
  | ok a s₁ => rw [hx] at h; cases h
  | error e₁ s₁ => rw [hx] at h; cases h; rfl

end Calls

namespace Puzzle

theorem readsOnly_lift {α : Type} (r : Except Failure α) : ReadsOnly (lift r) := by
  cases r <;> exact fun _ => rfl

theorem run_step_eq (s : Step) (p : Puzzle) :
    (step s).run p = if p.tail.isSome then .error afterEnd p
      else .ok () { p with steps := p.steps ++ [(p.pending, s)], pending := [] } := by
  simp only [step, EStateM.run_bind, EStateM.run_get]
  split <;> rfl

theorem allOrNothing_step (s : Step) : AllOrNothing (step s) := by
  intro p e q h
  rw [run_step_eq] at h
  split at h
  · cases h; rfl
  · cases h

theorem run_curriedParam_none (name : Value) (p : Puzzle) :
    (curriedParam name none).run p =
      if p.curriedNames.any (Value.equal · name) then
        .error (.generation ("duplicate curried parameter " ++ name.text)) p
      else .ok () { p with curried := p.curried ++ [(name, none)] } := by
  simp only [curriedParam, EStateM.run_bind, EStateM.run_get]
  split <;> rfl

/-! ### Calls that are all or nothing -/

theorem allOrNothing_curriedParam (name : Value) (value : Option Value) :
    AllOrNothing (curriedParam name value) := by
  unfold curriedParam
  refine AllOrNothing.bind_of_readsOnly readsOnly_get fun p => ?_
  refine AllOrNothing.ite (allOrNothing_throw_bind _ _) ?_
  cases value with
  | some v =>
    exact AllOrNothing.bind_of_readsOnly ((readsOnly_lift _).map _)
      fun _ => (neverFails_set _).allOrNothing
  | none => exact (neverFails_set _).allOrNothing

theorem neverFails_restParam (name : Value) : NeverFails (restParam name) := neverFails_modify _

theorem neverFails_addInclude (path : Value) : NeverFails (addInclude path) := neverFails_modify _

theorem neverFails_comment (text : Value) : NeverFails (comment text) := neverFails_modify _

theorem neverFails_noted (el : Noted) : NeverFails (noted el) :=
  NeverFails.bind (fun _ _ _ h => by cases h) fun _ =>
    NeverFails.bind (neverFails_set _) fun _ => neverFails_pure _

theorem allOrNothing_defconstant (name value : Value) : AllOrNothing (defconstant name value) :=
  AllOrNothing.bind_of_readsOnly (readsOnly_lift _) fun _ =>
    AllOrNothing.bind_of_readsOnly (readsOnly_lift _) fun _ =>
      (NeverFails.bind (neverFails_noted _) fun _ => neverFails_modify _).allOrNothing

theorem allOrNothing_defun (name params body : Value) (inline : Bool) :
    AllOrNothing (defun name params body inline) :=
  AllOrNothing.bind_of_readsOnly (readsOnly_lift _) fun _ =>
    AllOrNothing.bind_of_readsOnly (readsOnly_lift _) fun _ =>
      AllOrNothing.bind_of_readsOnly (readsOnly_lift _) fun _ =>
        (NeverFails.bind (neverFails_noted _) fun _ => neverFails_modify _).allOrNothing

theorem allOrNothing_addCondition (c : Noted) : AllOrNothing (addCondition c) :=
  allOrNothing_step _

theorem allOrNothing_condition (name : String) (args : List Value) :
    AllOrNothing (condition name args) := by
  unfold condition
  refine AllOrNothing.ite (allOrNothing_throw_bind _ _) ?_
  exact AllOrNothing.bind_of_readsOnly (readsOnly_lift _) fun _ =>
    AllOrNothing.bind_of_readsOnly (readsOnly_lift _) fun _ => allOrNothing_addCondition _

theorem allOrNothing_conditionOf (name : Value) (args : List Value) :
    AllOrNothing (conditionOf name args) :=
  AllOrNothing.bind_of_readsOnly (readsOnly_lift _) fun _ => allOrNothing_condition _ _

theorem allOrNothing_createCoin (ph amount memos : Value) :
    AllOrNothing (createCoin ph amount memos) := by
  unfold createCoin
  dsimp only
  split
  · exact AllOrNothing.bind_of_readsOnly (readsOnly_pure _) fun _ => allOrNothing_condition _ _
  · exact AllOrNothing.bind_of_readsOnly (readsOnly_lift _) fun _ =>
      AllOrNothing.bind_of_readsOnly (readsOnly_pure _) fun _ => allOrNothing_condition _ _

theorem allOrNothing_requireSignature (pk msg : Value) :
    AllOrNothing (requireSignature pk msg) := by
  unfold requireSignature
  exact allOrNothing_condition _ _

theorem allOrNothing_createAnnouncement (msg : Value) (puzzle : Bool) :
    AllOrNothing (createAnnouncement msg puzzle) := by
  unfold createAnnouncement
  exact allOrNothing_condition _ _

theorem allOrNothing_assertAnnouncement (id : Value) (puzzle : Bool) :
    AllOrNothing (assertAnnouncement id puzzle) := by
  unfold assertAnnouncement
  exact allOrNothing_condition _ _

theorem allOrNothing_conditionStep (stepName : String) (args : List Value) :
    AllOrNothing (conditionStep stepName args) := by
  unfold conditionStep
  split
  · exact allOrNothing_condition _ _
  · exact (readsOnly_throw _).allOrNothing

theorem allOrNothing_require (c msg : Value) : AllOrNothing (require c msg) :=
  AllOrNothing.bind_of_readsOnly (readsOnly_lift _) fun _ => allOrNothing_step _

/-! ### Calls that keep part of what they did -/

/-- Adding curried parameters one by one: the first name equal to one before it is refused, and
the names before it stay added. The induction is on the names, each added to the puzzle the
previous one left. -/
theorem curriedParams_error {names : List Value} {p q : Puzzle} {e : Failure}
    (h : (curriedParams names).run p = .error e q) :
    ∃ pre x post, names = pre ++ x :: post ∧
      (p.curriedNames ++ pre).any (Value.equal · x) = true ∧
      e = .generation ("duplicate curried parameter " ++ x.text) ∧
      q = { p with curried := p.curried ++ pre.map fun n => (n, none) } := by
  induction names generalizing p with
  | nil => cases h
  | cons x xs ih =>
    simp only [curriedParams, List.forM_eq_forM, List.forM_cons, EStateM.run_bind,
      run_curriedParam_none] at h
    by_cases hdup : p.curriedNames.any (Value.equal · x) = true
    · rw [if_pos hdup] at h
      cases h
      exact ⟨[], x, xs, rfl, by simpa using hdup, rfl, by simp⟩
    · rw [if_neg hdup] at h
      obtain ⟨pre, y, post, rfl, hdup', rfl, rfl⟩ := ih h
      refine ⟨x :: pre, y, post, rfl, ?_, rfl, by simp⟩
      simpa [curriedNames] using hdup'

theorem run_solutionParam (n : Value) (p : Puzzle) :
    (do
      let p ← get
      if p.solution.any (Value.itemEq n) then
        throw (Failure.generation ("duplicate solution parameter " ++ n.text))
      set { p with solution := p.solution ++ [n] } : PuzzleM Unit).run p =
      if p.solution.any (Value.itemEq n) then
        .error (.generation ("duplicate solution parameter " ++ n.text)) p
      else .ok () { p with solution := p.solution ++ [n] } := by
  simp only [EStateM.run_bind, EStateM.run_get]
  split <;> rfl

/-- Adding solution parameters one by one: the first name matching one before it is refused,
and the names before it stay added. -/
theorem solutionParams_error {names : List Value} {p q : Puzzle} {e : Failure}
    (h : (solutionParams names).run p = .error e q) :
    ∃ pre x post, names = pre ++ x :: post ∧
      (p.solution ++ pre).any (Value.itemEq x) = true ∧
      e = .generation ("duplicate solution parameter " ++ x.text) ∧
      q = { p with solution := p.solution ++ pre } := by
  induction names generalizing p with
  | nil => cases h
  | cons x xs ih =>
    rw [solutionParams, List.forM_eq_forM, List.forM_cons, EStateM.run_bind, run_solutionParam] at h
    by_cases hdup : p.solution.any (Value.itemEq x) = true
    · rw [if_pos hdup] at h
      cases h
      exact ⟨[], x, xs, rfl, by simpa using hdup, rfl, by simp⟩
    · rw [if_neg hdup] at h
      obtain ⟨pre, y, post, rfl, hdup', rfl, rfl⟩ := ih h
      exact ⟨x :: pre, y, post, rfl, by simpa using hdup', rfl, by simp⟩

theorem endStep_error {end_ : Except Failure Noted} {p q : Puzzle} {e : Failure}
    (h : (do step .stop; let v ← lift end_; modify fun p => p.endWith v : PuzzleM Unit).run p =
      .error e q) :
    (p.tail.isSome = true ∧ e = afterEnd ∧ q = p) ∨
      (p.tail = none ∧ end_ = .error e ∧
        q = { p with steps := p.steps ++ [(p.pending, .stop)], pending := [] }) := by
  simp only [EStateM.run_bind, run_step_eq] at h
  by_cases htail : p.tail.isSome = true
  · rw [if_pos htail] at h
    cases h
    exact .inl ⟨htail, rfl, rfl⟩
  · rw [if_neg htail] at h
    cases end_ with
    | ok v => cases h
    | error e' =>
      cases h
      exact .inr ⟨by simpa using htail, rfl, rfl⟩

theorem fail_error {msg : Value} {p q : Puzzle} {e : Failure}
    (h : (fail msg).run p = .error e q) :
    (p.tail.isSome = true ∧ e = afterEnd ∧ q = p) ∨
      (p.tail = none ∧ failNodeOf msg = .error e ∧
        q = { p with steps := p.steps ++ [(p.pending, .stop)], pending := [] }) :=
  endStep_error h

theorem returns_error {v : Value} {p q : Puzzle} {e : Failure}
    (h : (returns v).run p = .error e q) :
    (p.tail.isSome = true ∧ e = afterEnd ∧ q = p) ∨
      (p.tail = none ∧ asElement v = .error e ∧
        q = { p with steps := p.steps ++ [(p.pending, .stop)], pending := [] }) :=
  endStep_error h

/-- A branch counts itself as begun and takes the remarks its arms made before it reads its
condition; a refused branch keeps those two changes and nothing else. -/
theorem branch_error {c : Value} {yes : Puzzle} {no : Option Puzzle} {p q : Puzzle} {e : Failure}
    (h : (branch c yes no).run p = .error e q) :
    q = { p with remarks := (no.getD yes).remarks, branches := p.branches + 1 } := by
  simp only [branch, EStateM.run_bind, EStateM.run_modify] at h
  exact AllOrNothing.bind_of_readsOnly (readsOnly_lift _) (fun _ => allOrNothing_step _) _ e q h

theorem ifThen_error {α β : Type} {c : Value} {yes : PuzzleM α} {no : Option (PuzzleM β)}
    {p q : Puzzle} {e : Failure} (h : (ifThen c yes no).run p = .error e q) :
    ∃ rm, q = { p with remarks := rm, branches := p.branches + 1 } := by
  simp only [ifThen, EStateM.run_bind, EStateM.run_get] at h
  split at h
  · cases h
    exact ⟨_, rfl⟩
  · split at h
    · exact ⟨_, branch_error (error_of_bind_pure h)⟩
    · split at h
      · cases h
        exact ⟨_, rfl⟩
      · exact ⟨_, branch_error (error_of_bind_pure h)⟩

end Puzzle

namespace Solution

theorem readsOnly_lift {α : Type} (r : Except Failure α) : ReadsOnly (lift r) := by
  cases r <;> exact fun _ => rfl

theorem neverFails_push (el : Noted) : NeverFails (push el) := neverFails_modify _

theorem neverFails_addNil : NeverFails addNil := neverFails_push _

theorem neverFails_addMerkleProof (proof : List (List UInt8)) :
    NeverFails (addMerkleProof proof) :=
  neverFails_push _

theorem allOrNothing_addList (v : Value) : AllOrNothing (addList v) :=
  AllOrNothing.bind_of_readsOnly (readsOnly_lift _) fun _ =>
    AllOrNothing.bind_of_readsOnly (readsOnly_lift _) fun _ => (neverFails_push _).allOrNothing

theorem allOrNothing_addListBuilt {α : Type} (fn : SolutionM α) : AllOrNothing (addListBuilt fn) := by
  intro s e s' h
  unfold addListBuilt at h
  split at h
  · cases h
  · cases h
    rfl

theorem allOrNothing_addConditions {α : Type} (fn : ConditionListM α) :
    AllOrNothing (addConditions fn) := by
  intro s e s' h
  unfold addConditions at h
  split at h
  · cases h
  · cases h
    rfl

theorem allOrNothing_addState (schema : StateSchema) (values : List (Value × Value)) :
    AllOrNothing (addState schema values) := by
  unfold addState
  split
  · exact (neverFails_push _).allOrNothing
  · exact (readsOnly_throw _).allOrNothing

/-- Adding host values one by one: the first value that does not coerce is refused, and the
values before it stay added. The induction is on the values, each added to the solution the
previous one left. -/
theorem add_error {vs : List Value} {s s' : Solution} {e : Failure}
    (h : (add vs).run s = .error e s') :
    ∃ pre x post els, vs = pre ++ x :: post ∧ pre.mapM coerce = .ok els ∧ coerce x = .error e ∧
      s' = ⟨s.items ++ els⟩ := by
  induction vs generalizing s with
  | nil => cases h
  | cons x xs ih =>
    rw [add, List.forM_eq_forM, List.forM_cons, EStateM.run_bind, EStateM.run_bind] at h
    cases hx : coerce x with
    | error e' =>
      rw [hx] at h
      cases h
      exact ⟨[], x, xs, [], rfl, rfl, hx, by simp⟩
    | ok el =>
      rw [hx] at h
      obtain ⟨pre, y, post, els, rfl, hpre, hy, rfl⟩ := ih h
      refine ⟨x :: pre, y, post, el :: els, rfl, ?_, hy, by simp⟩
      rw [List.mapM_cons, hx, hpre]
      rfl

/-- Adding an action: its selector goes in first, then its arguments one by one, so a refused
argument keeps the selector and the arguments before it. -/
theorem addAction_error {name : Option String} {args : List Value} {s s' : Solution} {e : Failure}
    (h : (addAction name args).run s = .error e s') :
    ∃ pre x post els, args = pre ++ x :: post ∧ pre.mapM coerce = .ok els ∧
      coerce x = .error e ∧
      s' = ⟨s.items ++ (match name with | some n => str n | none => Noted.nil) :: els⟩ := by
  simp only [addAction, push, EStateM.run_bind, EStateM.run_modify] at h
  obtain ⟨pre, x, post, els, rfl, hpre, hx, rfl⟩ := add_error h
  refine ⟨pre, x, post, els, rfl, hpre, hx, ?_⟩
  cases name <;> simp

theorem addActionOf_error {name : Value} {args : List Value} {s s' : Solution} {e : Failure}
    (h : (addActionOf name args).run s = .error e s') :
    (name.utf8Text = .error e ∧ s' = s) ∨
      ∃ sel pre x post els, args = pre ++ x :: post ∧ pre.mapM coerce = .ok els ∧
        coerce x = .error e ∧ s' = ⟨s.items ++ sel :: els⟩ := by
  unfold addActionOf at h
  split at h
  · obtain ⟨pre, x, post, els, hargs, hpre, hx, hs⟩ := addAction_error h
    exact .inr ⟨_, pre, x, post, els, hargs, hpre, hx, hs⟩
  · rw [EStateM.run_bind] at h
    cases hu : name.utf8Text with
    | error e' =>
      rw [hu] at h
      obtain ⟨rfl, rfl⟩ := EStateM.Result.error.inj h
      exact .inl ⟨rfl, rfl⟩
    | ok t =>
      rw [hu] at h
      obtain ⟨pre, x, post, els, hargs, hpre, hx, hs⟩ := addAction_error h
      exact .inr ⟨_, pre, x, post, els, hargs, hpre, hx, hs⟩

end Solution

open Puzzle in
/-- What a failed builder call leaves behind, for a call on the puzzle `p` that fails with `e`
leaving `q`, and on the solution `s` leaving `s'`. Adding several parameters keeps the names
before the refused one; a failed end of the body keeps its step when the message or value is
refused; a failed branch, whether its arms or its condition failed, keeps its count and the
remarks of its arms; every other puzzle call reads its arguments before its one change, so it
keeps the whole puzzle when it fails, and adding a rest parameter, an include or a remark cannot
fail. On a solution, adding values or an action keeps what went in before the refused value,
and every other call, adding the list or the conditions a callable builds included, is all or
nothing. -/
theorem failed_builder_call_keeps (p q : Puzzle) (s s' : Solution) (e : Failure) :
    (∀ names, (curriedParams names).run p = .error e q →
      ∃ pre x post, names = pre ++ x :: post ∧
        (p.curriedNames ++ pre).any (Value.equal · x) = true ∧
        e = .generation ("duplicate curried parameter " ++ x.text) ∧
        q = { p with curried := p.curried ++ pre.map fun n => (n, none) }) ∧
    (∀ names, (solutionParams names).run p = .error e q →
      ∃ pre x post, names = pre ++ x :: post ∧ (p.solution ++ pre).any (Value.itemEq x) = true ∧
        e = .generation ("duplicate solution parameter " ++ x.text) ∧
        q = { p with solution := p.solution ++ pre }) ∧
    (∀ msg, (fail msg).run p = .error e q →
      (p.tail.isSome = true ∧ e = afterEnd ∧ q = p) ∨
        (p.tail = none ∧ failNodeOf msg = .error e ∧
          q = { p with steps := p.steps ++ [(p.pending, .stop)], pending := [] })) ∧
    (∀ v, (returns v).run p = .error e q →
      (p.tail.isSome = true ∧ e = afterEnd ∧ q = p) ∨
        (p.tail = none ∧ asElement v = .error e ∧
          q = { p with steps := p.steps ++ [(p.pending, .stop)], pending := [] })) ∧
    (∀ c yes no, (branch c yes no).run p = .error e q →
      q = { p with remarks := (no.getD yes).remarks, branches := p.branches + 1 }) ∧
    (∀ (α β : Type) c (yes : PuzzleM α) (no : Option (PuzzleM β)),
      (ifThen c yes no).run p = .error e q →
        ∃ rm, q = { p with remarks := rm, branches := p.branches + 1 }) ∧
    (∀ vs, (Solution.add vs).run s = .error e s' →
      ∃ pre x post els, vs = pre ++ x :: post ∧ pre.mapM coerce = .ok els ∧
        coerce x = .error e ∧ s' = ⟨s.items ++ els⟩) ∧
    (∀ name args, (Solution.addAction name args).run s = .error e s' →
      ∃ pre x post els, args = pre ++ x :: post ∧ pre.mapM coerce = .ok els ∧
        coerce x = .error e ∧
        s' = ⟨s.items ++ (match name with | some n => str n | none => Noted.nil) :: els⟩) ∧
    (∀ name args, (Solution.addActionOf name args).run s = .error e s' →
      (name.utf8Text = .error e ∧ s' = s) ∨
        ∃ sel pre x post els, args = pre ++ x :: post ∧ pre.mapM coerce = .ok els ∧
          coerce x = .error e ∧ s' = ⟨s.items ++ sel :: els⟩) ∧
    (∀ name value, (curriedParam name value).run p = .error e q → q = p) ∧
    (∀ name, (restParam name).run p ≠ .error e q) ∧
    (∀ path, (addInclude path).run p ≠ .error e q) ∧
    (∀ name value, (defconstant name value).run p = .error e q → q = p) ∧
    (∀ name params body inline, (defun name params body inline).run p = .error e q → q = p) ∧
    (∀ text, (comment text).run p ≠ .error e q) ∧
    (∀ c, (addCondition c).run p = .error e q → q = p) ∧
    (∀ name args, (Puzzle.condition name args).run p = .error e q → q = p) ∧
    (∀ name args, (Puzzle.conditionOf name args).run p = .error e q → q = p) ∧
    (∀ stepName args, (conditionStep stepName args).run p = .error e q → q = p) ∧
    (∀ ph amount memos, (createCoin ph amount memos).run p = .error e q → q = p) ∧
    (∀ pk msg, (requireSignature pk msg).run p = .error e q → q = p) ∧
    (∀ msg puzzle, (createAnnouncement msg puzzle).run p = .error e q → q = p) ∧
    (∀ id puzzle, (assertAnnouncement id puzzle).run p = .error e q → q = p) ∧
    (∀ c msg, (require c msg).run p = .error e q → q = p) ∧
    (∀ v, (Solution.addList v).run s = .error e s' → s' = s) ∧
    (∀ (α : Type) (fn : SolutionM α), (Solution.addListBuilt fn).run s = .error e s' → s' = s) ∧
    (∀ (α : Type) (fn : ConditionListM α),
      (Solution.addConditions fn).run s = .error e s' → s' = s) ∧
    Solution.addNil.run s ≠ .error e s' ∧
    (∀ schema values, (Solution.addState schema values).run s = .error e s' → s' = s) ∧
    (∀ proof, (Solution.addMerkleProof proof).run s ≠ .error e s') :=
  ⟨fun _ => curriedParams_error, fun _ => solutionParams_error, fun _ => fail_error,
    fun _ => returns_error, fun _ _ _ => branch_error, fun _ _ _ _ _ => ifThen_error,
    fun _ => Solution.add_error,
    fun _ _ => Solution.addAction_error, fun _ _ => Solution.addActionOf_error,
    fun name value => allOrNothing_curriedParam name value p e q,
    fun name => neverFails_restParam name p e q,
    fun path => neverFails_addInclude path p e q,
    fun name value => allOrNothing_defconstant name value p e q,
    fun name params body inline => allOrNothing_defun name params body inline p e q,
    fun text => neverFails_comment text p e q,
    fun c => allOrNothing_addCondition c p e q,
    fun name args => allOrNothing_condition name args p e q,
    fun name args => allOrNothing_conditionOf name args p e q,
    fun stepName args => allOrNothing_conditionStep stepName args p e q,
    fun ph amount memos => allOrNothing_createCoin ph amount memos p e q,
    fun pk msg => allOrNothing_requireSignature pk msg p e q,
    fun msg puzzle => allOrNothing_createAnnouncement msg puzzle p e q,
    fun id puzzle => allOrNothing_assertAnnouncement id puzzle p e q,
    fun c msg => allOrNothing_require c msg p e q,
    fun v => Solution.allOrNothing_addList v s e s',
    fun _ fn => Solution.allOrNothing_addListBuilt fn s e s',
    fun _ fn => Solution.allOrNothing_addConditions fn s e s',
    Solution.neverFails_addNil s e s',
    fun schema values => Solution.allOrNothing_addState schema values s e s',
    fun proof => Solution.neverFails_addMerkleProof proof s e s'⟩

open Puzzle in
/-- Adding the curried parameters `A` and `A` to a new puzzle refuses the second `A` and keeps
the first. -/
theorem failed_builder_call_keeps_first_name :
    (curriedParams [.str "A", .str "A"]).run {} =
      .error (.generation "duplicate curried parameter A") { curried := [(.str "A", none)] } ∧
    ∃ pre x post, [Value.str "A", .str "A"] = pre ++ x :: post ∧
      (({} : Puzzle).curriedNames ++ pre).any (Value.equal · x) = true ∧
      Failure.generation "duplicate curried parameter A" =
        .generation ("duplicate curried parameter " ++ x.text) ∧
      ({ curried := [(.str "A", none)] } : Puzzle) =
        { ({} : Puzzle) with curried := ({} : Puzzle).curried ++ pre.map fun n => (n, none) } := by
  have hrun : (curriedParams [.str "A", .str "A"]).run {} =
      .error (.generation "duplicate curried parameter A") { curried := [(.str "A", none)] } := by
    simp [curriedParams, List.forM_eq_forM, run_curriedParam_none, curriedNames, Value.equal,
      Value.text]
  exact ⟨hrun, (failed_builder_call_keeps {} _ ⟨[]⟩ ⟨[]⟩ _).1 _ hrun⟩

end PuzzleKit.Build
