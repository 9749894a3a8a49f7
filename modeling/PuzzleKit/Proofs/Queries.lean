import PuzzleKit.Proofs.BuildView
import PuzzleKit.Proofs.CurriedHash
import PuzzleKit.Proofs.FailedCalls
import PuzzleKit.Proofs.ActionNames
import PuzzleKit.Proofs.Binders

/-!
# Asking a puzzle builder

A puzzle builder answers queries: the code of its body, its include files, the whole program,
the program's text in a layout, the program's hash, the curried program and its hash. Each
query builds the body once, and building attaches remarks; that is all a query changes
(`Query.endState_run`). The answers that read code read it as a tree, which the remarks do
not touch, so every answer but an indented text is the same whatever queries were asked
before (`Query.answer_with_remarks`).

An indented text shows the remarks, and a step that ends the body hands its remarks to the
value the body ends with at every build, so a later text can show them once more. When no
such step carries remarks and the stored code carries only keys the store has handed out
(`Puzzle.Settled`), building only adds new joint keys, and the text stays the same too
(`Query.answer_of_grown`). The empty builder is settled, and the calls that build a body keep
it so as long as no remarks are pending when the body ends (`leads_settled_returns`, …).
-/

namespace PuzzleKit.Build

namespace Puzzle

/-! ### What each query computes -/

/-- The program around a built body: the include files it needs, checked, the parameter list,
the declarations and the body. -/
def program (p : Puzzle) (body : Noted) : Except Failure Noted := do
  let incs ← (do (← p.includesFor body).mapM checkInclude)
  let params ← p.paramsElement
  return Noted.ofList ([sym "mod", params] ++ incs.map (fun i => call "include" [sym i]) ++
    p.constants ++ p.functions ++ [body])

theorem lift_bind {α β : Type} (x : Except Failure α) (f : α → Except Failure β) :
    lift (x >>= f) = lift x >>= fun a => lift (f a) := by
  cases x <;> rfl

@[simp] theorem answerOf_lift {α : Type} (r : Except Failure α) (p : Puzzle) :
    answerOf ((lift r).run p) = r := by
  cases r <;> rfl

@[simp] theorem program_with_remarks (p : Puzzle) (rm : Remarks) (n : Noted) :
    { p with remarks := rm }.program n = p.program n := rfl

@[simp] theorem body_with_remarks (p : Puzzle) (rm : Remarks) :
    { p with remarks := rm }.body = p.body := rfl

@[simp] theorem includesFor_with_remarks (p : Puzzle) (rm : Remarks) (n : Noted) :
    { p with remarks := rm }.includesFor n = p.includesFor n := rfl

theorem build_eq : build = (do let body ← buildBody; lift ((← get).program body)) := by
  simp only [build, program, lift_bind]
  rfl

theorem run_buildBody (p : Puzzle) (next : Noted) :
    (buildBody next).run p = match (p.body.build next).run p.remarks with
      | .ok n rm => .ok n { p with remarks := rm }
      | .error e rm => .error e { p with remarks := rm } := by
  simp only [buildBody, EStateM.run_bind, EStateM.run_get]
  cases (p.body.build next).run p.remarks <;> rfl

theorem run_buildBody_bind {α : Type} (p : Puzzle) (k : Noted → PuzzleM α) :
    (buildBody >>= k).run p = match (p.body.build Noted.nil).run p.remarks with
      | .ok n rm => (k n).run { p with remarks := rm }
      | .error e rm => .error e { p with remarks := rm } := by
  rw [EStateM.run_bind, run_buildBody]
  cases (p.body.build Noted.nil).run p.remarks <;> rfl

theorem run_buildBody_get_lift {α : Type} (p : Puzzle) (f : Puzzle → Noted → Except Failure α) :
    (buildBody >>= fun n => get >>= fun q => lift (f q n)).run p =
      match (p.body.build Noted.nil).run p.remarks with
      | .ok n rm => (lift (f { p with remarks := rm } n)).run { p with remarks := rm }
      | .error e rm => .error e { p with remarks := rm } := by
  rw [run_buildBody_bind]
  rfl

theorem run_build (p : Puzzle) :
    build.run p = match (p.body.build Noted.nil).run p.remarks with
      | .ok n rm => (lift (p.program n)).run { p with remarks := rm }
      | .error e rm => .error e { p with remarks := rm } := by
  rw [build_eq]
  exact run_buildBody_get_lift p program

theorem answerOf_serialize (p : Puzzle) (indented : Bool) (width : Bound) :
    answerOf ((serialize indented width).run p) =
      match (p.body.build Noted.nil).run p.remarks with
      | .ok n rm => (p.program n).bind (({ indented, width } : Style).write rm [])
      | .error e _ => .error e := by
  rw [serialize, EStateM.run_bind, run_build]
  cases (p.body.build Noted.nil).run p.remarks with
  | ok n rm =>
    dsimp only
    cases p.program n with
    | error e => rfl
    | ok el => exact answerOf_lift _ _
  | error e rm => rfl

/-! ### The queries -/

/-- What a builder can be asked. -/
inductive Query where
  /-- The code of the body. -/
  | body
  /-- The include files of the program. -/
  | includes
  /-- The whole program. -/
  | program
  /-- The text of the program, indented or on one line, within a line width. -/
  | text (indented : Bool) (width : Bound)
  /-- The hash of the program. -/
  | modHash
  /-- The program curried with values. -/
  | curried (values : List Value)
  /-- The hash of the program curried with values. -/
  | puzzleHash (values : List Value)

/-- What a query answers, as a caller sees it: code is seen as its tree. -/
inductive Answer where
  | code (t : Tree)
  | files (fs : List Value)
  | text (s : String)
  | hash (h : List UInt8)

/-- Asks a query of the builder. -/
def Query.run : Query → PuzzleM Answer
  | .body => do return .code (← buildBody).tree
  | .includes => do return .files (← includeList)
  | .program => do return .code (← build).tree
  | .text indented width => do return .text (← serialize indented width)
  | .modHash => do return .hash (← Puzzle.modHash)
  | .curried values => do return .code (← curriedProgram values)
  | .puzzleHash values => do return .hash (← Puzzle.puzzleHash values)

/-- Whether a query's answer can show remarks: only an indented text does. -/
def Query.showsRemarks : Query → Bool
  | .text indented _ => indented
  | _ => false

/-- The builder after it has been asked the queries `qs`, in order. -/
def afterQueries (p : Puzzle) (qs : List Query) : Puzzle :=
  qs.foldl (fun p q => endState (q.run.run p)) p

/-! ### What a query leaves -/

/-- The puzzle with the remark store building its body from its store leaves. -/
def rebuilt (p : Puzzle) : Puzzle :=
  { p with remarks := finalState ((p.body.build Noted.nil).run p.remarks) }

/-- A building call that ends in the puzzle with its body rebuilt, whatever it returns. -/
def Rebuilds {α : Type} (x : PuzzleM α) : Prop := ∀ p, endState (x.run p) = p.rebuilt

theorem rebuilds_buildBody : Rebuilds (buildBody Noted.nil) := fun p => by
  rw [run_buildBody, rebuilt]
  cases (p.body.build Noted.nil).run p.remarks <;> rfl

theorem Rebuilds.bind {α β : Type} {x : PuzzleM α} {f : α → PuzzleM β} (hx : Rebuilds x)
    (hf : ∀ a, Keeps (f a)) : Rebuilds (x >>= f) := fun p => by
  rw [endState_bind x hf, hx]

theorem rebuilds_build : Rebuilds build := by
  rw [build_eq]
  exact rebuilds_buildBody.bind fun _ => keeps_get_bind fun _ => keeps_lift _

theorem rebuilds_build_bind {α : Type} {f : Noted → PuzzleM α} (hf : ∀ a, Keeps (f a)) :
    Rebuilds (build >>= f) :=
  rebuilds_build.bind hf

theorem endState_keeps_bind {α β : Type} {x : PuzzleM α} {f : α → PuzzleM β} (hx : Keeps x)
    (hf : ∀ a, Rebuilds (f a)) (p : Puzzle) :
    endState ((x >>= f).run p) = p ∨ endState ((x >>= f).run p) = p.rebuilt := by
  have hp := hx p
  rw [EStateM.run_bind]
  cases hrun : x.run p with
  | ok a q =>
    rw [hrun] at hp
    cases hp
    exact .inr (hf a _)
  | error e q =>
    rw [hrun] at hp
    exact .inl hp

/-- A query changes the builder only by building the body, and only when it gets that far. -/
theorem Query.endState_run (q : Query) (p : Puzzle) :
    endState (q.run.run p) = p ∨ endState (q.run.run p) = p.rebuilt := by
  cases q with
  | body => exact .inr (rebuilds_buildBody.bind (fun _ => keeps_pure _) p)
  | includes =>
    exact .inr ((rebuilds_buildBody.bind fun _ => keeps_get_bind fun _ => keeps_lift _).bind
      (fun _ => keeps_pure _) p)
  | program => exact .inr (rebuilds_build_bind (fun _ => keeps_pure _) p)
  | text indented width =>
    exact .inr ((rebuilds_build_bind fun _ => keeps_get_bind fun _ => keeps_lift _).bind
      (fun _ => keeps_pure _) p)
  | modHash =>
    simp only [Query.run, Puzzle.modHash, bind_assoc, pure_bind]
    exact .inr (rebuilds_build_bind (fun _ => keeps_pure _) p)
  | curried values =>
    exact .inr ((rebuilds_build_bind fun _ =>
      keeps_bind (curryValues_endState values) fun _ => keeps_pure _).bind (fun _ => keeps_pure _) p)
  | puzzleHash values =>
    -- the values are read before anything is built: when they are refused nothing changes
    simp only [Query.run, Puzzle.puzzleHash, Puzzle.modHash, bind_assoc, pure_bind]
    exact endState_keeps_bind (curryValues_endState values)
      (fun _ => rebuilds_build_bind fun _ => keeps_pure _) p

theorem afterQueries_eq_remarks (p : Puzzle) (qs : List Query) :
    ∃ rm, p.afterQueries qs = { p with remarks := rm } := by
  induction qs generalizing p with
  | nil => exact ⟨p.remarks, rfl⟩
  | cons q qs ih =>
    obtain ⟨rm', hq⟩ : ∃ rm', endState (q.run.run p) = { p with remarks := rm' } := by
      rcases q.endState_run p with h | h
      · exact ⟨p.remarks, h⟩
      · exact ⟨_, h⟩
    obtain ⟨rm, hrm⟩ := ih (endState (q.run.run p))
    exact ⟨rm, by rw [afterQueries, List.foldl_cons, ← afterQueries, hrm, hq]⟩

/-! ### The tree of the code -/

theorem symbolText_congr {n n' : Noted} (h : n.tree = n'.tree) : symbolText n = symbolText n' := by
  cases n <;> cases n' <;> simp only [Noted.tree, Tree.atom.injEq, reduceCtorEq] at h
  · obtain ⟨rfl, rfl⟩ := h
    rename_i hint _ _
    cases hint <;> rfl
  · rfl

theorem visit_congr (declared : List String) (add : List String → String → List String) :
    ∀ {n n' : Noted}, n.tree = n'.tree → ∀ found,
      autoIncludes.visit declared add found n = autoIncludes.visit declared add found n'
  | .atom b h t, .atom b' h' t', hn, found => by
    rw [autoIncludes.visit, autoIncludes.visit, symbolText_congr hn]
  | .cons f r t, .cons f' r' t', hn, found => by
    simp only [Noted.tree, Tree.cons.injEq] at hn
    rw [autoIncludes.visit, autoIncludes.visit]
    simp only [headSymbol, symbolText_congr hn.1, visit_congr declared add hn.1,
      visit_congr declared add hn.2]
  | .atom _ _ _, .cons _ _ _, hn, _ => by simp [Noted.tree] at hn
  | .cons _ _ _, .atom _ _ _, hn, _ => by simp [Noted.tree] at hn

theorem foldlM_visit_congr (declared : List String) (add : List String → String → List String) :
    ∀ {ts ts' : List Noted}, ts.map Noted.tree = ts'.map Noted.tree → ∀ found,
      ts.foldlM (autoIncludes.visit declared add) found =
        ts'.foldlM (autoIncludes.visit declared add) found
  | [], [], _, _ => rfl
  | t :: ts, t' :: ts', h, found => by
    simp only [List.map_cons, List.cons.injEq] at h
    simp only [List.foldlM_cons, visit_congr declared add h.1,
      foldlM_visit_congr declared add h.2]
  | [], _ :: _, h, _ => by simp at h
  | _ :: _, [], h, _ => by simp at h

theorem includesFor_congr (p : Puzzle) {n n' : Noted} (h : n.tree = n'.tree) :
    p.includesFor n = p.includesFor n' := by
  have hts : (p.constants ++ p.functions ++ [n]).map Noted.tree =
      (p.constants ++ p.functions ++ [n']).map Noted.tree := by
    simp [h]
  simp only [includesFor, autoIncludes, foldlM_visit_congr _ _ hts]

theorem program_congr (p : Puzzle) {n n' : Noted} (h : n.tree = n'.tree) :
    (p.program n).map Noted.tree = (p.program n').map Noted.tree := by
  simp only [program, includesFor_congr p h]
  cases (do (← p.includesFor n').mapM checkInclude : Except Failure (List String)) with
  | error e => rfl
  | ok incs =>
    cases p.paramsElement with
    | error e => rfl
    | ok params =>
      show Except.ok (Noted.ofList _ _).tree = Except.ok (Noted.ofList _ _).tree
      simp [Noted.tree_ofList, h]

/-! ### Answers that read the code as a tree -/

theorem answerOf_bind_of_keeps {α β : Type} {x : PuzzleM α} (hx : Keeps x) (f : α → PuzzleM β)
    (s : Puzzle) :
    answerOf ((x >>= f).run s) = (answerOf (x.run s)).bind fun a => answerOf ((f a).run s) := by
  have hs := hx s
  rw [EStateM.run_bind]
  cases hrun : x.run s with
  | ok a q =>
    rw [hrun] at hs
    cases hs
    rfl
  | error e q => rfl

theorem answerOf_bind_pure {α β : Type} (x : PuzzleM α) (f : α → β) (s : Puzzle) :
    answerOf ((x >>= fun a => pure (f a)).run s) = (answerOf (x.run s)).map f := by
  rw [EStateM.run_bind]
  cases x.run s <;> rfl

theorem answerOf_get_bind {α : Type} (f : Puzzle → PuzzleM α) (s : Puzzle) :
    answerOf ((get >>= f).run s) = answerOf ((f s).run s) := rfl

theorem bind_congr_of_tree {β : Type} {r r' : Except Failure Noted}
    (h : r.map Noted.tree = r'.map Noted.tree) {g : Noted → Except Failure β}
    (hg : ∀ a b, a.tree = b.tree → g a = g b) : r.bind g = r'.bind g := by
  cases r with
  | ok a =>
    cases r' with
    | ok b => exact hg a b (Except.ok.inj h)
    | error e' => cases h
  | error e =>
    cases r' with
    | ok b => cases h
    | error e' =>
      cases h
      rfl

theorem answerOf_buildBody_bind {β : Type} (p : Puzzle) {k : Noted → PuzzleM β}
    {g : Noted → Except Failure β}
    (hk : ∀ n rm, answerOf ((k n).run { p with remarks := rm }) = g n) :
    answerOf ((buildBody >>= k).run p) =
      (answerOf ((p.body.build Noted.nil).run p.remarks)).bind g := by
  rw [run_buildBody_bind]
  cases (p.body.build Noted.nil).run p.remarks with
  | ok n rm => exact hk n rm
  | error e rm => rfl

theorem answerOf_buildBody_bind_remarks {β : Type} (p : Puzzle) (rm : Remarks)
    {k : Noted → PuzzleM β} {g : Noted → Except Failure β}
    (hk : ∀ n rm', answerOf ((k n).run { p with remarks := rm' }) = g n)
    (hg : ∀ a b, a.tree = b.tree → g a = g b) :
    answerOf ((buildBody >>= k).run { p with remarks := rm }) =
      answerOf ((buildBody >>= k).run p) :=
  calc answerOf ((buildBody >>= k).run { p with remarks := rm })
      = (answerOf ((p.body.build Noted.nil).run rm)).bind g :=
        answerOf_buildBody_bind { p with remarks := rm } fun n rm' => hk n rm'
    _ = (answerOf ((p.body.build Noted.nil).run p.remarks)).bind g :=
        bind_congr_of_tree (body_sameTree p.body rfl rm p.remarks) hg
    _ = answerOf ((buildBody >>= k).run p) := (answerOf_buildBody_bind p hk).symm

theorem answerOf_build_bind_remarks {β : Type} (p : Puzzle) (rm : Remarks)
    {f : Noted → PuzzleM β} {g : Noted → Except Failure β}
    (hf : ∀ el rm', answerOf ((f el).run { p with remarks := rm' }) = g el)
    (hg : ∀ a b, a.tree = b.tree → g a = g b) :
    answerOf ((build >>= f).run { p with remarks := rm }) = answerOf ((build >>= f).run p) := by
  rw [build_eq, bind_assoc]
  refine answerOf_buildBody_bind_remarks p rm (g := fun n => (p.program n).bind g)
    (fun n rm' => ?_) (fun a b hab => bind_congr_of_tree (program_congr p hab) hg)
  rw [bind_assoc, answerOf_get_bind, answerOf_bind_of_keeps (keeps_lift _), answerOf_lift,
    program_with_remarks]
  exact congrArg (Except.bind (p.program n)) (funext fun el => hf el rm')

theorem answerOf_curryValues_remarks (values : List Value) (p : Puzzle) (rm : Remarks) :
    answerOf ((curryValues values).run { p with remarks := rm }) =
      answerOf ((curryValues values).run p) := by
  simp only [curryValues, EStateM.run_bind, EStateM.run_get]
  split_ifs
  · rfl
  · cases asElements values <;> rfl
  · cases Value.joinTexts _ <;> rfl
  · rfl

/-- Every answer but an indented text is the same from the builder with any other remark store:
it reads the code only as a tree, and the tree does not depend on the store. -/
theorem Query.answer_with_remarks (q : Query) (p : Puzzle) (rm : Remarks)
    (hq : q.showsRemarks = false) :
    answerOf (q.run.run { p with remarks := rm }) = answerOf (q.run.run p) := by
  cases q with
  | body =>
    exact answerOf_buildBody_bind_remarks p rm (g := fun n => .ok (Answer.code n.tree))
      (fun _ _ => rfl) (fun a b h => by rw [h])
  | includes =>
    simp only [Query.run, includeList, bind_assoc]
    refine answerOf_buildBody_bind_remarks p rm (g := fun n => (p.includesFor n).map Answer.files)
      (fun n rm' => ?_) (fun a b h => by rw [includesFor_congr p h])
    rw [answerOf_get_bind, answerOf_bind_pure, answerOf_lift, includesFor_with_remarks]
  | program =>
    exact answerOf_build_bind_remarks p rm (g := fun el => .ok (Answer.code el.tree))
      (fun _ _ => rfl) (fun a b h => by rw [h])
  | text indented width =>
    obtain rfl : indented = false := hq
    simp only [Query.run, serialize, bind_assoc]
    exact answerOf_build_bind_remarks p rm
      (g := fun el => .ok (Answer.text (({ indented := false, width } : Style).flat el)))
      (fun _ _ => rfl) (fun a b h => by simp only [Style.flat, h])
  | modHash =>
    simp only [Query.run, Puzzle.modHash, bind_assoc, pure_bind]
    exact answerOf_build_bind_remarks p rm (g := fun el => .ok (Answer.hash el.tree.hash))
      (fun _ _ => rfl) (fun a b h => by rw [h])
  | curried values =>
    simp only [Query.run, curriedProgram, bind_assoc, pure_bind]
    refine answerOf_build_bind_remarks p rm
      (g := fun el => (answerOf ((curryValues values).run p)).map
        fun vs => Answer.code (curry el.tree (vs.map Noted.tree)))
      (fun el rm' => ?_) (fun a b h => by rw [h])
    rw [answerOf_bind_pure, answerOf_curryValues_remarks]
  | puzzleHash values =>
    simp only [Query.run, Puzzle.puzzleHash, Puzzle.modHash, bind_assoc, pure_bind]
    rw [answerOf_bind_of_keeps (curryValues_endState values),
      answerOf_bind_of_keeps (curryValues_endState values), answerOf_curryValues_remarks]
    congr 1
    funext vs
    apply answerOf_build_bind_remarks p rm
      (g := fun el => .ok (Answer.hash (curriedHash el.tree.hash (vs.map fun v => v.tree.hash))))
    · intro el rm'
      rfl
    · intro a b h
      rw [h]

/-! ### Settled builders: the indented text stays too -/

theorem forall_mem_of_mapM_eq_ok {γ δ : Type} {f : γ → Except Failure δ} {P : δ → Prop} :
    ∀ {xs : List γ} {ys : List δ}, (∀ x ∈ xs, ∀ y, f x = .ok y → P y) → xs.mapM f = .ok ys →
      ∀ y ∈ ys, P y
  | [], ys, _, h => by
    cases h
    exact fun _ hy => absurd hy List.not_mem_nil
  | x :: xs, ys, hf, h => by
    rw [List.mapM_cons] at h
    obtain ⟨y, hy, h⟩ := Script.except_bind_ok h
    obtain ⟨ys', hys', h⟩ := Script.except_bind_ok h
    cases h
    intro z hz
    rcases List.mem_cons.mp hz with rfl | hz
    · exact hf x List.mem_cons_self z hy
    · exact forall_mem_of_mapM_eq_ok (fun x hx => hf x (List.mem_cons_of_mem _ hx)) hys' z hz

theorem below_symOf {j : Nat} {v : Value} {s : Noted} (h : symOf v = .ok s) : s.Below j := by
  obtain ⟨t, -, h⟩ := Script.except_bind_ok h
  cases h
  trivial

theorem below_paramsElement {j : Nat} {p : Puzzle} {e : Noted} (h : p.paramsElement = .ok e) :
    e.Below j := by
  have hnames : ∀ {tail : Noted}, tail.Below j →
      (do let names ← (p.curriedNames ++ p.solution).mapM symOf
          return Noted.ofList names tail : Except Failure Noted) = .ok e → e.Below j := by
    intro tail htail h
    obtain ⟨names, hnames, h⟩ := Script.except_bind_ok h
    cases h
    exact Noted.below_ofList (forall_mem_of_mapM_eq_ok (fun _ _ _ => below_symOf) hnames) htail
  rw [paramsElement] at h
  split at h
  · exact hnames (Noted.below_nil j) h
  · obtain ⟨tail, htail, h⟩ := Script.except_bind_ok h
    exact hnames (below_symOf htail) h

/-- A builder whose builds all show the same code: no step that ends its body carries remarks,
its store is fresh, and its stored code carries only keys the store has handed out. -/
structure Settled (p : Puzzle) : Prop where
  quiet : p.body.quiet = true
  fresh : p.remarks.Fresh
  body : p.body.Below p.remarks.joints
  decls : ∀ c ∈ p.constants ++ p.functions, c.Below p.remarks.joints

/-! ### Building calls keep a builder settled -/

section Building

variable {p : Puzzle}

theorem settled_empty : ({} : Puzzle).Settled :=
  ⟨rfl, fun _ _ => rfl, ⟨trivial, fun _ h => nomatch h⟩, by simp⟩

theorem Settled.arm (hp : p.Settled) (side : Nat) : (p.arm side).Settled :=
  ⟨rfl, hp.fresh, ⟨trivial, fun _ h => nomatch h⟩, by simp [Puzzle.arm]⟩

theorem lift_run_ok {α : Type} {r : Except Failure α} {p p' : Puzzle} {a : α}
    (h : (lift r).run p = .ok a p') : r = .ok a ∧ p = p' := by
  cases r with
  | ok x =>
    cases h
    exact ⟨rfl, rfl⟩
  | error e => cases h

theorem below_asElements {j : Nat} {vs : List Value} {xs : List Noted} (hv : ∀ v ∈ vs, v.Below j)
    (h : asElements vs = .ok xs) : ∀ x ∈ xs, x.Below j :=
  forall_mem_of_mapM_eq_ok (fun v hv' _ hx => below_asElement (hv v hv') hx) h

theorem leads_settled_comment (text : Value) : Leads Settled Settled (comment text) :=
  leads_modify fun _ hp => ⟨hp.quiet, hp.fresh, hp.body, hp.decls⟩

/-- A step keeps a builder settled when it is quiet, carries only keys handed out, and does not
end the body with remarks pending; the step takes the pending remarks. -/
theorem leads_settled_step {s : Step} (hs : s.quiet = true) :
    Leads (fun p => p.Settled ∧ s.Below p.remarks.joints ∧ (p.pending = [] ∨ s.isStop = false))
      (fun p => p.Settled ∧ p.pending = []) (step s) := by
  rintro p _ p' ⟨hp, hb, hn⟩ h
  rw [step_run h]
  have hq : stepsQuiet [(p.pending, s)] = true := by
    rcases hn with hn | hn <;> simp [stepsQuiet, hn, hs]
  have hq₀ : stepsQuiet p.steps = true := hp.quiet
  refine ⟨⟨?_, hp.fresh, ⟨?_, hp.body.2⟩, hp.decls⟩, rfl⟩
  · show stepsQuiet (p.steps ++ [(p.pending, s)]) = true
    rw [stepsQuiet_append, hq₀, hq]
    rfl
  · exact (stepsBelow_append _ _).mpr ⟨hp.body.1, hb, trivial⟩

theorem leads_settled_condition (name : String) (args : List Value) :
    Leads (fun p => p.Settled ∧ ∀ v ∈ args, v.Below p.remarks.joints)
      (fun p => p.Settled ∧ p.pending = []) (condition name args) := by
  rintro p _ p' ⟨hp, hv⟩ h
  unfold condition at h
  split at h
  · obtain ⟨_, _, hthrow, -⟩ := run_bind_ok h
    cases hthrow
  · obtain ⟨xs, p₁, h1, h⟩ := run_bind_ok h
    obtain ⟨hxs, rfl⟩ := lift_run_ok h1
    obtain ⟨c, p₂, h2, h⟩ := run_bind_ok h
    obtain ⟨hc, rfl⟩ := lift_run_ok h2
    have hcb : c.Below p.remarks.joints := by
      unfold Build.condition at hc
      split at hc
      · cases hc
        refine Noted.below_ofList ?_ (Noted.below_nil _)
        rintro x (_ | ⟨_, _ | ⟨_, hx⟩⟩)
        · trivial
        · trivial
        · exact below_asElements hv hxs x hx
      · cases hc
    exact leads_settled_step (s := .cond c) rfl p () p' ⟨hp, hcb, .inr rfl⟩ h

theorem leads_settled_require (c msg : Value) :
    Leads (fun p => p.Settled ∧ c.Below p.remarks.joints) (fun p => p.Settled ∧ p.pending = [])
      (require c msg) := by
  rintro p _ p' ⟨hp, hc⟩ h
  obtain ⟨n, p₁, h1, h⟩ := run_bind_ok h
  obtain ⟨hn, rfl⟩ := lift_run_ok h1
  exact leads_settled_step (s := .require n msg) rfl p () p' ⟨hp, below_asElement hc hn, .inr rfl⟩ h

/-- Appending a branch keeps a builder settled when its arms are settled builders, each handing
out joints only after the one before it: the builder, then the first arm, then the second. -/
theorem leads_settled_branch (c : Value) {yes : Puzzle} {no : Option Puzzle} (hy : yes.Settled)
    (hn : ∀ n ∈ no, n.Settled ∧ yes.remarks.joints ≤ n.remarks.joints) :
    Leads (fun p => p.Settled ∧ c.Below p.remarks.joints ∧ p.remarks.joints ≤ yes.remarks.joints)
      (fun p => p.Settled ∧ p.pending = []) (branch c yes no) := by
  rintro p _ p' ⟨hp, hc, hj⟩ h
  obtain ⟨_, p₁, h1, h⟩ := run_bind_ok h
  obtain rfl : p₁ = { p with remarks := (no.getD yes).remarks, branches := p.branches + 1 } := by
    cases h1
    rfl
  obtain ⟨n, p₂, h2, h⟩ := run_bind_ok h
  obtain ⟨hcn, rfl⟩ := lift_run_ok h2
  -- the branch takes the store of its last arm, which handed out every key the parts carry
  obtain ⟨hlast, hjy, harm⟩ : (no.getD yes).Settled ∧ yes.remarks.joints ≤ (no.getD yes).remarks.joints ∧
      armQuiet (no.map body) = true ∧ armBelow (no.getD yes).remarks.joints (no.map body) := by
    cases no with
    | none => exact ⟨hy, Nat.le_refl _, rfl, trivial⟩
    | some m =>
      obtain ⟨hm, hjm⟩ := hn m rfl
      exact ⟨hm, hjm, hm.quiet, hm.body⟩
  have hjp := Nat.le_trans hj hjy
  have hp₁ : Settled { p with remarks := (no.getD yes).remarks, branches := p.branches + 1 } :=
    ⟨hp.quiet, hlast.fresh, Body.below_mono hjp hp.body, fun d hd => (hp.decls d hd).mono hjp⟩
  refine leads_settled_step (s := .branch n yes.body (no.map body)) ?_ _ () p'
    ⟨hp₁, ⟨(below_asElement hc hcn).mono hjp, Body.below_mono hjy hy.body, harm.2⟩, .inr rfl⟩ h
  exact Bool.and_eq_true_iff.mpr ⟨hy.quiet, harm.1⟩

/-- Ending the body with code that carries only keys handed out keeps a builder settled; remarks
the code carries with it move under the key of the end, which is no joint. -/
theorem Settled.endWith (hp : p.Settled) {v : Noted} (hv : v.Below p.remarks.joints) :
    (p.endWith v).Settled := by
  unfold Puzzle.endWith
  split
  · exact ⟨hp.quiet, hp.fresh, ⟨hp.body.1, fun t ht => by cases ht; exact hv⟩, hp.decls⟩
  · rename_i ns _
    have hj := Remarks.joints_attach p.remarks (.tail p.path) ns
    refine ⟨hp.quiet, hp.fresh.attach_tail _ _, ?_, ?_⟩
    · show Body.Below (p.remarks.attach _ ns).joints (.mk p.steps (some _))
      rw [hj]
      exact ⟨hp.body.1, fun t ht => by cases ht; exact Noted.below_withTag (t := .shared (.tail p.path)) trivial hv⟩
    · show ∀ c ∈ p.constants ++ p.functions, c.Below (p.remarks.attach _ ns).joints
      rw [hj]
      exact hp.decls

theorem Settled.stop_endWith (hp : p.Settled) (hn : p.pending = []) {p₁ : Puzzle} {u : PUnit}
    (h : (step .stop).run p = .ok u p₁) {v : Noted} (hv : v.Below p.remarks.joints) :
    (p₁.endWith v).Settled := by
  have hp₁ := (leads_settled_step (s := .stop) rfl p u p₁ ⟨hp, trivial, .inl hn⟩ h).1
  rw [step_run h] at hp₁ ⊢
  exact hp₁.endWith hv

theorem leads_settled_returns (v : Value) :
    Leads (fun p => p.Settled ∧ p.pending = [] ∧ v.Below p.remarks.joints) Settled (returns v) := by
  rintro p _ p' ⟨hp, hn, hv⟩ h
  obtain ⟨_, p₁, h1, h⟩ := run_bind_ok h
  obtain ⟨n, p₂, h2, h⟩ := run_bind_ok h
  obtain ⟨hval, rfl⟩ := lift_run_ok h2
  cases h
  exact hp.stop_endWith hn h1 (below_asElement hv hval)

theorem leads_settled_fail (msg : Value) :
    Leads (fun p => p.Settled ∧ p.pending = []) Settled (fail msg) := by
  rintro p _ p' ⟨hp, hn⟩ h
  obtain ⟨_, p₁, h1, h⟩ := run_bind_ok h
  obtain ⟨n, p₂, h2, h⟩ := run_bind_ok h
  obtain ⟨hmsg, rfl⟩ := lift_run_ok h2
  cases h
  exact hp.stop_endWith hn h1 (below_failNodeOf hmsg)

theorem noted_run_own {el : Noted} {ns : List String} (hel : el.tag = .own ns) (p : Puzzle) :
    (noted el).run p = .ok (el.withTag (.own (ns ++ p.pending))) { p with pending := [] } := by
  simp only [noted, EStateM.run_bind, EStateM.run_get, Noted.attach, hel]
  rfl

theorem decls_below_add {j : Nat} {ks fs : List Noted} {el : Noted} (h : ∀ c ∈ ks ++ fs, c.Below j)
    (hel : el.Below j) : (∀ c ∈ (ks ++ [el]) ++ fs, c.Below j) ∧ ∀ c ∈ ks ++ (fs ++ [el]), c.Below j := by
  constructor
  · intro c hc
    rcases List.mem_append.mp hc with hc | hc
    · rcases List.mem_append.mp hc with hc | hc
      · exact h c (List.mem_append_left _ hc)
      · rw [List.mem_singleton.mp hc]
        exact hel
    · exact h c (List.mem_append_right _ hc)
  · intro c hc
    rw [← List.append_assoc] at hc
    rcases List.mem_append.mp hc with hc | hc
    · exact h c hc
    · rw [List.mem_singleton.mp hc]
      exact hel

theorem leads_settled_defconstant (name value : Value) :
    Leads (fun p => p.Settled ∧ name.Below p.remarks.joints ∧ value.Below p.remarks.joints)
      Settled (defconstant name value) := by
  rintro p _ p' ⟨hp, hn, hv⟩ h
  obtain ⟨v, p₁, h1, h⟩ := run_bind_ok h
  obtain ⟨hval, rfl⟩ := lift_run_ok h1
  obtain ⟨n, p₂, h2, h⟩ := run_bind_ok h
  obtain ⟨hname, rfl⟩ := lift_run_ok h2
  obtain ⟨el, p₃, h3, h⟩ := run_bind_ok h
  rw [noted_run_own rfl] at h3
  cases h3
  cases h
  have hel : (call "defconstant" [n, v]).Below p.remarks.joints := by
    refine below_call _ ?_
    rintro x (_ | ⟨_, _ | ⟨_, hx⟩⟩)
    · exact below_asElement hn hname
    · exact below_asElement hv hval
    · cases hx
  exact ⟨hp.quiet, hp.fresh, hp.body, (decls_below_add hp.decls (Noted.below_withTag (t := .own _) trivial hel)).1⟩

theorem leads_settled_defun (name params body : Value) (inline : Bool) :
    Leads (fun p => p.Settled ∧ body.Below p.remarks.joints) Settled (defun name params body inline) := by
  rintro p _ p' ⟨hp, hb⟩ h
  obtain ⟨n, p₁, h1, h⟩ := run_bind_ok h
  obtain ⟨hname, rfl⟩ := lift_run_ok h1
  obtain ⟨ps, p₂, h2, h⟩ := run_bind_ok h
  obtain ⟨hparams, rfl⟩ := lift_run_ok h2
  obtain ⟨b, p₃, h3, h⟩ := run_bind_ok h
  obtain ⟨hbody, rfl⟩ := lift_run_ok h3
  obtain ⟨el, p₄, h4, h⟩ := run_bind_ok h
  rw [noted_run_own rfl] at h4
  cases h4
  cases h
  -- the name and the parameters are symbols, which carry no key
  have hps : (Noted.ofList ps).Below p.remarks.joints := by
    obtain ⟨vs, -, hvs⟩ := Script.except_bind_ok hparams
    exact Noted.below_ofList (forall_mem_of_mapM_eq_ok (fun _ _ _ => below_symOf) hvs) (Noted.below_nil _)
  have hel : (Noted.ofList [sym (if inline then "defun-inline" else "defun"), n, Noted.ofList ps, b]).Below
      p.remarks.joints := by
    refine Noted.below_ofList ?_ (Noted.below_nil _)
    rintro x (_ | ⟨_, _ | ⟨_, _ | ⟨_, _ | ⟨_, hx⟩⟩⟩⟩)
    · trivial
    · exact below_symOf hname
    · exact hps
    · exact below_asElement hb hbody
    · cases hx
  exact ⟨hp.quiet, hp.fresh, hp.body, (decls_below_add hp.decls (Noted.below_withTag (t := .own _) trivial hel)).2⟩

end Building

/-- The builder `q` is `p` with remarks added to the store only under joint keys handed out
since. -/
def Grown (p q : Puzzle) : Prop :=
  ∃ rm, q = { p with remarks := rm } ∧ p.remarks.Extends rm ∧ rm.Fresh

theorem showsAs_final {x : Building Noted} {rm : Remarks} {e : Except Failure Noted}
    (h : ShowsAs x rm e) : rm.Extends (finalState (x.run rm)) ∧ (finalState (x.run rm)).Fresh := by
  unfold ShowsAs at h
  cases hrun : x.run rm with
  | ok n rm' =>
    rw [hrun] at h
    exact ⟨h.1, h.2.1⟩
  | error err rm' =>
    rw [hrun] at h
    exact ⟨h.1, h.2.1⟩

theorem program_view (p : Puzzle) {rm₁ rm₂ : Remarks} (h₁ : p.remarks.Extends rm₁)
    (h₂ : p.remarks.Extends rm₂)
    (hdecls : ∀ c ∈ p.constants ++ p.functions, c.Below p.remarks.joints) {n₁ n₂ : Noted}
    (hn : n₁.view rm₁ = n₂.view rm₂) :
    (p.program n₁).map (Noted.view rm₁) = (p.program n₂).map (Noted.view rm₂) := by
  have htree : n₁.tree = n₂.tree := by rw [← Noted.tree_view rm₁ n₁, hn, Noted.tree_view]
  -- the parts around the body carry only keys handed out before, which both stores keep
  have hsame : ∀ x : Noted, x.Below p.remarks.joints → x.view rm₁ = x.view rm₂ := fun x hx => by
    rw [Noted.view_extends h₁ hx, Noted.view_extends h₂ hx]
  simp only [program, includesFor_congr p htree]
  cases (do (← p.includesFor n₂).mapM checkInclude : Except Failure (List String)) with
  | error e => rfl
  | ok incs =>
    cases hparams : p.paramsElement with
    | error e => rfl
    | ok params =>
      have hpre : ∀ x ∈ [sym "mod", params] ++ incs.map (fun i => call "include" [sym i]) ++
          p.constants ++ p.functions, x.Below p.remarks.joints := by
        intro x hx
        simp only [List.mem_append, List.mem_cons, List.mem_map, List.not_mem_nil, or_false] at hx
        rcases hx with (((rfl | rfl) | ⟨i, -, rfl⟩) | hx) | hx
        · trivial
        · exact below_paramsElement hparams
        · exact below_call "include" fun y hy => by
            rw [List.mem_singleton.mp hy]
            trivial
        · exact hdecls x (List.mem_append_left _ hx)
        · exact hdecls x (List.mem_append_right _ hx)
      show Except.ok ((Noted.ofList _ _).view rm₁) = Except.ok ((Noted.ofList _ _).view rm₂)
      generalize [sym "mod", params] ++ incs.map (fun i => call "include" [sym i]) ++
        p.constants ++ p.functions = pre at hpre ⊢
      rw [Noted.view_ofList, Noted.view_ofList, List.map_append, List.map_append,
        List.map_singleton, List.map_singleton, hn, hsame Noted.nil (Noted.below_nil _),
        List.map_congr_left fun x hx => hsame x (hpre x hx)]

theorem bind_write_congr (st : Style) {r₁ r₂ : Except Failure Noted} {rm₁ rm₂ : Remarks}
    (h : r₁.map (Noted.view rm₁) = r₂.map (Noted.view rm₂)) :
    r₁.bind (st.write rm₁ []) = r₂.bind (st.write rm₂ []) := by
  cases r₁ with
  | ok a =>
    cases r₂ with
    | ok b => exact st.write_eq_of_view_eq rm₁ (Except.ok.inj h) []
    | error e => cases h
  | error e =>
    cases r₂ with
    | ok b => cases h
    | error e' =>
      cases h
      rfl

section Settled

variable {p q : Puzzle}

theorem Grown.rebuilt (hp : p.Settled) (hq : Grown p q) : Grown p q.rebuilt := by
  obtain ⟨rm, rfl, hext, hfresh⟩ := hq
  obtain ⟨hext', hfresh'⟩ := showsAs_final
    (body_shows p.remarks p.body Noted.nil rm hp.quiet hp.body hext hfresh (Noted.below_nil _))
  exact ⟨_, rfl, hext.trans hext', hfresh'⟩

/-- A query asked of a builder grown from a settled one leaves it grown. -/
theorem Grown.endState_run (hp : p.Settled) (hq : Grown p q) (q' : Query) :
    Grown p (endState (q'.run.run q)) := by
  rcases q'.endState_run q with h | h
  · rw [h]
    exact hq
  · rw [h]
    exact hq.rebuilt hp

theorem grown_afterQueries (hp : p.Settled) (qs : List Query) : Grown p (p.afterQueries qs) := by
  suffices ∀ q, Grown p q → Grown p (q.afterQueries qs) from
    this p ⟨p.remarks, rfl, .refl _, hp.fresh⟩
  induction qs with
  | nil => exact fun q hq => hq
  | cons q' qs ih => exact fun q hq => ih _ (hq.endState_run hp q')

theorem answerOf_serialize_grown (hp : p.Settled) (hq : Grown p q) (indented : Bool)
    (width : Bound) :
    answerOf ((serialize indented width).run q) = answerOf ((serialize indented width).run p) := by
  obtain ⟨rm, rfl, hext, hfresh⟩ := hq
  have hs := body_shows p.remarks p.body Noted.nil rm hp.quiet hp.body hext hfresh
    (Noted.below_nil _)
  have hs₀ := body_shows p.remarks p.body Noted.nil p.remarks hp.quiet hp.body (.refl _) hp.fresh
    (Noted.below_nil _)
  rw [Noted.view_extends hext (Noted.below_nil _)] at hs
  rw [answerOf_serialize, answerOf_serialize]
  simp only [body_with_remarks, program_with_remarks]
  unfold ShowsAs at hs hs₀
  cases h₁ : (p.body.build Noted.nil).run rm with
  | ok n₁ rm₁ =>
    rw [h₁] at hs
    cases h₀ : (p.body.build Noted.nil).run p.remarks with
    | ok n₀ rm₀ =>
      rw [h₀] at hs₀
      exact bind_write_congr _ (program_view p (hext.trans hs.1) hs₀.1 hp.decls
        (Except.ok.inj (hs.2.2.2.symm.trans hs₀.2.2.2)))
    | error e₀ rm₀ =>
      rw [h₀] at hs₀
      cases hs.2.2.2.symm.trans hs₀.2.2
  | error e₁ rm₁ =>
    rw [h₁] at hs
    cases h₀ : (p.body.build Noted.nil).run p.remarks with
    | ok n₀ rm₀ =>
      rw [h₀] at hs₀
      cases hs.2.2.symm.trans hs₀.2.2.2
    | error e₀ rm₀ =>
      rw [h₀] at hs₀
      cases hs.2.2.symm.trans hs₀.2.2
      rfl

/-- Every answer of a settled builder is the same from any builder grown from it. -/
theorem Query.answer_of_grown (hp : p.Settled) (hq : Grown p q) (q' : Query) :
    answerOf (q'.run.run q) = answerOf (q'.run.run p) := by
  cases q' with
  | text indented width =>
    simp only [Query.run]
    rw [answerOf_bind_pure, answerOf_bind_pure, answerOf_serialize_grown hp hq]
  | _ =>
    obtain ⟨rm, rfl, -, -⟩ := hq
    exact Query.answer_with_remarks _ p rm (by rfl)

end Settled

/-- Queries change nothing of a builder but its remark store, and every answer but an indented
text is the same whatever was asked before. When no step that ends the body carries remarks and
the store is settled, the indented text is the same too. -/
theorem queries_keep_answers (p : Puzzle) (qs : List Query) :
    (∃ rm, p.afterQueries qs = { p with remarks := rm }) ∧
    (∀ q : Query, q.showsRemarks = false →
      answerOf (q.run.run (p.afterQueries qs)) = answerOf (q.run.run p)) ∧
    (p.Settled → ∀ q : Query,
      answerOf (q.run.run (p.afterQueries qs)) = answerOf (q.run.run p)) := by
  obtain ⟨rm, hrm⟩ := afterQueries_eq_remarks p qs
  refine ⟨⟨rm, hrm⟩, fun q hq => ?_, fun hp q => Query.answer_of_grown hp (grown_afterQueries hp qs) q⟩
  rw [hrm]
  exact q.answer_with_remarks p rm hq

/-- A remark before a condition, then a return of one. -/
def remarkedCondition : PuzzleM Unit := do
  comment (.str "c")
  condition "REMARK" []
  returns (.int 1)

theorem queries_keep_answers_remarked_condition :
    ∃ p, remarkedCondition.run {} = .ok () p ∧ Query.showsRemarks .program = false ∧ p.Settled ∧
      answerOf ((Query.program).run.run (p.afterQueries [.text true (.whole 80)])) =
        answerOf ((Query.program).run.run p) ∧
      answerOf ((Query.text true (.whole 80)).run.run (p.afterQueries [.text true (.whole 80)])) =
        answerOf ((Query.text true (.whole 80)).run.run p) := by
  obtain ⟨p, hrun⟩ : ∃ p, remarkedCondition.run {} = .ok () p := ⟨_, rfl⟩
  -- the remark is taken by the condition, so the return ends the body with none pending
  have hlead : Leads (· = {}) Settled remarkedCondition :=
    leads_bind ((leads_settled_comment _).mono (fun _ h => h ▸ settled_empty) fun _ h => h) fun _ =>
      leads_bind ((leads_settled_condition "REMARK" []).mono (fun _ h => ⟨h, by simp⟩) fun _ h => h)
        fun _ => (leads_settled_returns _).mono (fun _ h => ⟨h.1, h.2, trivial⟩) fun _ h => h
  have hs : p.Settled := hlead {} () p rfl hrun
  exact ⟨p, hrun, rfl, hs, (queries_keep_answers _ _).2.1 _ rfl, (queries_keep_answers _ _).2.2 hs _⟩

theorem indented_text_repeats_return_remark :
    ((do comment (.str "c"); returns (.int 1); serialize true (.whole 80)) : PuzzleM String).run' {} =
      some "(mod ()\n  ; c\n  1)" ∧
    ((do comment (.str "c"); returns (.int 1); let _ ← serialize true (.whole 80)
         serialize true (.whole 80)) : PuzzleM String).run' {} =
      some "(mod ()\n  ; c\n  ; c\n  1)" := by
  decide +kernel

end Puzzle

end PuzzleKit.Build
