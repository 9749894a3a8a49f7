import PuzzleKit.Proofs.Resolved
import Mathlib

/-!
# What a check that finds no fault establishes

The check of a coin runs in a state that collects faults; it never takes one back. So a check
that ends with no fault found none in any of its steps, and every step that would have recorded
one was not taken. Read this way, a check without faults shows that every block of the coin
resolves its names (`Block.Resolves`): the scopes of the check become the keys of the
environment that code is generated in, with `msg.value` bound when an action uses its amount
and the state fields bound in a stateful action.

A step is `Steady` when it keeps the coin's names, never takes back a fault, keeps the amount
marked used once it is, and records only library calls to known include files; all the steps
that check bodies are. A run is `Clean` when it adds no fault.
-/

namespace PuzzleKit

theorem isKnownInclude_of_libraryFunction {f vm path : String}
    (h : libraryFunction f = some (vm, path)) : isKnownInclude path = true := by
  obtain ⟨e, he, heq⟩ := Option.map_eq_some_iff.mp h
  have hmem := List.mem_of_find?_eq_some he
  simp only [libraryFunctions, List.mem_flatMap] at hmem
  obtain ⟨file, hfile, n, -, hn⟩ := hmem
  have hpath : e.2.2 = file.path := by
    split at hn <;> simp only [List.mem_append, List.mem_cons, List.not_mem_nil, or_false] at hn <;>
      rcases hn with rfl | rfl <;> rfl
  have hp : path = file.path := by rw [← hpath, heq]
  simp only [isKnownInclude, List.any_eq_true, beq_iff_eq]
  exact ⟨file, hfile, hp.symm⟩

namespace Script

/-- The coin's names are never parameters or locals: those live in scopes. -/
def GlobalKinds (G : List Symbol) : Prop := ∀ s ∈ G, s.kind ≠ .parameter ∧ s.kind ≠ .local

/-- The keys of the environment that a context's code is generated in: the names of its
scopes, `msg.value` in an action that uses the amount, and the state fields in a stateful
action. -/
def Ctx.keys (ctx : Ctx) (G : List Symbol) (amount : Bool) : List String :=
  ctx.frames.flatMap (fun f => f.symbols.map (·.name)) ++
    ((if ctx.inAction && amount then ["msg.value"] else []) ++
      (if ctx.stateful && ctx.function.isNone then
        (G.filter (·.kind == .state)).map ("state." ++ ·.name) else []))

theorem Ctx.keys_mono {ctx : Ctx} {G : List Symbol} {a a' : Bool} (h : a = true → a' = true) :
    ctx.keys G a ⊆ ctx.keys G a' := by
  intro k hk
  simp only [Ctx.keys, List.mem_append] at hk ⊢
  rcases hk with hk | (hk | hk)
  · exact .inl hk
  · refine .inr (.inl ?_)
    cases ha : a
    · simp [ha] at hk
    · simpa [ha, h ha] using hk
  · exact .inr (.inr hk)

theorem Ctx.mem_keys_frames {ctx : Ctx} {G : List Symbol} {a : Bool} {n : String}
    (h : n ∈ ctx.frames.flatMap fun f => f.symbols.map (·.name)) : n ∈ ctx.keys G a :=
  List.mem_append_left _ h

theorem Ctx.amount_mem_keys {ctx : Ctx} {G : List Symbol} (h : ctx.inAction = true) :
    "msg.value" ∈ ctx.keys G true := by
  simp [Ctx.keys, h]

theorem Ctx.field_mem_keys {ctx : Ctx} {G : List Symbol} {a : Bool} {prop : String} {s : Symbol}
    (hs : G.find? (·.name == prop) = some s) (hk : s.kind = .state) (hst : ctx.stateful = true)
    (hf : ctx.function = none) : "state." ++ prop ∈ ctx.keys G a := by
  have hmem := List.mem_of_find?_eq_some hs
  have hname : s.name = prop := by simpa using List.find?_some hs
  simp only [Ctx.keys, List.mem_append, hst, hf, Option.isNone_none, Bool.and_self, if_true,
    List.mem_map, List.mem_filter]
  exact .inr (.inr ⟨s, ⟨hmem, by simp [hk]⟩, by rw [hname]⟩)

/-! ### Lookups in tables of pairs -/

section SetKey

variable {β : Type}

theorem lookup_map_ne (kvs : List (String × β)) {k k' : String} (v : β) (h : k' ≠ k) :
    (kvs.map fun (j, w) => if j == k then (j, v) else (j, w)).lookup k' = kvs.lookup k' := by
  induction kvs with
  | nil => rfl
  | cons kv kvs ih =>
    obtain ⟨j, w⟩ := kv
    by_cases hj : j = k
    · subst hj
      simp only [List.map_cons, beq_self_eq_true, if_true, List.lookup, beq_false_of_ne h, ih]
    · simp only [List.map_cons, beq_false_of_ne hj, Bool.false_eq_true, if_false, List.lookup]
      split <;> simp_all

theorem lookup_map_self (kvs : List (String × β)) (k : String) (v : β)
    (h : kvs.any (·.1 == k) = true) :
    (kvs.map fun (j, w) => if j == k then (j, v) else (j, w)).lookup k = some v := by
  induction kvs with
  | nil => simp at h
  | cons kv kvs ih =>
    obtain ⟨j, w⟩ := kv
    by_cases hj : j = k
    · subst hj
      simp
    · simp only [List.any_cons, beq_false_of_ne hj, Bool.false_or] at h
      simp only [List.map_cons, beq_false_of_ne hj, Bool.false_eq_true, if_false, List.lookup,
        beq_false_of_ne (Ne.symm hj), ih h]

theorem lookup_append_new (kvs : List (String × β)) (k k' : String) (v : β)
    (h : kvs.any (·.1 == k) = false) :
    (kvs ++ [(k, v)]).lookup k' = if k' = k then some v else kvs.lookup k' := by
  induction kvs with
  | nil =>
    by_cases hk : k' = k
    · subst hk
      simp
    · simp [List.lookup, beq_false_of_ne hk, hk]
  | cons kv kvs ih =>
    obtain ⟨j, w⟩ := kv
    simp only [List.any_cons, Bool.or_eq_false_iff] at h
    have hjk : j ≠ k := by simpa using h.1
    by_cases hj : k' = j
    · subst hj
      simp [List.lookup, hjk]
    · simp only [List.cons_append, List.lookup, beq_false_of_ne hj, ih h.2]

theorem lookup_setKey (kvs : List (String × β)) (k k' : String) (v : β) :
    (setKey kvs k v).lookup k' = if k' = k then some v else kvs.lookup k' := by
  unfold setKey
  split
  · split
    · rename_i hk
      subst hk
      exact lookup_map_self kvs k' v ‹_›
    · exact lookup_map_ne kvs v ‹_›
  · rename_i hany
    exact lookup_append_new kvs k k' v (Bool.eq_false_iff.mpr hany)

end SetKey

namespace Check

/-- The coin's function that a call of `n` reaches among the coin's names `G`. -/
def functionIn (G : Frame) (n : String) : Option FunctionDecl :=
  (G.find? n).bind fun s =>
    match s.kind, s.origin with
    | .function, .function fn => some fn
    | _, _ => none

/-- A name whose generated name no step of checking a body changes, among the coin's names
`G`: the name of no library function, or of a function of the coin, which a call reaches
before the library. -/
def Stable (G : Frame) (n : String) : Prop := libraryFunction n = none ∨ (functionIn G n).isSome

/-- What every step of checking a body keeps. -/
structure Keeps (c c' : Checker) : Prop where
  globals : c'.globals = c.globals
  faults : c.faults.length ≤ c'.faults.length
  amount : c.amountUsed = true → c'.amountUsed = true
  library : (∀ l ∈ c.libraryCalls, isKnownInclude l.2.2 = true) →
    ∀ l ∈ c'.libraryCalls, isKnownInclude l.2.2 = true
  actions : c'.actions = c.actions
  names : ∀ n, Stable c.globals n → c'.nameMap.lookup n = c.nameMap.lookup n
  functions : c'.functions = c.functions
  /-- An include file that may not be used is added only with a fault. -/
  includes : (∀ l ∈ c.libraryCalls, isKnownInclude l.2.2 = true) → ∀ i ∈ c'.includes,
    i ∈ c.includes ∨ Build.Puzzle.includeAllowed i = true ∨ c.faults.length < c'.faults.length

theorem Keeps.refl (c : Checker) : Keeps c c :=
  ⟨rfl, Nat.le_refl _, id, id, rfl, fun _ _ => rfl, rfl, fun _ _ hi => .inl hi⟩

theorem Keeps.trans {c c' c'' : Checker} (h : Keeps c c') (h' : Keeps c' c'') : Keeps c c'' := by
  refine ⟨h'.globals.trans h.globals, Nat.le_trans h.faults h'.faults, h'.amount ∘ h.amount,
    h'.library ∘ h.library, h'.actions.trans h.actions,
    fun n hn => (h'.names n (h.globals ▸ hn)).trans (h.names n hn),
    h'.functions.trans h.functions, fun hl i hi => ?_⟩
  have hf := h.faults
  have hf' := h'.faults
  -- an include found after both steps was there after the first, or came with a fault
  rcases h'.includes (h.library hl) i hi with hi' | hok | hlt
  · rcases h.includes hl i hi' with hi'' | hok | hlt
    · exact .inl hi''
    · exact .inr (.inl hok)
    · exact .inr (.inr (by omega))
  · exact .inr (.inl hok)
  · exact .inr (.inr (by omega))

/-- A step that keeps what checking a body keeps, from every state. -/
def Steady {α : Type} (x : CheckM α) : Prop := ∀ c, Keeps c (x.run c).2

/-- A run that adds no fault. -/
def Clean {α : Type} (x : CheckM α) (c : Checker) : Prop :=
  (x.run c).2.faults.length = c.faults.length

theorem Keeps.symbols {c c' : Checker} {G : List Symbol} (h : Keeps c c')
    (hc : c.globals.symbols = G) : c'.globals.symbols = G := by
  rw [h.globals]
  exact hc

section Steady

variable {α β : Type}

theorem steady_pure (a : α) : Steady (pure a : CheckM α) := fun c => Keeps.refl c

theorem steady_bind {x : CheckM α} {f : α → CheckM β} (hx : Steady x) (hf : ∀ a, Steady (f a)) :
    Steady (x >>= f) := fun c => (hx c).trans (hf (x.run c).1 (x.run c).2)

theorem steady_get : Steady (get : CheckM Checker) := fun c => Keeps.refl c

theorem steady_modify {f : Checker → Checker} (hf : ∀ c, Keeps c (f c)) :
    Steady (modify f : CheckM Unit) := hf

theorem fault_run (text : String) (pos : Pos) (c : Checker) :
    (fault text pos).run c = ((), { c with faults := c.faults ++ [(text, some pos)] }) := rfl

theorem steady_fault (text : String) (pos : Pos) : Steady (fault text pos) := fun c => by
  refine ⟨rfl, ?_, id, id, rfl, fun _ _ => rfl, rfl, fun _ _ hi => .inl hi⟩
  rw [fault_run]
  simp

theorem Clean.bind_keeps {x : CheckM α} {f : α → CheckM β} {c : Checker}
    (hx : Keeps c (x.run c).2) (hf : ∀ a, Steady (f a)) (h : Clean (x >>= f) c) :
    Clean x c ∧ Clean (f (x.run c).1) (x.run c).2 ∧ Keeps (x.run c).2 ((x >>= f).run c).2 := by
  have h1 := hx.faults
  have h2 := (hf (x.run c).1 (x.run c).2).faults
  have h3 : ((f (x.run c).1).run (x.run c).2).2.faults.length = c.faults.length := h
  exact ⟨by unfold Clean; omega, by unfold Clean; omega, hf (x.run c).1 (x.run c).2⟩

theorem Clean.bind_later {x : CheckM α} {f : α → CheckM β} {c : Checker} (hx : Steady x)
    (hf : ∀ a, Steady (f a)) (h : Clean (x >>= f) c) :
    Clean x c ∧ Clean (f (x.run c).1) (x.run c).2 ∧ Keeps (x.run c).2 ((x >>= f).run c).2 :=
  Clean.bind_keeps (hx c) hf h

theorem Clean.bind {x : CheckM α} {f : α → CheckM β} {c : Checker} (hx : Steady x)
    (hf : ∀ a, Steady (f a)) (h : Clean (x >>= f) c) :
    Clean x c ∧ Clean (f (x.run c).1) (x.run c).2 := by
  have h1 := (hx c).faults
  have h2 := (hf (x.run c).1 (x.run c).2).faults
  have h3 : ((f (x.run c).1).run (x.run c).2).2.faults.length = c.faults.length := h
  exact ⟨by unfold Clean; omega, by unfold Clean; omega⟩

theorem not_clean_fault {text : String} {pos : Pos} {c : Checker} : ¬Clean (fault text pos) c := by
  simp [Clean, fault_run]

theorem not_clean_fault_bind {f : Unit → CheckM α} (hf : ∀ a, Steady (f a)) {text : String}
    {pos : Pos} {c : Checker} : ¬Clean (fault text pos >>= f) c := fun h =>
  not_clean_fault (Clean.bind (steady_fault text pos) hf h).1

theorem steady_of_run {x : CheckM α} (hx : ∀ c, (x.run c).2 = c) : Steady x := fun c => by
  rw [hx c]
  exact Keeps.refl c

end Steady

/-! ### Reading the coin's names -/

theorem global?_run (n : String) (c : Checker) : (global? n).run c = (c.globals.find? n, c) := rfl

theorem lookup_run (ctx : Ctx) (n : String) (c : Checker) :
    (lookup ctx n).run c = ((ctx.frames.findSome? (·.find? n)).or (c.globals.find? n), c) := by
  unfold lookup
  cases h : ctx.frames.findSome? (·.find? n) <;> rfl

theorem functionOf?_run (f : String) (c : Checker) :
    (functionOf? f).run c = (functionIn c.globals f, c) := by
  unfold functionOf? functionIn
  have hread : ∀ g : Option Symbol → CheckM (Option FunctionDecl),
      (global? f >>= g).run c = (g (c.globals.find? f)).run c := fun _ => rfl
  rw [hread]
  cases c.globals.find? f with
  | none => rfl
  | some s =>
    simp only [Option.bind_some]
    rcases s with ⟨_, kind, _, _, _, _, _, origin⟩
    cases kind <;> cases origin <;> rfl

theorem eventOf?_state (n : String) (c : Checker) : ((eventOf? n).run c).2 = c := by
  unfold eventOf?
  have hread : ∀ g : Option Symbol → CheckM (Option EventDecl),
      (global? n >>= g).run c = (g (c.globals.find? n)).run c := fun _ => rfl
  rw [hread]
  cases c.globals.find? n with
  | none => rfl
  | some s => dsimp only; split <;> rfl

theorem steady_global? (n : String) : Steady (global? n) := steady_of_run fun _ => rfl

theorem steady_lookup (ctx : Ctx) (n : String) : Steady (lookup ctx n) :=
  steady_of_run fun c => by rw [lookup_run]

theorem steady_functionOf?_bind {α : Type} {f : String} {k : Option FunctionDecl → CheckM α}
    (hk : ∀ c, Keeps c ((k (functionIn c.globals f)).run c).2) : Steady (functionOf? f >>= k) :=
  fun c => by
    show Keeps c ((k ((functionOf? f).run c).1).run ((functionOf? f).run c).2).2
    rw [functionOf?_run]
    exact hk c

theorem steady_eventOf? (n : String) : Steady (eventOf? n) := steady_of_run (eventOf?_state n)

theorem mem_names_of_findSome? {frames : List Frame} {n : String} {s : Symbol}
    (h : frames.findSome? (·.find? n) = some s) :
    n ∈ frames.flatMap fun f => f.symbols.map (·.name) := by
  obtain ⟨f, hf, hs⟩ := List.exists_of_findSome?_eq_some h
  have hmem := List.mem_of_find?_eq_some hs
  have hname : s.name = n := by simpa using List.find?_some hs
  exact List.mem_flatMap.mpr ⟨f, hf, List.mem_map.mpr ⟨s, hmem, hname⟩⟩

/-! ### The steps that check expressions keep what a body check keeps -/

theorem steady_mismatch (e : Expr) (ty want what : String) : Steady (mismatch e ty want what) := by
  unfold mismatch
  split
  · exact steady_bind steady_get fun _ => steady_fault _ _
  · exact steady_pure _

theorem steady_arity (f : String) (want got : Nat) (pos : Pos) : Steady (arity f want got pos) := by
  unfold arity
  split
  · exact steady_fault _ _
  · exact steady_pure _

theorem steady_stateField (prop : String) (pos : Pos) : Steady (stateField prop pos) := by
  unfold stateField
  refine steady_bind (steady_global? _) fun r => ?_
  split
  · split
    · exact steady_pure _
    · exact steady_bind (steady_fault _ _) fun _ => steady_pure _
  · exact steady_bind (steady_fault _ _) fun _ => steady_pure _

theorem steady_mappingOf (o : Expr) (pos : Pos) : Steady (mappingOf o pos) := by
  unfold mappingOf
  split
  · refine steady_bind (steady_global? _) fun r => ?_
    split
    · split
      · exact steady_bind (steady_fault _ _) fun _ => steady_pure _
      · split
        · exact steady_pure _
        · exact steady_bind (steady_fault _ _) fun _ => steady_pure _
    · exact steady_bind (steady_fault _ _) fun _ => steady_pure _
  · exact steady_bind (steady_fault _ _) fun _ => steady_pure _

theorem steady_identifier (ctx : Ctx) (n : String) (pos : Pos) :
    Steady (identifier ctx n pos) := by
  unfold identifier
  split
  · exact steady_bind (steady_fault _ _) fun _ => steady_pure _
  · refine steady_bind (steady_lookup _ _) fun r => ?_
    split
    · exact steady_bind (steady_fault _ _) fun _ => steady_pure _
    · split
      · exact steady_bind (steady_fault _ _) fun _ => steady_pure _
      · exact steady_bind (steady_fault _ _) fun _ => steady_pure _
      · exact steady_bind (steady_fault _ _) fun _ => steady_pure _
      · split
        · exact steady_bind (steady_fault _ _) fun _ => steady_pure _
        · exact steady_pure _
      · exact steady_pure _

theorem steady_markAmount : Steady (modify fun c : Checker => { c with amountUsed := true }) :=
  steady_modify fun _ => ⟨rfl, Nat.le_refl _, fun _ => rfl, id, rfl, fun _ _ => rfl, rfl,
    fun _ _ hi => .inl hi⟩

theorem steady_memberClass (ctx : Ctx) (o : Expr) (prop : String) (pos : Pos) :
    Steady (memberClass ctx o prop pos) := by
  unfold memberClass
  dsimp only
  split
  · split
    · exact steady_bind (steady_fault _ _) fun _ => steady_pure _
    · split
      · split
        · exact steady_bind steady_markAmount fun _ => steady_pure _
        · exact steady_bind (steady_fault _ _) fun _ => steady_pure _
      · exact steady_bind (steady_fault _ _) fun _ => steady_pure _
  · split
    · split
      · exact steady_bind (steady_fault _ _) fun _ =>
          steady_bind (steady_stateField _ _) fun _ => steady_pure _
      · exact steady_bind (steady_stateField _ _) fun _ => steady_pure _
    · exact steady_bind (steady_fault _ _) fun _ => steady_pure _

theorem steady_compare (lt rt : String) (p : Pos) : Steady (do
    if (!(compatible lt rt || compatible rt lt)) = true then
      fault ("cannot compare " ++ lt ++ " with " ++ rt) p
    if (lt.startsWith "mapping" || rt.startsWith "mapping") = true then
      fault "mappings cannot be compared" p
    pure boolClass : CheckM String) := by
  dsimp only
  split
  · refine steady_bind (steady_fault _ _) fun _ => ?_
    split
    · exact steady_bind (steady_fault _ _) fun _ => steady_pure _
    · exact steady_pure _
  · split
    · exact steady_bind (steady_fault _ _) fun _ => steady_pure _
    · exact steady_pure _

theorem keeps_libraryCall {f vm path : String} (h : libraryFunction f = some (vm, path))
    {c : Checker} (hf : functionIn c.globals f = none) (pos : Pos) :
    Keeps c ((libraryCall f vm path pos).run c).2 := by
  refine ⟨rfl, Nat.le_refl _, id, fun hl l hmem => ?_, rfl, fun n hn => ?_, rfl,
    fun _ _ hi => .inl hi⟩
  swap
  · have hne : n ≠ f := by
      rintro rfl
      rcases hn with hn | hn
      · rw [h] at hn
        cases hn
      · rw [hf] at hn
        cases hn
    show (setKey c.nameMap f vm).lookup n = _
    rw [lookup_setKey, if_neg hne]
  change l ∈ (if c.libraryCalls.any (·.1 == pos) then c.libraryCalls
    else c.libraryCalls ++ [(pos, vm, path)]) at hmem
  split at hmem
  · exact hl l hmem
  · rcases List.mem_append.mp hmem with hmem | hmem
    · exact hl l hmem
    · rw [List.mem_singleton] at hmem
      subst hmem
      exact isKnownInclude_of_libraryFunction h

mutual

theorem steady_expr (ctx : Ctx) : ∀ e, Steady (expr ctx e)
  | .lit l p => by
    simp only [expr]
    exact steady_bind steady_get fun _ => steady_pure _
  | .ident n p => by
    simp only [expr]
    exact steady_identifier ctx n p
  | .binary op l r p => by
    simp only [expr]
    split
    · exact steady_bind (steady_fault _ _) fun _ => steady_pure _
    · split
      · exact steady_bind (steady_expr ctx l) fun _ => steady_bind (steady_mismatch _ _ _ _) fun _ =>
          steady_bind (steady_expr ctx r) fun _ =>
            steady_bind (steady_mismatch _ _ _ _) fun _ => steady_pure _
      · split
        · exact steady_bind (steady_expr ctx l) fun lt =>
            steady_bind (steady_expr ctx r) fun rt => steady_compare lt rt p
        · exact steady_bind (steady_fault _ _) fun _ => steady_pure _
  | .unary op e p => by
    simp only [expr]
    exact steady_bind (steady_expr ctx e) fun _ =>
      steady_bind (steady_mismatch _ _ _ _) fun _ => steady_pure _
  | .member o prop p => by
    simp only [expr]
    exact steady_memberClass ctx o prop p
  | .index o k p => by
    simp only [expr]
    split
    · exact steady_bind (steady_fault _ _) fun _ => steady_pure _
    · refine steady_bind (steady_mappingOf o p) fun r => ?_
      split
      · exact steady_bind (steady_expr ctx k) fun _ =>
          steady_bind (steady_mismatch _ _ _ _) fun _ => steady_pure _
      · exact steady_pure _
  | .call f args p => by
    simp only [expr]
    have ha := steady_exprs ctx args
    have hp := fun ps => steady_paramArgs ctx f ps args
    have hc := fun cls what => steady_argsOfClass ctx cls what args
    split
    · exact steady_bind (steady_fault _ _) fun _ => steady_pure _
    · refine steady_functionOf?_bind fun c => ?_
      split
      · exact steady_bind (steady_arity _ _ _ _) (fun _ => steady_bind (hp _) fun _ => steady_pure _) c
      · rename_i hfn
        split
        · split
          · exact steady_bind (steady_arity _ _ _ _)
              (fun _ => steady_bind (hc _ _) fun _ => steady_pure _) c
          · exact steady_bind (hc _ _) (fun _ => steady_pure _) c
        · split
          · -- only a name that is no function of the coin reaches the library
            rename_i vm path hl
            exact (keeps_libraryCall hl hfn p).trans
              (steady_bind ha (fun _ => steady_pure _) _)
          · exact steady_bind (steady_fault _ _) (fun _ => steady_bind ha fun _ => steady_pure _) c

theorem steady_exprs (ctx : Ctx) : ∀ es, Steady (exprs ctx es)
  | [] => by
    simp only [exprs]
    exact steady_pure _
  | e :: es => by
    simp only [exprs]
    exact steady_bind (steady_expr ctx e) fun _ => steady_exprs ctx es

theorem steady_argsOfClass (ctx : Ctx) (cls what : String) :
    ∀ es, Steady (argsOfClass ctx cls what es)
  | [] => by
    simp only [argsOfClass]
    exact steady_pure _
  | e :: es => by
    simp only [argsOfClass]
    exact steady_bind (steady_expr ctx e) fun _ =>
      steady_bind (steady_mismatch _ _ _ _) fun _ => steady_argsOfClass ctx cls what es

theorem steady_paramArgs (ctx : Ctx) (f : String) :
    ∀ ps es, Steady (paramArgs ctx f ps es)
  | p :: ps, a :: as => by
    simp only [paramArgs]
    exact steady_bind (steady_expr ctx a) fun _ =>
      steady_bind (steady_mismatch _ _ _ _) fun _ => steady_paramArgs ctx f ps as
  | [], a :: as => by
    simp only [paramArgs]
    exact steady_bind (steady_expr ctx a) fun _ => steady_paramArgs ctx f [] as
  | _, [] => by
    simp only [paramArgs]
    exact steady_pure _

end

/-! ### Clean checks of expressions resolve their names -/

section Clean

variable {α β : Type}

theorem run_bind_snd {x : CheckM α} {f : α → CheckM β} {c : Checker} :
    ((x >>= f).run c).2 = ((f (x.run c).1).run (x.run c).2).2 := rfl

theorem run_bind_of_read {x : CheckM α} {f : α → CheckM β} {c : Checker} {a : α}
    (hx : x.run c = (a, c)) : (x >>= f).run c = (f a).run c := by
  show (f (x.run c).1).run (x.run c).2 = _
  rw [hx]

theorem Clean.of_read {x : CheckM α} {f : α → CheckM β} {c : Checker} {a : α}
    (hx : x.run c = (a, c)) (h : Clean (x >>= f) c) : Clean (f a) c := by
  unfold Clean at h ⊢
  rwa [run_bind_of_read hx] at h

end Clean

theorem stateField_clean {prop : String} {pos : Pos} {c : Checker}
    (h : Clean (stateField prop pos) c) :
    ∃ s, c.globals.find? prop = some s ∧ s.kind = .state := by
  unfold stateField at h
  have h' := Clean.of_read (global?_run prop c) h
  cases hs : c.globals.find? prop with
  | none =>
    rw [hs] at h'
    exact absurd h' (not_clean_fault_bind fun _ => steady_pure _)
  | some s =>
    rw [hs] at h'
    refine ⟨s, rfl, ?_⟩
    by_cases hk : s.kind = .state
    · exact hk
    · simp only [hk, beq_iff_eq, if_false] at h'
      exact absurd h' (not_clean_fault_bind fun _ => steady_pure _)

theorem identifier_resolves {ctx : Ctx} {n : String} {pos : Pos} {c : Checker}
    (hG : GlobalKinds c.globals.symbols) (h : Clean (identifier ctx n pos) c) (a : Bool) :
    (Expr.ident n pos).Resolves c.globals.symbols (ctx.keys c.globals.symbols a) := by
  unfold identifier at h
  split at h
  · exact absurd h (not_clean_fault_bind fun _ => steady_pure _)
  · have h' := Clean.of_read (lookup_run ctx n c) h
    cases hf : ctx.frames.findSome? (·.find? n) with
    | some s =>
      exact .bound (Ctx.mem_keys_frames (mem_names_of_findSome? hf))
    | none =>
      rw [hf, Option.none_or] at h'
      cases hs : c.globals.find? n with
      | none =>
        rw [hs] at h'
        exact absurd h' (not_clean_fault_bind fun _ => steady_pure _)
      | some s =>
        rw [hs] at h'
        have hmem : s ∈ c.globals.symbols := List.mem_of_find?_eq_some hs
        have hval : s.kind = .storage ∨ s.kind = .constant := by
          dsimp only at h'
          cases hk : s.kind with
          | storage => exact .inl rfl
          | constant => exact .inr rfl
          | parameter => exact absurd hk (hG s hmem).1
          | «local» => exact absurd hk (hG s hmem).2
          | state =>
            rw [hk] at h'
            exact absurd h' (not_clean_fault_bind fun _ => steady_pure _)
          | event =>
            rw [hk] at h'
            exact absurd h' (not_clean_fault_bind fun _ => steady_pure _)
          | function =>
            rw [hk] at h'
            exact absurd h' (not_clean_fault_bind fun _ => steady_pure _)
        exact .global hs hval

theorem memberClass_resolves {ctx : Ctx} {o : Expr} {prop : String} {pos : Pos} {c : Checker}
    (h : Clean (memberClass ctx o prop pos) c) :
    (Expr.member o prop pos).Resolves c.globals.symbols
      (ctx.keys c.globals.symbols ((memberClass ctx o prop pos).run c).2.amountUsed) := by
  unfold memberClass at h ⊢
  by_cases hm : isName "msg" o = true
  · simp only [hm, if_true] at h ⊢
    by_cases hs : prop = "sender"
    · simp only [hs, beq_self_eq_true, if_true] at h
      exact absurd h (not_clean_fault_bind fun _ => steady_pure _)
    by_cases hv : prop = "value"
    · subst hv
      by_cases ha : ctx.inAction = true
      · -- `msg.value` in an action marks the amount used
        simp only [ha, beq_self_eq_true, if_true, show ("value" == "sender") = false from rfl,
          Bool.false_eq_true, if_false]
        exact .amount hm (Ctx.amount_mem_keys ha)
      · simp only [ha, show ("value" == "sender") = false from rfl, Bool.false_eq_true,
          if_false, beq_self_eq_true, if_true] at h
        exact absurd h (not_clean_fault_bind fun _ => steady_pure _)
    · simp only [show (prop == "sender") = false from by simpa using hs,
        show (prop == "value") = false from by simpa using hv, Bool.false_eq_true, if_false] at h
      exact absurd h (not_clean_fault_bind fun _ => steady_pure _)
  · simp only [hm, Bool.false_eq_true, if_false] at h ⊢
    by_cases hst : isName "state" o = true
    · simp only [hst, if_true] at h ⊢
      by_cases hbad : (ctx.function.isSome || !ctx.stateful) = true
      · simp only [hbad, if_true] at h
        exact absurd h (not_clean_fault_bind fun _ => steady_bind (steady_stateField _ _) fun _ =>
          steady_pure _)
      · simp only [hbad, Bool.false_eq_true, if_false] at h
        have hfn : ctx.function = none := by
          cases hf : ctx.function <;> simp_all
        have hsf : ctx.stateful = true := by
          cases hs : ctx.stateful <;> simp_all
        have hc := (Clean.bind (steady_stateField prop pos) (fun _ => steady_pure _) h).1
        obtain ⟨s, hs, hk⟩ := stateField_clean hc
        exact .field hst (Ctx.field_mem_keys hs hk hsf hfn)
    · simp only [hst, Bool.false_eq_true, if_false] at h
      exact absurd h (not_clean_fault_bind fun _ => steady_pure _)

theorem mappingOf_clean {o : Expr} {pos : Pos} {c : Checker} (h : Clean (mappingOf o pos) c) :
    ∃ q prop r s kv, o = .member (.ident "state" q) prop r ∧ c.globals.find? prop = some s ∧
      s.kind = .state ∧ (mappingOf o pos).run c = (some kv, c) := by
  unfold mappingOf at h ⊢
  split at h
  · rename_i q prop r
    have h' := Clean.of_read (global?_run prop c) h
    cases hs : c.globals.find? prop with
    | none =>
      rw [hs] at h'
      exact absurd h' (not_clean_fault_bind fun _ => steady_pure _)
    | some s =>
      rw [hs] at h'
      by_cases hk : s.kind = .state
      · simp only [hk, bne_self_eq_false, Bool.false_eq_true, if_false] at h'
        cases ht : s.type.ref? with
        | none =>
          rw [ht] at h'
          exact absurd h' (not_clean_fault_bind fun _ => steady_pure _)
        | some t =>
          cases t with
          | named n =>
            rw [ht] at h'
            exact absurd h' (not_clean_fault_bind fun _ => steady_pure _)
          | mapping kt vt =>
            refine ⟨q, prop, r, s, (classOf (some kt.text), classOf (some vt.text)), rfl, hs, hk, ?_⟩
            rw [run_bind_of_read (global?_run prop c), hs]
            simp only [hk, bne_self_eq_false, Bool.false_eq_true, if_false, ht]
            rfl
      · have hk' : (s.kind != .state) = true := by simpa using hk
        simp only [hk', if_true] at h'
        exact absurd h' (not_clean_fault_bind fun _ => steady_pure _)
  · exact absurd h (not_clean_fault_bind fun _ => steady_pure _)

theorem binaryOp_isSome_of_class {op : String}
    (h : (["+", "-", "*", "/", "%"].contains op || ["<", ">", "<=", ">="].contains op ||
      (op == "&&" || op == "||")) = true) : (binaryOp? op).isSome = true := by
  simp only [Bool.or_eq_true, List.contains_iff_mem, List.mem_cons, List.not_mem_nil, or_false,
    beq_iff_eq] at h
  obtain ((h | h | h | h | h) | (h | h | h | h)) | (h | h) := h <;> subst h <;> rfl

theorem binaryOp_isSome_of_eq {op : String} (h : (op == "==" || op == "!=") = true) :
    (binaryOp? op).isSome = true := by
  simp only [Bool.or_eq_true, beq_iff_eq] at h
  obtain h | h := h <;> subst h <;> rfl

variable {G : List Symbol} {ctx : Ctx}

mutual

theorem expr_resolves (hG : GlobalKinds G) : ∀ (e : Expr) (c : Checker), c.globals.symbols = G →
    Clean (expr ctx e) c → e.Resolves G (ctx.keys G ((expr ctx e).run c).2.amountUsed)
  | .lit l p, _, _, _ => .lit
  | .ident n p, c, hc, h => by
    simp only [expr] at h ⊢
    subst hc
    exact identifier_resolves hG h _
  | .binary op l r p, c, hc, h => by
    simp only [expr] at h ⊢
    by_cases hs : (isMsg "sender" l || isMsg "sender" r) = true
    · simp only [hs, if_true] at h
      exact absurd h (not_clean_fault_bind fun _ => steady_pure _)
    simp only [hs, Bool.false_eq_true, if_false] at h ⊢
    by_cases ha : (["+", "-", "*", "/", "%"].contains op || ["<", ">", "<=", ">="].contains op ||
        (op == "&&" || op == "||")) = true
    · simp only [ha, if_true] at h ⊢
      have hop := binaryOp_isSome_of_class ha
      obtain ⟨hl, h1, k1⟩ := Clean.bind_later (steady_expr ctx l) (fun _ =>
        steady_bind (steady_mismatch _ _ _ _) fun _ => steady_bind (steady_expr ctx r) fun _ =>
          steady_bind (steady_mismatch _ _ _ _) fun _ => steady_pure _) h
      obtain ⟨-, h2, k2⟩ := Clean.bind_later (steady_mismatch _ _ _ _) (fun _ =>
        steady_bind (steady_expr ctx r) fun _ =>
          steady_bind (steady_mismatch _ _ _ _) fun _ => steady_pure _) h1
      obtain ⟨hr, -, k3⟩ := Clean.bind_later (steady_expr ctx r) (fun _ =>
        steady_bind (steady_mismatch _ _ _ _) fun _ => steady_pure _) h2
      have hc1 := (steady_expr ctx l c).symbols hc
      simp only [run_bind_snd] at k1 k3 ⊢
      exact .binary hop ((expr_resolves hG l c hc hl).mono (Ctx.keys_mono k1.amount))
        ((expr_resolves hG r _ (by exact (steady_mismatch _ _ _ _ _).symbols hc1) hr).mono
          (Ctx.keys_mono k3.amount))
    simp only [ha, Bool.false_eq_true, if_false] at h ⊢
    by_cases he : (op == "==" || op == "!=") = true
    · simp only [he, if_true] at h ⊢
      have hop := binaryOp_isSome_of_eq he
      have hrest := fun lt rt => steady_compare lt rt p
      obtain ⟨hl, h1, k1⟩ := Clean.bind_later (steady_expr ctx l) (fun lt =>
        steady_bind (steady_expr ctx r) fun rt => hrest lt rt) h
      obtain ⟨hr, -, k2⟩ := Clean.bind_later (steady_expr ctx r) (fun rt => hrest _ rt) h1
      have hc1 := (steady_expr ctx l c).symbols hc
      exact .binary hop ((expr_resolves hG l c hc hl).mono (Ctx.keys_mono k1.amount))
        ((expr_resolves hG r _ hc1 hr).mono (Ctx.keys_mono k2.amount))
    · simp only [he, Bool.false_eq_true, if_false] at h
      exact absurd h (not_clean_fault_bind fun _ => steady_pure _)
  | .unary op e p, c, hc, h => by
    simp only [expr] at h ⊢
    obtain ⟨he, -, k⟩ := Clean.bind_later (steady_expr ctx e) (fun _ =>
      steady_bind (steady_mismatch _ _ _ _) fun _ => steady_pure _) h
    exact .unary ((expr_resolves hG e c hc he).mono (Ctx.keys_mono k.amount))
  | .member o prop p, c, hc, h => by
    simp only [expr] at h ⊢
    subst hc
    exact memberClass_resolves h
  | .index o k p, c, hc, h => by
    simp only [expr] at h ⊢
    by_cases hbad : (ctx.function.isSome || !ctx.stateful) = true
    · simp only [hbad, if_true] at h
      exact absurd h (not_clean_fault_bind fun _ => steady_pure _)
    simp only [hbad, Bool.false_eq_true, if_false] at h ⊢
    have hfn : ctx.function = none := by cases hf : ctx.function <;> simp_all
    have hsf : ctx.stateful = true := by cases hs : ctx.stateful <;> simp_all
    obtain ⟨q, prop, r, s, kv, rfl, hs, hkind, hrun⟩ :=
      mappingOf_clean (Clean.bind (steady_mappingOf o p) (fun r => by
        split
        · exact steady_bind (steady_expr ctx k) fun _ =>
            steady_bind (steady_mismatch _ _ _ _) fun _ => steady_pure _
        · exact steady_pure _) h).1
    have h' := Clean.of_read hrun h
    rw [run_bind_of_read hrun]
    obtain ⟨hk, -, k1⟩ := Clean.bind_later (steady_expr ctx k) (fun _ =>
      steady_bind (steady_mismatch _ _ _ _) fun _ => steady_pure _) h'
    have hs' : G.find? (·.name == prop) = some s := by rw [← hc]; exact hs
    exact .entry rfl (Ctx.field_mem_keys hs' hkind hsf hfn)
      ((expr_resolves hG k c hc hk).mono (Ctx.keys_mono k1.amount))
  | .call f args p, c, hc, h => by
    simp only [expr] at h ⊢
    by_cases hst : (statementCall? f).isSome = true
    · simp only [hst, if_true] at h
      exact absurd h (not_clean_fault_bind fun _ => steady_pure _)
    simp only [hst, Bool.false_eq_true, if_false] at h ⊢
    have h' := Clean.of_read (functionOf?_run f c) h
    rw [run_bind_of_read (functionOf?_run f c)]
    revert h'
    cases hfn : functionIn c.globals f with
    | some fn =>
      intro h'
      have hcall : Callable G f := by
        left
        obtain ⟨s, hs, hsf⟩ := Option.bind_eq_some_iff.mp hfn
        refine ⟨s, hc ▸ hs, ?_⟩
        revert hsf
        split <;> simp_all
      obtain ⟨-, h1, k1⟩ := Clean.bind_later (steady_arity _ _ _ _) (fun _ =>
        steady_bind (steady_paramArgs ctx f _ args) fun _ => steady_pure _) h'
      obtain ⟨ha, -, k2⟩ := Clean.bind_later (steady_paramArgs ctx f _ args)
        (fun _ => steady_pure _) h1
      exact .call hcall fun a hmem =>
        ((paramArgs_resolves hG f _ args _ (by exact (steady_arity _ _ _ _ c).symbols hc) ha a
          hmem).mono (Ctx.keys_mono k2.amount))
    | none =>
      intro h'
      cases hb : builtin? f with
      | some b =>
        obtain ⟨op, argCls, result, n⟩ := b
        have hcall : Callable G f := .inr (.inl (by simp [hb]))
        simp only [hb] at h' ⊢
        cases n with
        | some n =>
          obtain ⟨-, h1, -⟩ := Clean.bind_later (steady_arity _ _ _ _) (fun _ =>
            steady_bind (steady_argsOfClass ctx _ _ args) fun _ => steady_pure _) h'
          obtain ⟨ha, -, k2⟩ := Clean.bind_later (steady_argsOfClass ctx _ _ args)
            (fun _ => steady_pure _) h1
          exact .call hcall fun a hmem =>
            ((argsOfClass_resolves hG _ _ args _ (by exact (steady_arity _ _ _ _ c).symbols hc) ha
              a hmem).mono (Ctx.keys_mono k2.amount))
        | none =>
          obtain ⟨ha, -, k2⟩ := Clean.bind_later (steady_argsOfClass ctx _ _ args)
            (fun _ => steady_pure _) h'
          exact .call hcall fun a hmem =>
            ((argsOfClass_resolves hG _ _ args _ hc ha a hmem).mono (Ctx.keys_mono k2.amount))
      | none =>
        simp only [hb] at h' ⊢
        cases hl : libraryFunction f with
        | some vp =>
          obtain ⟨vm, path⟩ := vp
          have hcall : Callable G f := .inr (.inr (by simp [hl]))
          simp only [hl] at h' ⊢
          obtain ⟨-, h1, -⟩ := Clean.bind_keeps (keeps_libraryCall hl hfn _) (fun _ =>
            steady_bind (steady_exprs ctx args) fun _ => steady_pure _) h'
          obtain ⟨ha, -, k2⟩ := Clean.bind_later (steady_exprs ctx args)
            (fun _ => steady_pure _) h1
          exact .call hcall fun a hmem =>
            ((exprs_resolves hG args _ (by exact (keeps_libraryCall hl hfn p).symbols hc) ha a
              hmem).mono (Ctx.keys_mono k2.amount))
        | none =>
          simp only [hl] at h'
          exact absurd h' (not_clean_fault_bind fun _ =>
            steady_bind (steady_exprs ctx args) fun _ => steady_pure _)

theorem exprs_resolves (hG : GlobalKinds G) : ∀ (es : List Expr) (c : Checker),
    c.globals.symbols = G → Clean (exprs ctx es) c →
      ∀ a ∈ es, a.Resolves G (ctx.keys G ((exprs ctx es).run c).2.amountUsed)
  | [], _, _, _ => fun _ hmem => absurd hmem List.not_mem_nil
  | e :: es, c, hc, h => by
    simp only [exprs] at h ⊢
    obtain ⟨he, hes, k⟩ := Clean.bind_later (steady_expr ctx e) (fun _ => steady_exprs ctx es) h
    have hc1 := (steady_expr ctx e c).symbols hc
    intro a hmem
    rcases List.mem_cons.mp hmem with hae | hmem
    · rw [hae]
      exact (expr_resolves hG e c hc he).mono (Ctx.keys_mono k.amount)
    · exact exprs_resolves hG es _ hc1 hes a hmem

theorem argsOfClass_resolves (hG : GlobalKinds G) (cls what : String) :
    ∀ (es : List Expr) (c : Checker), c.globals.symbols = G → Clean (argsOfClass ctx cls what es) c →
      ∀ a ∈ es, a.Resolves G (ctx.keys G ((argsOfClass ctx cls what es).run c).2.amountUsed)
  | [], _, _, _ => fun _ hmem => absurd hmem List.not_mem_nil
  | e :: es, c, hc, h => by
    simp only [argsOfClass] at h ⊢
    obtain ⟨he, h1, k⟩ := Clean.bind_later (steady_expr ctx e) (fun _ =>
      steady_bind (steady_mismatch _ _ _ _) fun _ => steady_argsOfClass ctx cls what es) h
    obtain ⟨-, hes, -⟩ := Clean.bind_later (steady_mismatch _ _ _ _) (fun _ =>
      steady_argsOfClass ctx cls what es) h1
    have hc1 := (steady_expr ctx e c).symbols hc
    intro a hmem
    rcases List.mem_cons.mp hmem with hae | hmem
    · rw [hae]
      exact (expr_resolves hG e c hc he).mono (Ctx.keys_mono k.amount)
    · exact argsOfClass_resolves hG cls what es _
        (by exact (steady_mismatch _ _ _ _ _).symbols hc1) hes a hmem

theorem paramArgs_resolves (hG : GlobalKinds G) (f : String) :
    ∀ (ps : List Param) (es : List Expr) (c : Checker), c.globals.symbols = G →
      Clean (paramArgs ctx f ps es) c →
        ∀ a ∈ es, a.Resolves G (ctx.keys G ((paramArgs ctx f ps es).run c).2.amountUsed)
  | _ :: ps, e :: es, c, hc, h => by
    simp only [paramArgs] at h ⊢
    obtain ⟨he, h1, k⟩ := Clean.bind_later (steady_expr ctx e) (fun _ =>
      steady_bind (steady_mismatch _ _ _ _) fun _ => steady_paramArgs ctx f ps es) h
    obtain ⟨-, hes, -⟩ := Clean.bind_later (steady_mismatch _ _ _ _) (fun _ =>
      steady_paramArgs ctx f ps es) h1
    have hc1 := (steady_expr ctx e c).symbols hc
    intro a hmem
    rcases List.mem_cons.mp hmem with hae | hmem
    · rw [hae]
      exact (expr_resolves hG e c hc he).mono (Ctx.keys_mono k.amount)
    · exact paramArgs_resolves hG f ps es _
        (by exact (steady_mismatch _ _ _ _ _).symbols hc1) hes a hmem
  | [], e :: es, c, hc, h => by
    simp only [paramArgs] at h ⊢
    obtain ⟨he, hes, k⟩ := Clean.bind_later (steady_expr ctx e) (fun _ =>
      steady_paramArgs ctx f [] es) h
    have hc1 := (steady_expr ctx e c).symbols hc
    intro a hmem
    rcases List.mem_cons.mp hmem with hae | hmem
    · rw [hae]
      exact (expr_resolves hG e c hc he).mono (Ctx.keys_mono k.amount)
    · exact paramArgs_resolves hG f [] es _ hc1 hes a hmem
  | _, [], _, _, _ => fun _ hmem => absurd hmem List.not_mem_nil

end

/-! ### The steps that check statements keep what a body check keeps -/

theorem steady_expectClass (ctx : Ctx) (e : Expr) (want what : String) :
    Steady (expectClass ctx e want what) :=
  steady_bind (steady_expr ctx e) fun _ => steady_bind (steady_mismatch _ _ _ _) fun _ =>
    steady_pure _

theorem steady_index (ctx : Ctx) (o k : Expr) (pos : Pos) : Steady (index ctx o k pos) := by
  unfold index
  refine steady_bind (steady_mappingOf o pos) fun r => ?_
  split
  · exact steady_bind (steady_expectClass _ _ _ _) fun _ => steady_pure _
  · exact steady_pure _

theorem steady_target (ctx : Ctx) (t : Expr) : Steady (target ctx t) := by
  unfold target
  split
  · refine steady_bind (steady_lookup _ _) fun r => ?_
    dsimp only
    split
    · exact steady_bind (steady_fault _ _) fun _ => steady_pure _
    · split
      · exact steady_pure _
      all_goals exact steady_bind (steady_fault _ _) fun _ => steady_pure _
  · split
    · split
      · exact steady_bind (steady_fault _ _) fun _ => steady_pure _
      · exact steady_stateField _ _
    · exact steady_bind (steady_fault _ _) fun _ => steady_pure _
  · split
    · exact steady_bind (steady_fault _ _) fun _ => steady_pure _
    · exact steady_index _ _ _ _
  · exact steady_bind (steady_fault _ _) fun _ => steady_pure _

theorem steady_guard {α : Type} (b : Bool) (text : String) (pos : Pos) {K : Unit → CheckM α}
    (hK : ∀ u, Steady (K u)) :
    Steady (if b = true then fault text pos >>= K else K ()) := by
  split
  · exact steady_bind (steady_fault _ _) hK
  · exact hK ()

theorem steady_assign (ctx : Ctx) (t : Expr) (op : String) (v : Expr) (pos : Pos)
    (d : Option TypeRef) : Steady (assign ctx t op v pos d) := by
  unfold assign
  cases d with
  | some ty =>
    dsimp only
    refine steady_bind (steady_lookup _ _) fun _ => steady_guard _ _ _ fun _ => ?_
    exact steady_bind (steady_expr _ _) fun _ => steady_guard _ _ _ fun _ => steady_pure _
  | none =>
    dsimp only
    refine steady_bind (steady_target _ _) fun r => ?_
    split
    · exact steady_bind (steady_expr _ _) fun _ => steady_pure _
    · exact steady_guard _ _ _ fun _ =>
        steady_bind (steady_expr _ _) fun _ => steady_guard _ _ _ fun _ => steady_pure _

theorem steady_foldlM {γ δ : Type} (f : γ → δ → CheckM γ) (hf : ∀ i a, Steady (f i a)) :
    ∀ (xs : List δ) (i : γ), Steady (xs.foldlM f i)
  | [], i => steady_pure i
  | a :: as, i => by
    rw [List.foldlM_cons]
    exact steady_bind (hf i a) fun j => steady_foldlM f hf as j

theorem steady_statementCall (ctx : Ctx) (e : Expr) (pos : Pos) :
    Steady (statementCall ctx e pos) := by
  unfold statementCall
  split
  · split
    · dsimp only
      refine steady_guard _ _ _ fun _ => steady_guard _ _ _ fun _ => ?_
      exact steady_bind (steady_foldlM _ (fun _ _ => steady_bind (steady_expectClass _ _ _ _)
        fun _ => steady_pure _) _ _) fun _ => steady_pure _
    · exact steady_bind (steady_expr _ _) fun _ => steady_fault _ _
  · exact steady_bind (steady_expr _ _) fun _ => steady_fault _ _

/-! ### Statements whose names resolve -/

/-- A step that gives back the same value from every state. -/
def Returns {α : Type} (r : α) (x : CheckM α) : Prop := ∀ c, (x.run c).1 = r

/-- A clean run that marks the amount used only when `am` is set: the keys at `am` hold every
name it reads. -/
def CleanAt {α : Type} (am : Bool) (x : CheckM α) (c : Checker) : Prop :=
  Clean x c ∧ ((x.run c).2.amountUsed = true → am = true)

section Returns

variable {α β : Type} {r : α}

theorem returns_pure : Returns r (pure r : CheckM α) := fun _ => rfl

theorem returns_bind {x : CheckM β} {f : β → CheckM α} (hf : ∀ b, Returns r (f b)) :
    Returns r (x >>= f) := fun _ => hf _ _

theorem returns_guard (b : Bool) (text : String) (pos : Pos) {K : Unit → CheckM α}
    (hK : ∀ u, Returns r (K u)) : Returns r (if b = true then fault text pos >>= K else K ()) := by
  split
  · exact returns_bind hK
  · exact hK ()

end Returns

section CleanAt

variable {α β : Type} {am : Bool} {c : Checker}

theorem CleanAt.bind {x : CheckM α} {f : α → CheckM β} (hx : Steady x) (hf : ∀ a, Steady (f a))
    (h : CleanAt am (x >>= f) c) :
    CleanAt am x c ∧ CleanAt am (f (x.run c).1) (x.run c).2 ∧ Keeps c (x.run c).2 := by
  obtain ⟨h1, h2, k⟩ := Clean.bind_later hx hf h.1
  exact ⟨⟨h1, h.2 ∘ k.amount⟩, ⟨h2, h.2⟩, hx c⟩

theorem Clean.guard {b : Bool} {text : String} {pos : Pos} {K : Unit → CheckM α}
    (hK : ∀ u, Steady (K u)) (h : Clean (if b = true then fault text pos >>= K else K ()) c) :
    b = false := by
  cases b
  · rfl
  · exact absurd h (not_clean_fault_bind hK)

theorem CleanAt.guard {b : Bool} {text : String} {pos : Pos} {K : Unit → CheckM α}
    (hK : ∀ u, Steady (K u)) (h : CleanAt am (if b = true then fault text pos >>= K else K ()) c) :
    CleanAt am (K ()) c := by
  cases b
  · exact h
  · exact absurd h.1 (not_clean_fault_bind hK)

theorem CleanAt.of_read {x : CheckM α} {f : α → CheckM β} {a : α} (hx : x.run c = (a, c))
    (h : CleanAt am (x >>= f) c) : CleanAt am (f a) c := by
  have ham := h.2
  rw [run_bind_of_read hx] at ham
  exact ⟨Clean.of_read hx h.1, ham⟩

end CleanAt

theorem not_clean_then_fault {α : Type} {x : CheckM α} (hx : Steady x) {text : String}
    {pos : Pos} {c : Checker} : ¬Clean (x >>= fun _ => fault text pos) c := fun h =>
  not_clean_fault (Clean.bind hx (fun _ => steady_fault _ _) h).2

theorem Ctx.writable {ctx : Ctx} (h : ¬(ctx.function.isSome || !ctx.stateful) = true) :
    ctx.function = none ∧ ctx.stateful = true := by
  cases hf : ctx.function <;> cases hs : ctx.stateful <;> simp_all

theorem Ctx.keys_inner (ctx : Ctx) (G : List Symbol) (a : Bool) :
    ctx.inner.keys G a = ctx.keys G a := by
  simp [Ctx.inner, Ctx.keys]

theorem Frame.mem_names_define {f : Frame} {s : Symbol} {n : String}
    (h : n ∈ (f.define s).symbols.map (·.name)) : n = s.name ∨ n ∈ f.symbols.map (·.name) := by
  unfold Frame.define at h
  split at h
  · obtain ⟨t, ht, rfl⟩ := List.mem_map.mp h
    obtain ⟨u, hu, rfl⟩ := List.mem_map.mp ht
    by_cases hun : (u.name == s.name) = true
    · simp [hun]
    · simp only [hun, Bool.false_eq_true, if_false]
      exact .inr (List.mem_map_of_mem hu)
  · simp only [List.map_append, List.mem_append, List.map_cons, List.map_nil,
      List.mem_singleton] at h
    rcases h with h | h
    · exact .inr h
    · exact .inl h

theorem expr_resolves_at (hG : GlobalKinds G) {e : Expr} {c : Checker} {am : Bool}
    (hc : c.globals.symbols = G) (h : CleanAt am (expr ctx e) c) : e.Resolves G (ctx.keys G am) :=
  (expr_resolves hG e c hc h.1).mono (Ctx.keys_mono h.2)

theorem expectClass_resolves (hG : GlobalKinds G) {e : Expr} {want what : String} {c : Checker}
    {am : Bool} (hc : c.globals.symbols = G) (h : CleanAt am (expectClass ctx e want what) c) :
    e.Resolves G (ctx.keys G am) := by
  unfold expectClass at h
  exact expr_resolves_at hG hc (CleanAt.bind (steady_expr ctx e) (fun _ =>
    steady_bind (steady_mismatch _ _ _ _) fun _ => steady_pure _) h).1

theorem target_resolves (hG : GlobalKinds G) {t : Expr} {c : Checker} {am : Bool}
    (hc : c.globals.symbols = G) (h : CleanAt am (target ctx t) c) {op : String} {v : Expr}
    {p : Pos} {rest : List Stmt} (hv : v.Resolves G (ctx.keys G am))
    (hrest : Block.Resolves G (ctx.keys G am) rest) :
    Block.Resolves G (ctx.keys G am) (.assign t op v p none :: rest) := by
  cases t with
  | ident n q =>
    simp only [target] at h
    have h' := CleanAt.of_read (lookup_run ctx n c) h
    cases hf : ctx.frames.findSome? (·.find? n) with
    | some s => exact .setLocal (Ctx.mem_keys_frames (mem_names_of_findSome? hf)) hv hrest
    | none =>
      -- a coin name is never a local, and assigning to any other kind is a fault
      rw [hf, Option.none_or] at h'
      cases hs : c.globals.find? n with
      | none =>
        rw [hs] at h'
        exact absurd h'.1 (not_clean_fault_bind fun _ => steady_pure _)
      | some s =>
        rw [hs] at h'
        have hmem : s ∈ G := hc ▸ List.mem_of_find?_eq_some hs
        dsimp only at h'
        cases hk : s.kind <;> simp only [hk] at h'
        case «local» => exact absurd hk (hG s hmem).2
        all_goals exact absurd h'.1 (not_clean_fault_bind fun _ => steady_pure _)
  | member o prop q =>
    simp only [target] at h
    by_cases hst : isName "state" o = true
    · simp only [hst, if_true] at h
      by_cases hbad : (ctx.function.isSome || !ctx.stateful) = true
      · simp only [hbad, if_true] at h
        exact absurd h.1 (not_clean_fault_bind fun _ => steady_pure _)
      simp only [hbad, Bool.false_eq_true, if_false] at h
      obtain ⟨hfn, hsf⟩ := Ctx.writable hbad
      obtain ⟨s, hs, hk⟩ := stateField_clean h.1
      have hs' : G.find? (·.name == prop) = some s := by rw [← hc]; exact hs
      exact .setField hst (Ctx.field_mem_keys hs' hk hsf hfn) hv hrest
    · simp only [hst, Bool.false_eq_true, if_false] at h
      exact absurd h.1 (not_clean_fault_bind fun _ => steady_pure _)
  | index o k q =>
    simp only [target] at h
    by_cases hbad : (ctx.function.isSome || !ctx.stateful) = true
    · simp only [hbad, if_true] at h
      exact absurd h.1 (not_clean_fault_bind fun _ => steady_pure _)
    simp only [hbad, Bool.false_eq_true, if_false] at h
    obtain ⟨hfn, hsf⟩ := Ctx.writable hbad
    unfold index at h
    obtain ⟨q', prop, r, s, kv, rfl, hs, hkind, hrun⟩ :=
      mappingOf_clean (CleanAt.bind (steady_mappingOf _ q) (fun r => by
        split
        · exact steady_bind (steady_expectClass _ _ _ _) fun _ => steady_pure _
        · exact steady_pure _) h).1.1
    have h' := CleanAt.of_read hrun h
    have hk := (CleanAt.bind (steady_expectClass _ _ _ _) (fun _ => steady_pure _) h').1
    have hs' : G.find? (·.name == prop) = some s := by rw [← hc]; exact hs
    exact .setEntry rfl (Ctx.field_mem_keys hs' hkind hsf hfn) (expectClass_resolves hG hc hk)
      hv hrest
  | lit l q =>
    simp only [target] at h
    exact absurd h.1 (not_clean_fault_bind fun _ => steady_pure _)
  | binary op' l r q =>
    simp only [target] at h
    exact absurd h.1 (not_clean_fault_bind fun _ => steady_pure _)
  | unary op' e q =>
    simp only [target] at h
    exact absurd h.1 (not_clean_fault_bind fun _ => steady_pure _)
  | call f args q =>
    simp only [target] at h
    exact absurd h.1 (not_clean_fault_bind fun _ => steady_pure _)

theorem assign_declare_keys (ctx : Ctx) (n : String) (q : Pos) (op : String) (v : Expr) (p : Pos)
    (ty : TypeRef) (G : List Symbol) :
    ∃ ctx', Returns ctx' (assign ctx (.ident n q) op v p (some ty)) ∧
      ∀ a, ctx'.keys G a ⊆ n :: ctx.keys G a := by
  unfold assign
  refine ⟨_, returns_bind fun _ => returns_guard _ _ _ fun _ => returns_bind fun _ =>
    returns_guard _ _ _ fun _ => returns_pure, fun a k hk => ?_⟩
  simp only [Ctx.keys, List.mem_append, List.mem_cons] at hk ⊢
  rcases hk with hk | hk
  · revert hk
    cases ctx.frames with
    | nil => simp
    | cons f fs =>
      intro hk
      simp only [List.flatMap_cons, List.mem_append] at hk ⊢
      rcases hk with hk | hk
      · rcases Frame.mem_names_define hk with h | h
        · exact .inl h
        · exact .inr (.inl (.inl h))
      · exact .inr (.inl (.inr hk))
  · exact .inr (.inr hk)

theorem assign_returns (ctx : Ctx) (t : Expr) (op : String) (v : Expr) (p : Pos) :
    Returns ctx (assign ctx t op v p none) := by
  unfold assign
  refine returns_bind fun r => ?_
  cases r with
  | none => exact returns_bind fun _ => returns_pure
  | some tt => exact returns_guard _ _ _ fun _ => returns_bind fun _ =>
      returns_guard _ _ _ fun _ => returns_pure

theorem assign_resolves (hG : GlobalKinds G) {t : Expr} {op : String} {v : Expr} {p : Pos}
    {d : Option TypeRef} {c : Checker} {am : Bool} (hc : c.globals.symbols = G)
    (hd : (Stmt.assign t op v p d).declaresSimply = true)
    (h : CleanAt am (assign ctx t op v p d) c) {rest : List Stmt}
    (hrest : Block.Resolves G ((((assign ctx t op v p d).run c).1).keys G am) rest) :
    Block.Resolves G (ctx.keys G am) (.assign t op v p d :: rest) := by
  cases d with
  | some ty =>
    -- the parser declares only plain names, with `=`
    cases t
    case ident n q =>
      have hop : op = "=" := by simpa [Stmt.declaresSimply] using hd
      subst hop
      obtain ⟨ctx', hret, hkeys⟩ := assign_declare_keys ctx n q "=" v p ty G
      rw [hret c] at hrest
      unfold assign at h
      have h1 := CleanAt.of_read (lookup_run ctx n c) h
      have h2 := CleanAt.guard (fun _ => steady_bind (steady_expr _ _) fun _ =>
        steady_guard _ _ _ fun _ => steady_pure _) h1
      have hv := (CleanAt.bind (steady_expr _ _) (fun _ =>
        steady_guard _ _ _ fun _ => steady_pure _) h2).1
      exact .declare (expr_resolves_at hG hc hv) (hrest.mono (hkeys am))
    all_goals simp [Stmt.declaresSimply] at hd
  | none =>
    rw [assign_returns ctx t op v p c] at hrest
    unfold assign at h
    obtain ⟨ht, h1, k1⟩ := CleanAt.bind (steady_target _ _) (fun r => by
      split
      · exact steady_bind (steady_expr _ _) fun _ => steady_pure _
      · exact steady_guard _ _ _ fun _ => steady_bind (steady_expr _ _) fun _ =>
          steady_guard _ _ _ fun _ => steady_pure _) h
    have hc1 := k1.symbols hc
    have hv : v.Resolves G (ctx.keys G am) := by
      split at h1
      · exact expr_resolves_at hG hc1 (CleanAt.bind (steady_expr _ _) (fun _ => steady_pure _) h1).1
      · have h2 := CleanAt.guard (fun _ => steady_bind (steady_expr _ _) fun _ =>
          steady_guard _ _ _ fun _ => steady_pure _) h1
        exact expr_resolves_at hG hc1 (CleanAt.bind (steady_expr _ _) (fun _ =>
          steady_guard _ _ _ fun _ => steady_pure _) h2).1
    exact target_resolves hG hc ht hv hrest

theorem foldlM_resolves {step : Nat → Expr → CheckM Nat} (hstep : ∀ i a, Steady (step i a))
    (hres : ∀ i a c am, c.globals.symbols = G → CleanAt am (step i a) c →
      a.Resolves G (ctx.keys G am)) :
    ∀ (args : List Expr) (i : Nat) (c : Checker) (am : Bool), c.globals.symbols = G →
      CleanAt am (args.foldlM step i) c → ∀ a ∈ args, a.Resolves G (ctx.keys G am)
  | [], _, _, _, _, _ => fun _ hmem => absurd hmem List.not_mem_nil
  | b :: bs, i, c, am, hc, h => by
    rw [List.foldlM_cons] at h
    obtain ⟨hb, hbs, k⟩ := CleanAt.bind (hstep i b) (fun j => steady_foldlM step hstep bs j) h
    intro a hmem
    rcases List.mem_cons.mp hmem with hab | hmem
    · rw [hab]
      exact hres i b c am hc hb
    · exact foldlM_resolves hstep hres bs _ _ am (k.symbols hc) hbs a hmem

theorem statementCall_resolves (hG : GlobalKinds G) {e : Expr} {pos : Pos} {c : Checker}
    {am : Bool} (hc : c.globals.symbols = G) (h : CleanAt am (statementCall ctx e pos) c)
    {rest : List Stmt} (hrest : Block.Resolves G (ctx.keys G am) rest) :
    Block.Resolves G (ctx.keys G am) (.eval e pos :: rest) := by
  cases e
  case call f args q =>
    unfold statementCall at h
    cases hs : statementCall? f with
    | none =>
      simp only [hs] at h
      exact absurd h.1 (not_clean_then_fault (steady_expr _ _))
    | some sig =>
      obtain ⟨name, argCls, required⟩ := sig
      simp only [hs] at h
      have hargs := fun i a => steady_bind (steady_expectClass ctx a ((argCls[i]?).getD anyClass)
        ("argument " ++ toString (i + 1) ++ " of " ++ f)) fun _ => steady_pure (i + 1)
      have h1 := CleanAt.guard (fun _ => steady_guard _ _ _ fun _ =>
        steady_bind (steady_foldlM _ hargs _ _) fun _ => steady_pure _) h
      have h2 := CleanAt.guard (fun _ => steady_bind (steady_foldlM _ hargs _ _) fun _ =>
        steady_pure _) h1
      have h3 := (CleanAt.bind (steady_foldlM _ hargs _ _) (fun _ => steady_pure _) h2).1
      exact .eval (by simp [hs]) (foldlM_resolves hargs (fun _ _ _ _ hc' h' =>
        expectClass_resolves hG hc' (CleanAt.bind (steady_expectClass _ _ _ _)
          (fun _ => steady_pure _) h').1) args 0 c am hc h3) hrest
  all_goals
    unfold statementCall at h
    exact absurd h.1 (not_clean_then_fault (steady_expr _ _))

theorem stmt_returns (ctx : Ctx) (s : Stmt) (hs : ∀ t op v p ty, s ≠ .assign t op v p (some ty)) :
    Returns ctx (stmt ctx s) := by
  cases s with
  | require cnd m p =>
    unfold stmt
    dsimp only
    split
    · exact returns_guard _ _ _ fun _ => returns_bind fun _ =>
        returns_guard _ _ _ fun _ => returns_bind fun _ => returns_pure
    · exact returns_bind fun _ => returns_pure
  | send r a m p =>
    unfold stmt
    cases m with
    | some m => exact returns_guard _ _ _ fun _ => returns_bind fun _ => returns_bind fun _ =>
        returns_bind fun _ => returns_pure
    | none => exact returns_guard _ _ _ fun _ => returns_bind fun _ => returns_bind fun _ =>
        returns_pure
  | emit ev args p =>
    unfold stmt
    dsimp only
    refine returns_guard _ _ _ fun _ => returns_bind fun l => ?_
    cases l with
    | some e => exact returns_guard _ _ _ fun _ => returns_bind fun _ => returns_pure
    | none => exact returns_bind fun _ => returns_bind fun _ => returns_pure
  | branch cnd yes no p =>
    unfold stmt
    cases no with
    | some no => exact returns_bind fun _ => returns_bind fun _ => returns_bind fun _ =>
        returns_pure
    | none => exact returns_bind fun _ => returns_bind fun _ => returns_pure
  | assign t op v p d =>
    cases d with
    | some ty => exact absurd rfl (hs t op v p ty)
    | none => exact assign_returns ctx t op v p
  | eval e p =>
    unfold stmt
    exact returns_bind fun _ => returns_pure
  | ret v p =>
    unfold stmt
    dsimp only
    split
    · cases v with
      | some v => exact returns_guard _ _ _ fun _ => returns_bind fun _ =>
          returns_guard _ _ _ fun _ => returns_pure
      | none => exact returns_guard _ _ _ fun _ => returns_pure
    · exact returns_guard _ _ _ fun _ => returns_pure
  | fail m p => exact returns_pure

theorem steady_senderCheck (p : Pos) :
    Steady (modify fun c : Checker => { c with senderChecks := c.senderChecks ++ [p] }) :=
  steady_modify fun _ => ⟨rfl, Nat.le_refl _, id, id, rfl, fun _ _ => rfl, rfl, fun _ _ hi => .inl hi⟩

mutual

theorem steady_stmt (ctx : Ctx) : ∀ s, Steady (stmt ctx s)
  | .require cnd m p => by
    unfold stmt
    dsimp only
    split
    · exact steady_guard _ _ _ fun _ => steady_bind (steady_expr _ _) fun _ =>
        steady_guard _ _ _ fun _ => steady_bind (steady_senderCheck p) fun _ => steady_pure _
    · exact steady_bind (steady_expectClass _ _ _ _) fun _ => steady_pure _
  | .send r a (some m) p => by
    unfold stmt
    exact steady_guard _ _ _ fun _ => steady_bind (steady_expectClass _ _ _ _) fun _ =>
      steady_bind (steady_expectClass _ _ _ _) fun _ => steady_bind (steady_expr _ _) fun _ =>
        steady_pure _
  | .send r a none p => by
    unfold stmt
    exact steady_guard _ _ _ fun _ => steady_bind (steady_expectClass _ _ _ _) fun _ =>
      steady_bind (steady_expectClass _ _ _ _) fun _ => steady_pure _
  | .emit ev args p => by
    unfold stmt
    dsimp only
    refine steady_guard _ _ _ fun _ => steady_bind (steady_eventOf? _) fun l => ?_
    split
    · exact steady_guard _ _ _ fun _ => steady_bind (steady_paramArgs _ _ _ _) fun _ =>
        steady_pure _
    · exact steady_bind (steady_fault _ _) fun _ => steady_bind (steady_exprs _ _) fun _ =>
        steady_pure _
  | .branch cnd yes (some no) p => by
    unfold stmt
    exact steady_bind (steady_expectClass _ _ _ _) fun _ => steady_bind (steady_stmts _ yes)
      fun _ => steady_bind (steady_stmts _ no) fun _ => steady_pure _
  | .branch cnd yes none p => by
    unfold stmt
    exact steady_bind (steady_expectClass _ _ _ _) fun _ => steady_bind (steady_stmts _ yes)
      fun _ => steady_pure _
  | .assign t op v p d => by
    unfold stmt
    exact steady_assign _ _ _ _ _ _
  | .eval e p => by
    unfold stmt
    exact steady_bind (steady_statementCall _ _ _) fun _ => steady_pure _
  | .ret (some v) p => by
    unfold stmt
    dsimp only
    split
    · exact steady_guard _ _ _ fun _ => steady_bind (steady_expr _ _) fun _ =>
        steady_guard _ _ _ fun _ => steady_pure _
    · exact steady_guard _ _ _ fun _ => steady_pure _
  | .ret none p => by
    unfold stmt
    dsimp only
    split
    · exact steady_guard _ _ _ fun _ => steady_pure _
    · exact steady_guard _ _ _ fun _ => steady_pure _
  | .fail m p => steady_pure _

theorem steady_stmts (ctx : Ctx) : ∀ ss, Steady (stmts ctx ss)
  | [] => steady_pure _
  | s :: rest => by
    unfold stmts
    refine steady_bind (steady_stmt ctx s) fun ctx' => ?_
    cases s.ends
    · exact steady_stmts ctx' rest
    · cases rest with
      | nil => exact steady_pure _
      | cons r tail => exact steady_fault _ _

end

mutual

theorem stmt_resolves (hG : GlobalKinds G) : ∀ (ctx : Ctx) (s : Stmt) (c : Checker) (am : Bool),
    c.globals.symbols = G → s.declaresSimply = true → CleanAt am (stmt ctx s) c →
    ∀ rest, Block.Resolves G ((((stmt ctx s).run c).1).keys G am) rest →
      Block.Resolves G (ctx.keys G am) (s :: rest)
  | ctx, .require cnd m p, c, am, hc, _, h, rest, hrest => by
    rw [stmt_returns ctx (.require cnd m p) (fun _ _ _ _ _ => nofun) c] at hrest
    unfold stmt at h
    dsimp only at h
    split at h
    · -- `require(msg.sender == t)` compares the sender with an address
      rename_i t ht
      have h1 := CleanAt.guard (fun _ => steady_bind (steady_expr _ _) fun _ =>
        steady_guard _ _ _ fun _ => steady_bind (steady_senderCheck p) fun _ => steady_pure _) h
      have h2 := (CleanAt.bind (steady_expr _ _) (fun _ => steady_guard _ _ _ fun _ =>
        steady_bind (steady_senderCheck p) fun _ => steady_pure _) h1).1
      exact .sender ht (expr_resolves_at hG hc h2) hrest
    · rename_i ht
      have h1 := (CleanAt.bind (steady_expectClass _ _ _ _) (fun _ => steady_pure _) h).1
      exact .require ht (expectClass_resolves hG hc h1) hrest
  | ctx, .send r a (some x) p, c, am, hc, _, h, rest, hrest => by
    rw [stmt_returns ctx (.send r a (some x) p) (fun _ _ _ _ _ => nofun) c] at hrest
    unfold stmt at h
    have h1 := CleanAt.guard (fun _ => steady_bind (steady_expectClass _ _ _ _) fun _ =>
      steady_bind (steady_expectClass _ _ _ _) fun _ => steady_bind (steady_expr _ _) fun _ =>
        steady_pure _) h
    obtain ⟨hr, h2, k2⟩ := CleanAt.bind (steady_expectClass _ _ _ _) (fun _ =>
      steady_bind (steady_expectClass _ _ _ _) fun _ => steady_bind (steady_expr _ _) fun _ =>
        steady_pure _) h1
    obtain ⟨ha, h3, k3⟩ := CleanAt.bind (steady_expectClass _ _ _ _) (fun _ =>
      steady_bind (steady_expr _ _) fun _ => steady_pure _) h2
    have hx := (CleanAt.bind (steady_expr _ _) (fun _ => steady_pure _) h3).1
    have hc2 := k2.symbols hc
    refine .send (expectClass_resolves hG hc hr) (expectClass_resolves hG hc2 ha)
      (fun y hy => ?_) hrest
    rw [Option.mem_some_iff] at hy
    subst hy
    exact expr_resolves_at hG (k3.symbols hc2) hx
  | ctx, .send r a none p, c, am, hc, _, h, rest, hrest => by
    rw [stmt_returns ctx (.send r a none p) (fun _ _ _ _ _ => nofun) c] at hrest
    unfold stmt at h
    have h1 := CleanAt.guard (fun _ => steady_bind (steady_expectClass _ _ _ _) fun _ =>
      steady_bind (steady_expectClass _ _ _ _) fun _ => steady_pure _) h
    obtain ⟨hr, h2, k2⟩ := CleanAt.bind (steady_expectClass _ _ _ _) (fun _ =>
      steady_bind (steady_expectClass _ _ _ _) fun _ => steady_pure _) h1
    have ha := (CleanAt.bind (steady_expectClass _ _ _ _) (fun _ => steady_pure _) h2).1
    exact .send (expectClass_resolves hG hc hr) (expectClass_resolves hG (k2.symbols hc) ha)
      (fun _ hy => by cases hy) hrest
  | ctx, .emit ev args p, c, am, hc, _, h, rest, hrest => by
    rw [stmt_returns ctx (.emit ev args p) (fun _ _ _ _ _ => nofun) c] at hrest
    unfold stmt at h
    dsimp only at h
    have hevent : ∀ l : Option EventDecl, Steady (match l with
        | some e =>
          if (e.params.length != args.length) = true then do
            fault ("event " ++ ev ++ " takes " ++ toString e.params.length ++
              " argument(s), got " ++ toString args.length) p
            paramArgs ctx ev e.params args
            pure ctx
          else do
            paramArgs ctx ev e.params args
            pure ctx
        | none => do
          fault ("undeclared event " ++ ev) p
          exprs ctx args
          pure ctx) := fun l => by
      split
      · exact steady_guard _ _ _ fun _ => steady_bind (steady_paramArgs _ _ _ _) fun _ =>
          steady_pure _
      · exact steady_bind (steady_fault _ _) fun _ => steady_bind (steady_exprs _ _) fun _ =>
          steady_pure _
    have h1 := CleanAt.guard (fun _ => steady_bind (steady_eventOf? _) hevent) h
    obtain ⟨-, h2, k2⟩ := CleanAt.bind (steady_eventOf? _) hevent h1
    split at h2
    · -- a declared event: its arguments are checked against its parameters
      have h3 := CleanAt.guard (fun _ => steady_bind (steady_paramArgs _ _ _ _) fun _ =>
        steady_pure _) h2
      have h4 := (CleanAt.bind (steady_paramArgs _ _ _ _) (fun _ => steady_pure _) h3).1
      exact .emit (fun a hmem => (paramArgs_resolves hG _ _ args _ (k2.symbols hc) h4.1 a
        hmem).mono (Ctx.keys_mono h4.2)) hrest
    · exact absurd h2.1 (not_clean_fault_bind fun _ => steady_bind (steady_exprs _ _) fun _ =>
        steady_pure _)
  | ctx, .branch cnd yes (some no) p, c, am, hc, hd, h, rest, hrest => by
    rw [stmt_returns ctx (.branch cnd yes (some no) p) (fun _ _ _ _ _ => nofun) c] at hrest
    simp only [Stmt.declaresSimply, Stmt.optionDeclaresSimply, Bool.and_eq_true] at hd
    unfold stmt at h
    obtain ⟨hcnd, h1, k1⟩ := CleanAt.bind (steady_expectClass _ _ _ _) (fun _ =>
      steady_bind (steady_stmts _ _) fun _ => steady_bind (steady_stmts _ _) fun _ =>
        steady_pure _) h
    obtain ⟨hyes, h2, k2⟩ := CleanAt.bind (steady_stmts _ _) (fun _ =>
      steady_bind (steady_stmts _ _) fun _ => steady_pure _) h1
    have hno := (CleanAt.bind (steady_stmts _ _) (fun _ => steady_pure _) h2).1
    have ryes := stmts_resolves hG ctx.inner yes _ am (k1.symbols hc) hd.1 hyes
    have rno := stmts_resolves hG ctx.inner no _ am (k2.symbols (k1.symbols hc)) hd.2 hno
    rw [Ctx.keys_inner] at ryes rno
    exact .branch (expectClass_resolves hG hc hcnd) ryes rno hrest
  | ctx, .branch cnd yes none p, c, am, hc, hd, h, rest, hrest => by
    rw [stmt_returns ctx (.branch cnd yes none p) (fun _ _ _ _ _ => nofun) c] at hrest
    simp only [Stmt.declaresSimply, Stmt.optionDeclaresSimply, Bool.and_true] at hd
    unfold stmt at h
    obtain ⟨hcnd, h1, k1⟩ := CleanAt.bind (steady_expectClass _ _ _ _) (fun _ =>
      steady_bind (steady_stmts _ _) fun _ => steady_pure _) h
    have hyes := (CleanAt.bind (steady_stmts _ _) (fun _ => steady_pure _) h1).1
    have ryes := stmts_resolves hG ctx.inner yes _ am (k1.symbols hc) hd hyes
    rw [Ctx.keys_inner] at ryes
    exact .branch (expectClass_resolves hG hc hcnd) ryes .nil hrest
  | ctx, .assign t op v p d, c, am, hc, hd, h, rest, hrest => by
    unfold stmt at h hrest
    exact assign_resolves hG hc hd h hrest
  | ctx, .eval e p, c, am, hc, _, h, rest, hrest => by
    rw [stmt_returns ctx (.eval e p) (fun _ _ _ _ _ => nofun) c] at hrest
    unfold stmt at h
    exact statementCall_resolves hG hc
      (CleanAt.bind (steady_statementCall _ _ _) (fun _ => steady_pure _) h).1 hrest
  | ctx, .ret (some v) p, c, am, hc, _, h, rest, hrest => by
    rw [stmt_returns ctx (.ret (some v) p) (fun _ _ _ _ _ => nofun) c] at hrest
    unfold stmt at h
    dsimp only at h
    split at h
    · -- a function returns its value
      have h1 := CleanAt.guard (fun _ => steady_bind (steady_expr _ _) fun _ =>
        steady_guard _ _ _ fun _ => steady_pure _) h
      have hv := (CleanAt.bind (steady_expr _ _) (fun _ =>
        steady_guard _ _ _ fun _ => steady_pure _) h1).1
      refine .ret (fun y hy => ?_) hrest
      rw [Option.mem_some_iff] at hy
      subst hy
      exact expr_resolves_at hG hc hv
    · -- an action cannot return a value
      exact absurd (Clean.guard (fun _ => steady_pure _) h.1) (by simp)
  | ctx, .ret none p, c, am, hc, _, _, rest, hrest => by
    rw [stmt_returns ctx (.ret none p) (fun _ _ _ _ _ => nofun) c] at hrest
    exact .ret (fun _ hy => by cases hy) hrest
  | ctx, .fail m p, c, am, hc, _, _, rest, hrest => by
    rw [stmt_returns ctx (.fail m p) (fun _ _ _ _ _ => nofun) c] at hrest
    exact .fail hrest

/-- A clean check of a block shows that its names resolve, each statement in the keys the
statements before it leave. -/
theorem stmts_resolves (hG : GlobalKinds G) : ∀ (ctx : Ctx) (ss : List Stmt) (c : Checker)
    (am : Bool), c.globals.symbols = G → Stmt.blockDeclaresSimply ss = true →
    CleanAt am (stmts ctx ss) c → Block.Resolves G (ctx.keys G am) ss
  | _, [], _, _, _, _, _ => .nil
  | ctx, s :: rest, c, am, hc, hd, h => by
    simp only [Stmt.blockDeclaresSimply, Bool.and_eq_true] at hd
    unfold stmts at h
    obtain ⟨hs, h1, k1⟩ := CleanAt.bind (steady_stmt ctx s) (fun ctx' => by
      cases s.ends
      · exact steady_stmts ctx' rest
      · cases rest with
        | nil => exact steady_pure _
        | cons r tail => exact steady_fault _ _) h
    refine stmt_resolves hG ctx s c am hc hd.1 hs rest ?_
    -- nothing follows a statement that ends its block, so the rest is checked after it
    cases hend : s.ends
    · rw [hend] at h1
      exact stmts_resolves hG _ rest _ am (k1.symbols hc) hd.2 h1
    · cases rest with
      | nil => exact .nil
      | cons r tail =>
        rw [hend] at h1
        exact absurd h1.1 not_clean_fault

end

end Check

end Script

end PuzzleKit
