import PuzzleKit.Proofs.Generated
import PuzzleKit.Proofs.SelfHash
import PuzzleKit.Proofs.Statements.Function

/-!
# A coin the check accepts is ready for code generation

Code generation needs of a checked coin what `Analysis.Ready` lists. Each part of it is
something a step of the check refuses with a fault: a repeated parameter or a clash of their
generated names (`declareParams_clean`), an address of `@onlyAddress` that names nothing
(`access_resolves`), a name in a body that resolves nowhere (`stmts_resolves`), and an include
file that may not be used. A check that ends with no fault took none of those steps, so every
coin it accepts is ready (`analyze_ready`), and each of its storage variables holds an initial
value its type admits (`analyze_storageInits`).

The facts are gathered in one invariant of the check after the declarations (`Shown`): every
action recorded has what a clean check of it shows, so has every function checked so far, the
library calls name known files and every include file may be used.
-/

namespace PuzzleKit.Script

open Build Build.Puzzle

/-- The names of the state fields among the coin's names. -/
def stateNames (G : List Symbol) : List String := (G.filter (·.kind == .state)).map (·.name)

theorem ActionInfo.keys_mono (info : ActionInfo) {fs fs' : List String} (h : fs ⊆ fs') :
    info.keys fs ⊆ info.keys fs' := by
  intro k hk
  simp only [ActionInfo.keys, List.mem_append] at hk ⊢
  rcases hk with hk | hk | hk
  · exact .inl hk
  · exact .inr (.inl hk)
  · refine .inr (.inr ?_)
    split at hk
    · rw [if_pos ‹_›]
      obtain ⟨f, hf, rfl⟩ := List.mem_map.mp hk
      exact List.mem_map.mpr ⟨f, h hf, rfl⟩
    · exact absurd hk List.not_mem_nil

/-- What a clean check of an initial value shows: it is a literal whose class the variable's
type admits. -/
def VarDecl.InitChecked (codec : AddressCodec) (v : VarDecl) : Prop :=
  ∀ e, v.init = some e → ∃ l p, e = .lit l p ∧
    compatible (classOf (some v.type.text)) (Check.literalClass codec l) = true

/-- Every storage variable among the names `G` is declared from its declaration, with the type
written there and an initial value that declaration admits. -/
def StorageInits (codec : AddressCodec) (G : List Symbol) : Prop :=
  ∀ s ∈ G, s.kind = .storage → ∃ v, s.origin = .var v ∧ s.type = .written v.type ∧ v.InitChecked codec

/-- What a clean check of an action shows among the coin's names `G`: its parameters have
distinct generated names, its addresses resolve with no key bound, and its body, when it
declares only simple names, resolves in the keys its spend binds. -/
structure ActionChecked (G : List Symbol) (i : ActionInfo) : Prop where
  vmNames : (i.action.params.map fun p => vmSafe (snakeCase p.name)).Nodup
  access : GlobalKinds G → ∀ e ∈ i.access, e.Resolves G []
  body : GlobalKinds G → Stmt.blockDeclaresSimply i.action.body = true →
    Block.Resolves G (i.keys (stateNames G)) i.action.body

/-- What a clean check of a function shows among the coin's names `G`: its body, when it
declares only simple names, resolves in its parameters. -/
def FunctionChecked (G : List Symbol) (f : FunctionDecl) : Prop :=
  GlobalKinds G → Stmt.blockDeclaresSimply f.body = true →
    Block.Resolves G (f.params.map (·.name)) f.body

namespace Check

variable {α β γ : Type}

/-! ### Steps over runs that add no fault, with a state of their own -/

theorem ensures_forIn_state (I : List γ → β → Checker → Prop)
    {body : γ → β → CheckM (ForInStep β)}
    (h : ∀ pre x b, Ensures (I pre b) (fun r c => ∃ b', r = .yield b' ∧ I (pre ++ [x]) b' c)
      (body x b)) :
    ∀ (xs pre : List γ) (b : β), Ensures (I pre b) (fun r c => I (pre ++ xs) r c) (forIn xs b body)
  | [], pre, b => (ensures_pure b).mono fun r c hc => by rw [hc.1, List.append_nil]; exact hc.2
  | x :: xs, pre, b => by
    rw [List.forIn_cons]
    refine ensures_bind (h pre x b) fun r => ?_
    cases r with
    | done b' => exact ensures_of_grows (grows_pure _) fun _ ⟨_, hr, _⟩ _ => by cases hr
    | yield b' =>
      refine ((ensures_forIn_state I h xs (pre ++ [x]) b').pre fun c ⟨b'', hr, hc⟩ => ?_).mono
        fun _ _ hc => by simpa using hc
      cases hr
      exact hc

theorem ensures_unless {P : Checker → Prop} {Q : β → Checker → Prop} (b : Bool) (text : String)
    (pos : Pos) {K : Unit → CheckM β} (hK : ∀ u, Grows (K u)) (h : b = false → Ensures P Q (K ())) :
    Ensures P Q (if b = true then fault text pos >>= K else K ()) := by
  split
  · exact ensures_fault_bind hK
  · exact h (by simpa using ‹¬b = true›)

/-! ### Parameters -/

theorem setKey_of_lookup_none {kvs : List (String × α)} {k : String} (v : α)
    (h : kvs.lookup k = none) : setKey kvs k v = kvs ++ [(k, v)] := by
  have hany : kvs.any (·.1 == k) = false := by
    refine List.any_eq_false.mpr fun kv hkv hk => ?_
    have hne := List.lookup_eq_none_iff.mp h kv hkv
    rw [beq_iff_eq] at hk
    rw [hk] at hne
    simp at hne
  rw [setKey, hany]
  rfl

theorem declareParams_ensures {P : Checker → Prop} (scope : String) (ps : List Param) :
    Ensures P (fun frame c => P c ∧ frame.symbols = ps.map (paramSymbol scope) ∧
      (ps.map fun p => vmSafe (snakeCase p.name)).Nodup) (declareParams scope ps) := by
  unfold declareParams
  -- the first loop declares each parameter under a name not seen before
  refine ensures_bind ((ensures_forIn_state (fun pre (fs : Frame × List String) c => P c ∧
      fs.2 = pre.map (·.name) ∧ (pre.map (·.name)).Nodup ∧ fs.1.symbols = pre.map (paramSymbol scope))
      (fun pre p fs => ?_) ps [] ({ name := scope }, [])).pre fun c hc => ⟨hc, rfl, List.nodup_nil, rfl⟩)
    fun fs => ?_
  · obtain ⟨frame, seen⟩ := fs
    dsimp only
    refine ensures_unless _ _ _ (fun _ =>
      (steady_guard _ _ _ fun _ => steady_pure _).grows) fun hnew => ensures_guard _ _ _ ?_
    refine ensures_of_grows (grows_pure _) fun c hpre _ => ?_
    obtain ⟨hc, hseen, hnd, hsyms⟩ := hpre
    refine ⟨_, rfl, hc, ?_, ?_, ?_⟩
    · rw [hseen, List.map_append, List.map_singleton]
    -- a clean round finds the name new: neither seen nor declared in the scope
    · have hp : p.name ∉ pre.map (·.name) := by simpa [← hseen] using hnew
      rw [List.map_append, List.map_singleton, ← List.concat_eq_append]
      exact hnd.concat hp
    · have hnames : frame.symbols.map (·.name) = seen := by
        rw [hsyms, hseen, List.map_map]
        rfl
      have hfind : frame.find? (paramSymbol scope p).name = none :=
        Frame.find?_eq_none_iff.mpr (by rw [hnames]; exact (by simpa using hnew : p.name ∉ seen))
      exact (Frame.define_of_find?_eq_none hfind).trans (by rw [hsyms, List.map_append, List.map_singleton])
  dsimp only
  refine ensures_bind ((ensures_forIn_state (fun pre (vms : List (String × String)) c => P c ∧
      fs.1.symbols = ps.map (paramSymbol scope) ∧ vms.map (·.1) = pre.map (·.vmName) ∧
      (pre.map (·.vmName)).Nodup) (fun pre s vms => ?_) fs.1.symbols [] []).pre
      fun c hc => ⟨hc.1, by simpa using hc.2.2.2, rfl, List.nodup_nil⟩) fun _ => ?_
  · split
    · exact ensures_fault_bind fun _ => grows_pure _
    · rename_i hl
      refine ensures_of_grows (grows_pure _) fun c hpre _ => ?_
      obtain ⟨hc, hsyms, hkeys, hnd⟩ := hpre
      refine ⟨_, rfl, hc, hsyms, ?_, ?_⟩
      · rw [setKey_of_lookup_none _ hl]
        simp [hkeys]
      · have hs : s.vmName ∉ pre.map (·.vmName) := by
          rw [← hkeys]
          intro hmem
          obtain ⟨kv, hkv, hk⟩ := List.mem_map.mp hmem
          have hne := List.lookup_eq_none_iff.mp hl kv hkv
          rw [hk] at hne
          simp at hne
        rw [List.map_append, List.map_singleton, ← List.concat_eq_append]
        exact hnd.concat hs
  refine (ensures_pure fs.1).mono fun frame c hpost => ?_
  obtain ⟨hframe, hc, hsyms, _, hnd⟩ := hpost
  simp only [List.nil_append, hsyms, List.map_map, Function.comp_def, paramSymbol] at hnd
  rw [hframe]
  exact ⟨hc, hsyms, hnd⟩

/-! ### Addresses and functions -/

variable {G : List Symbol}

theorem access_ensures (hG : GlobalKinds G) (d : Decorator) :
    Ensures (fun c => c.globals.symbols = G)
      (fun r c => c.globals.symbols = G ∧ ∀ e ∈ r, e.Resolves G []) (access d) := by
  unfold access
  refine ensures_guard _ _ _ ?_
  -- the invariant of the loop is read off the coin's names alone, which no step changes
  have hI : ∀ pre : List Expr, Settled fun c => c.globals.symbols = G ∧ ∀ e ∈ pre, e.Resolves G [] :=
    fun _ c c' hg _ hc => by
      show c'.globals.symbols = G ∧ _
      rw [hg]
      exact hc
  refine ensures_bind ((ensures_forIn (fun pre c => c.globals.symbols = G ∧ ∀ e ∈ pre, e.Resolves G [])
    (fun pre arg => ?_) d.args []).pre fun c hc => ⟨hc, fun _ h => absurd h List.not_mem_nil⟩)
    fun _ => (ensures_pure _).mono fun r c ⟨hr, hc, hall⟩ => ⟨hc, by rw [hr]; simpa using hall⟩
  refine ensures_bind (ensures_of_steady (steady_expr {} arg)
    (Q := fun _ c => c.globals.symbols = G ∧ ∀ e ∈ pre ++ [arg], e.Resolves G [])
    fun c ⟨hc, hpre⟩ hclean => ⟨((steady_expr {} arg) c).symbols hc, fun e he => ?_⟩) fun ty => ?_
  · rcases List.mem_append.mp he with he | he
    · exact hpre e he
    · -- outside every scope no key is bound
      rw [List.mem_singleton.mp he]
      simpa [Ctx.keys] using expr_resolves hG arg c hc hclean
  · split
    · refine ensures_bind ((steady_global? _).ensures_settled (hI _)) fun s => ?_
      split <;> exact ensures_bind ((ensures_pure _).mono fun _ _ h => h.2) fun ok =>
        ensures_guard _ _ _ (ensures_pure _)
    all_goals exact ensures_bind ((ensures_pure _).mono fun _ _ h => h.2) fun ok =>
      ensures_guard _ _ _ (ensures_pure _)

theorem function_ensures_checked (f : FunctionDecl) (c₀ : Checker) :
    Ensures (· = c₀) (fun _ _ => FunctionChecked c₀.globals.symbols f) (function f) := by
  unfold function
  refine ensures_bind (declareParams_ensures _ _) fun frame => ?_
  refine ensures_bind (ensures_of_grows (fun _ => Nat.le_refl _)
    (Q := fun _ c => c.globals = c₀.globals ∧ frame.symbols = f.params.map (paramSymbol _))
    fun c ⟨hc, hsyms, _⟩ _ => ⟨by subst hc; rfl, hsyms⟩) fun _ => ?_
  refine ensures_bind (ensures_of_grows (steady_stmts _ _).grows
    (Q := fun _ _ => FunctionChecked c₀.globals.symbols f) fun c ⟨hc, hsyms⟩ hclean => ?_) fun _ => ?_
  · -- the body is checked in the scope of the parameters alone
    intro hG hd
    rw [← hc] at hG ⊢
    have hres := stmts_resolves hG _ f.body c _ rfl hd ⟨hclean, id⟩
    rw [Ctx.keys_inner] at hres
    refine hres.mono fun k hk => ?_
    simpa [Ctx.keys, hsyms, List.map_map, paramSymbol] using hk
  · refine ensures_of_grows (fun c => ?_) fun _ h _ => h
    split
    · exact (steady_fault _ _ c).faults
    · exact Nat.le_refl _

/-! ### What the check shows after the declarations -/

/-- What the check has shown after the declarations, with the functions `fs` checked: the
storage variables keep the initial values their types admit, every action recorded but those
named `n` has what a clean check of it shows, so has every function of `fs`, the library calls
name known files and every include file recorded may be used. -/
structure Shown (codec : AddressCodec) (fs : List FunctionDecl) (n : Option String) (c : Checker) :
    Prop where
  storage : StorageInits codec c.globals.symbols
  actions : ∀ i ∈ c.actions, some i.action.name ≠ n → ActionChecked c.globals.symbols i
  functions : ∀ f ∈ fs, FunctionChecked c.globals.symbols f
  library : ∀ l ∈ c.libraryCalls, isKnownInclude l.2.2 = true
  includes : ∀ i ∈ c.includes, includeAllowed i = true

variable {codec : AddressCodec} {fs : List FunctionDecl} {n : Option String} {c c' : Checker}

/-- A step that keeps what a body check keeps and adds no fault keeps what the check has
shown: an include file added with no fault may be used. -/
theorem Shown.keep (hs : Shown codec fs n c) (h : Keeps c c')
    (hclean : c'.faults.length = c.faults.length) : Shown codec fs n c' := by
  have hg : c'.globals.symbols = c.globals.symbols := by rw [h.globals]
  refine ⟨hg ▸ hs.storage, fun i hi hn => hg ▸ hs.actions i (h.actions ▸ hi) hn,
    fun f hf => hg ▸ hs.functions f hf, h.library hs.library, fun i hi => ?_⟩
  rcases h.includes hs.library i hi with hi | hok | hlt
  · exact hs.includes i hi
  · exact hok
  · omega

theorem Steady.ensures_shown {x : CheckM α} (h : Steady x) :
    Ensures (Shown codec fs n) (fun _ => Shown codec fs n) x :=
  ⟨h.grows, fun c hs hclean => hs.keep (h c) hclean⟩

/-- Recording an action keeps what was shown of the others; the one recorded has what its
check shows unless it is left out. -/
theorem Shown.putAction {n' : Option String} {info : ActionInfo} (hs : Shown codec fs n c)
    (hn : ∀ i ∈ c.actions, i.action.name ≠ info.action.name → some i.action.name ≠ n' →
      some i.action.name ≠ n)
    (hinfo : some info.action.name ≠ n' → ActionChecked c.globals.symbols info) :
    Shown codec fs n' ((putAction info).run c).2 := by
  rw [putAction_run]
  refine ⟨hs.storage, fun i hi hn' => ?_, hs.functions, hs.library, hs.includes⟩
  rcases mem_putAction (c := c) (by rw [putAction_run]; exact hi) with rfl | ⟨hi, hne⟩
  · exact hinfo hn'
  · exact hs.actions i hi (hn i hi hne hn')

theorem action_keys_subset {frame : Frame} {scope : String} {info : ActionInfo}
    (hsyms : frame.symbols = info.action.params.map (paramSymbol scope)) (G : List Symbol)
    (am : Bool) :
    ({ frames := [frame], inAction := true, stateful := info.stateful } : Ctx).inner.keys G am ⊆
      ({ info with usesAmount := am } : ActionInfo).keys (stateNames G) := by
  intro k hk
  rw [Ctx.keys_inner] at hk
  simp only [Ctx.keys, List.flatMap_cons, List.flatMap_nil, List.append_nil, hsyms, List.map_map,
    Bool.true_and, Option.isNone_none, Bool.and_true, List.mem_append] at hk
  simp only [ActionInfo.keys, stateNames, List.map_map, List.mem_append]
  rcases hk with hk | hk | hk
  · exact .inl (by simpa [paramSymbol] using hk)
  · refine .inr (.inl ?_)
    cases am <;> simp_all
  · refine .inr (.inr ?_)
    cases hst : info.stateful <;> simp_all

/-- What a clean check of an action's parameters gives: their scope, in order, and their
distinct generated names. -/
def ParamsChecked (a : Action) (frame : Frame) : Prop :=
  frame.symbols = a.params.map (paramSymbol ("action " ++ a.name)) ∧
    (a.params.map fun p => vmSafe (snakeCase p.name)).Nodup

/-- What the check of an action has shown while its decorators are read: what was shown before
with the action left out, its parameters, and addresses that resolve. -/
def DecoratorsChecked (codec : AddressCodec) (fs : List FunctionDecl) (a : Action) (frame : Frame)
    (info : ActionInfo) (c : Checker) : Prop :=
  (Shown codec fs (some a.name) c ∧ ParamsChecked a frame) ∧ info.action = a ∧
    (GlobalKinds c.globals.symbols → ∀ e ∈ info.access, e.Resolves c.globals.symbols [])

theorem action_ensures_shown (a : Action) :
    Ensures (Shown codec fs none) (fun _ => Shown codec fs none) (action a) := by
  unfold action
  refine ensures_bind (declareParams_ensures (P := Shown codec fs none) _ _) fun frame => ?_
  dsimp only
  refine ensures_bind (ensures_of_grows (fun c => (quietly_putAction _ c).faults)
    (Q := fun _ c => Shown codec fs (some a.name) c ∧ ParamsChecked a frame)
    fun c ⟨hs, hp⟩ _ => ⟨hs.putAction (fun _ _ _ _ => by simp) (fun h => absurd rfl h), hp⟩)
    fun _ => ?_
  refine ensures_bind ((ensures_get).mono fun _ _ h => h.2) fun c₀ => ?_
  -- the decorators change only the access rule and whether the action is stateful
  refine ensures_bind ((ensures_forIn_state (fun _ info c => DecoratorsChecked codec fs a frame info c)
      (fun _ d info => ?_) a.decorators [] _).pre fun c hc => ⟨hc, rfl, fun _ e he => by simp at he⟩)
    fun info => ?_
  · split
    · refine ensures_guard _ _ _ (ensures_guard _ _ _ ?_)
      exact (ensures_pure _).mono fun r c ⟨hr, hc, hact, hacc⟩ => ⟨_, hr, hc, hact, hacc⟩
    · split
      · refine ensures_bind (ensures_of_steady (steady_access d)
          (Q := fun r c => DecoratorsChecked codec fs a frame { info with access := r } c)
          fun c ⟨⟨hs, hf⟩, hact, _⟩ hclean => ⟨⟨hs.keep (steady_access d c) hclean, hf⟩, hact,
            fun hG => ((access_ensures hG d).2 c (by rw [(steady_access d c).globals]) hclean).2⟩)
          fun r => (ensures_pure _).mono fun _ c ⟨hr, hc⟩ => ⟨_, hr, hc⟩
      · split
        · exact ensures_fault_bind fun _ => grows_pure _
        · exact ensures_fault_bind fun _ => grows_pure _
  refine ensures_bind (ensures_of_grows (fun c => (quietly_clearAmount c).faults)
    (Q := fun _ c => DecoratorsChecked codec fs a frame info c)
    fun c ⟨⟨hs, hp⟩, hact, hacc⟩ _ =>
      ⟨⟨⟨hs.storage, hs.actions, hs.functions, hs.library, hs.includes⟩, hp⟩, hact, hacc⟩) fun _ => ?_
  refine ensures_bind (ensures_of_grows (steady_stmts _ _).grows
    (Q := fun _ c => Shown codec fs (some a.name) c ∧ info.action = a ∧
      ActionChecked c.globals.symbols { info with usesAmount := c.amountUsed })
    fun c ⟨⟨hs, hsyms, hnd⟩, hact, hacc⟩ hclean => ?_) fun _ => ?_
  · have k := steady_stmts ({ frames := [frame], inAction := true, stateful := info.stateful } : Ctx).inner
      a.body c
    have hg : ((block { frames := [frame], inAction := true, stateful := info.stateful } a.body).run
        c).2.globals.symbols = c.globals.symbols := k.symbols rfl
    refine ⟨hs.keep k hclean, hact, hact ▸ hnd, fun hG => ?_, fun hG hd => ?_⟩
    · rw [hg] at hG ⊢
      exact hacc hG
    · rw [hg] at hG ⊢
      rw [← hact] at hsyms
      have hres := stmts_resolves hG _ a.body c _ rfl (hact ▸ hd) ⟨hclean, id⟩
      exact hact ▸ (hres.mono (action_keys_subset hsyms _ _))
  refine ensures_bind ((ensures_get).mono fun _ _ h => h) fun c₁ => ?_
  refine ensures_of_grows (fun c => (quietly_putAction _ c).faults) fun c ⟨rfl, hs, hact, hchk⟩ _ => ?_
  exact hs.putAction (fun i _ hne _ => by simpa [hact] using hne) fun _ => hchk

theorem function_ensures_shown (f : FunctionDecl) :
    Ensures (Shown codec fs n) (fun _ => Shown codec (fs ++ [f]) n) (function f) := by
  refine ⟨fun c => (function_ensures_checked f c).1 c, fun c hs hclean => ?_⟩
  obtain ⟨c₁, h₁, h₂⟩ := function_run f c
  have hf₁ := h₁.faults
  have hf₂ := h₂.faults
  have hs₁ : Shown codec fs n c₁ := hs.keep h₁ (by dsimp only at hf₂; unfold Clean at hclean; omega)
  have hs₂ : Shown codec fs n { c₁ with functions := (setKey c₁.functions f.name
      ((declareParams ("function " ++ f.name) f.params).run c).1.symbols) } :=
    ⟨hs₁.storage, hs₁.actions, hs₁.functions, hs₁.library, hs₁.includes⟩
  have hs' : Shown codec fs n ((function f).run c).2 :=
    hs₂.keep h₂ (by dsimp only at hf₂ ⊢; unfold Clean at hclean; omega)
  have hg : ((function f).run c).2.globals.symbols = c.globals.symbols := by
    rw [h₂.globals, h₁.globals]
  refine ⟨hs'.storage, hs'.actions, fun g hg' => ?_, hs'.library, hs'.includes⟩
  rcases List.mem_append.mp hg' with hg' | hg'
  · exact hs'.functions g hg'
  · rw [List.mem_singleton.mp hg', hg]
    exact (function_ensures_checked f c).2 c rfl hclean

/-! ### The declarations -/

/-- What the check has shown before anything but the declarations: no action, library call or
include file recorded yet, and the storage variables declared so far with the initial values
their types admit. -/
def Bare (codec : AddressCodec) (c : Checker) : Prop :=
  c.codec = codec ∧ c.actions = [] ∧ c.libraryCalls = [] ∧ c.includes = [] ∧
    StorageInits codec c.globals.symbols

theorem Bare.shown (h : Bare codec c) : Shown codec [] none c := by
  obtain ⟨-, hact, hlib, hinc, hst⟩ := h
  refine ⟨hst, fun i hi => ?_, fun f hf => ?_, fun l hl => ?_, fun i hi => ?_⟩ <;>
    simp_all

/-- Declaring a new name keeps what was shown, when a storage variable comes with an initial
value its type admits. -/
theorem Bare.define {s : Symbol} (h : Bare codec c) (hnew : c.globals.find? s.name = none)
    (hs : s.kind = .storage → ∃ v, s.origin = .var v ∧ s.type = .written v.type ∧ v.InitChecked codec) :
    Bare codec { c with globals := c.globals.define s } := by
  obtain ⟨hcodec, hact, hlib, hinc, hst⟩ := h
  refine ⟨hcodec, hact, hlib, hinc, fun t ht hk => ?_⟩
  rw [Frame.define_of_find?_eq_none hnew, List.mem_append, List.mem_singleton] at ht
  rcases ht with ht | rfl
  · exact hst t ht hk
  · exact hs hk

theorem initializer_checked {v : VarDecl} {c : Checker} (h : Clean (initializer v) c) :
    v.InitChecked c.codec := by
  intro e he
  unfold Clean initializer at h
  simp only [he] at h
  cases e with
  | lit l p =>
    refine ⟨l, p, rfl, ?_⟩
    change ((if (!compatible (classOf (some v.type.text)) (literalClass c.codec l)) = true then _
      else pure () : CheckM Unit).run c).2.faults.length = c.faults.length at h
    split at h
    · have h' : (c.faults ++ [(_, some v.pos)]).length = c.faults.length := h
      simp at h'
    · rename_i hok
      simpa using hok
  | _ =>
    -- anything else is no literal, which is a fault
    all_goals
      have h' : (c.faults ++ [("initial value of " ++ v.name ++ " must be a literal", some v.pos)]).length =
        c.faults.length := h
      simp at h'

theorem initialized_checked {P : Checker → Prop} (v : VarDecl) (b : Bool) :
    Ensures (fun c => b = true ∧ P c) (fun r c => r = .yield PUnit.unit ∧ P c ∧ v.InitChecked c.codec)
      (if b = true then initializer v >>= fun _ => pure (ForInStep.yield PUnit.unit)
        else pure (ForInStep.yield PUnit.unit)) := by
  split
  · refine ensures_bind (ensures_of_grows (steady_initializer v).grows
      (Q := fun _ c => P c ∧ v.InitChecked c.codec) fun c hc hclean => ?_) fun _ => ?_
    · rw [initializer_clean hclean]
      exact ⟨hc.2, initializer_checked hclean⟩
    · exact (ensures_pure _).mono fun _ _ h => ⟨h.1, h.2⟩
  · exact ensures_of_grows (grows_pure _) fun _ h _ => absurd h.1 ‹_›

theorem declareGlobals_bare : Ensures (Bare codec) (fun _ => Bare codec) declareGlobals := by
  unfold declareGlobals
  refine ensures_bind ensures_get fun c0 => ?_
  dsimp only
  refine ensures_bind ((ensures_forIn (fun _ => Bare codec) (fun _ v => ?_) _ []).pre
    fun _ h => h.2) fun _ => ?_
  · refine ensures_guard _ _ _ ?_
    refine ensures_bind (mapName_ensures _ _ _) fun vm => ?_
    refine ensures_bind (declare_ensures _) fun b => ?_
    refine ((initialized_checked v b).pre fun c h => ⟨h.1, h⟩).mono fun r c2 h => ?_
    obtain ⟨rfl, ⟨-, c1, ⟨-, c, hc, -, rfl⟩, hnew, rfl⟩, hinit⟩ := h
    exact ⟨rfl, hc.define hnew fun _ => ⟨v, rfl, rfl, hc.1 ▸ hinit⟩⟩
  -- state variables, constants, events and functions declare no storage variable
  refine ensures_bind (ensures_forIn (fun _ => Bare codec) (fun _ v => ?_) _ []) fun _ => ?_
  · refine ensures_bind (declare_ensures _) fun b => ?_
    refine ((initialized_checked v b).pre fun c h => ⟨h.1, h⟩).mono fun r c2 h => ?_
    obtain ⟨rfl, ⟨-, c, hc, hnew, rfl⟩, -⟩ := h
    exact ⟨rfl, hc.define hnew fun hk => by cases hk⟩
  refine ensures_bind (ensures_forIn (fun _ => Bare codec) (fun _ k => ?_) _ []) fun _ => ?_
  · refine ensures_bind (literalType_ensures _) fun ty => ensures_guard _ _ _ ?_
    refine ensures_bind (mapName_ensures _ _ _) fun vm => ?_
    refine ensures_bind (declare_ensures _) fun b => (ensures_pure _).mono fun r c2 h => ?_
    obtain ⟨rfl, -, c1, ⟨-, c, hc, -, rfl⟩, hnew, rfl⟩ := h
    exact ⟨rfl, hc.define hnew fun hk => by cases hk⟩
  refine ensures_bind (ensures_forIn (fun _ => Bare codec) (fun _ e => ?_) _ []) fun _ => ?_
  · refine ensures_bind (declare_ensures _) fun b => (ensures_pure _).mono fun r c2 h => ?_
    obtain ⟨rfl, -, c, hc, hnew, rfl⟩ := h
    exact ⟨rfl, hc.define hnew fun hk => by cases hk⟩
  refine ensures_forIn (fun _ => Bare codec) (fun _ f => ?_) _ []
  refine ensures_bind (mapName_ensures _ _ _) fun vm => ?_
  refine ensures_bind (declare_ensures _) fun b => (ensures_pure _).mono fun r c2 h => ?_
  obtain ⟨rfl, -, c1, ⟨-, c, hc, -, rfl⟩, hnew, rfl⟩ := h
  exact ⟨rfl, hc.define hnew fun hk => by cases hk⟩

end Check

/-! ### A coin the check accepts -/

/-- A clean check of a coin ends in a state that has shown what `Shown` lists, with every
function of the coin checked; the analysis reports its names, actions and include files. -/
theorem analyze_shown {coin : CoinDecl} {codec : AddressCodec} {A : Analysis}
    (h : analyze coin codec = .ok A) :
    ∃ c, Check.Shown codec coin.functions none c ∧ A.globals = c.globals.symbols ∧
      A.actions = c.actions ∧ A.includes = c.includes := by
  unfold analyze at h
  dsimp only at h
  split at h
  · rename_i hclean
    cases h
    refine ⟨_, (?_ : Check.Ensures (Check.Bare codec) (fun _ => Check.Shown codec coin.functions none)
      _).2 _ ⟨rfl, rfl, rfl, rfl, fun s hs => absurd hs List.not_mem_nil⟩ ?_, rfl, rfl, rfl⟩
    · refine Check.ensures_bind (Check.declareGlobals_bare.mono fun _ _ hc => hc.shown) fun _ => ?_
      refine Check.ensures_bind Check.steady_coinDecorators.ensures_shown fun _ =>
        Check.ensures_bind Check.steady_spendPath.ensures_shown fun _ => ?_
      refine Check.ensures_bind ((Check.ensures_forIn (fun pre => Check.Shown codec pre none)
        (fun pre f => Check.ensures_bind (Check.function_ensures_shown f) fun _ =>
          (Check.ensures_pure _).mono fun _ _ hc => hc) coin.functions []).mono fun _ c hc => by
            rwa [List.nil_append] at hc) fun _ => ?_
      refine Check.ensures_bind (Check.ensures_forIn (fun _ => Check.Shown codec coin.functions none)
        (fun _ a => Check.ensures_bind (Check.action_ensures_shown a) fun _ =>
          (Check.ensures_pure _).mono fun _ _ hc => hc) _ []) fun _ => ?_
      exact Check.steady_resolveIncludes.ensures_shown
    · show _ = 0
      exact List.length_eq_zero_iff.mpr (List.isEmpty_iff.mp hclean)
  · cases h

theorem analyze_stateNames {coin : CoinDecl} {codec : AddressCodec} {A : Analysis}
    (h : analyze coin codec = .ok A) : stateNames A.globals ⊆ coin.stateVars.map (·.name) := by
  intro n hn
  obtain ⟨s, hs, rfl⟩ := List.mem_map.mp hn
  rw [List.mem_filter] at hs
  have he : s.entry ∈ coin.entries := (analyze_declared h).1 ▸ List.mem_map_of_mem hs.1
  simp only [CoinDecl.entries, List.mem_append, List.mem_map, Symbol.entry, Prod.mk.injEq] at he
  -- only the entries of state variables have the kind of state fields
  rcases he with ((((⟨_, _, _, hk, _⟩ | ⟨v, hv, hname, _, _⟩) | ⟨_, _, _, hk, _⟩) | ⟨_, _, _, hk, _⟩) |
    ⟨_, _, _, hk, _⟩)
  case inl.inl.inl.inr => exact List.mem_map.mpr ⟨v, hv, hname⟩
  all_goals rw [← hk] at hs; cases hs.2

theorem mem_template_extras {s : Signature} {x : String}
    (hx : x ∈ s.template.drop s.params.length) : x = "signer" ∨ x = "my_amount" ∨ x = "state" := by
  simp [Signature.template] at hx
  rcases hx with ⟨-, rfl⟩ | ⟨-, rfl⟩ | ⟨-, rfl⟩ <;> simp

theorem template_extras_nodup (s : Signature) : (s.template.drop s.params.length).Nodup := by
  simp only [Signature.template, List.append_assoc, List.drop_left]
  cases s.signer <;> cases s.amount <;> cases s.stateful <;> decide

theorem vmSafe_not_mem_extras (x : String) :
    vmSafe x ∉ ["signer", "my_amount", "state", "self_puzzle_hash"] := by
  have hres : ∀ y ∈ ["signer", "my_amount", "state", "self_puzzle_hash"],
      y ∈ reservedNames ∧ y.toList.getLast? ≠ some '_' := by
    simp [reservedNames]
  intro hx
  exact vmSafe_ne_of_reserved (hres _ hx).1 (hres _ hx).2 x rfl

/-- The solution names of an action whose parameters are named as the check names them: the
generated names of its parameters, then what its signature carries after them. -/
theorem directNames_of_named {info : ActionInfo}
    (h : Check.ParamsNamed info.action.params info.params) :
    Generate.directNames info info.signature =
      info.action.params.map (fun p => vmSafe (snakeCase p.name)) ++
        info.signature.template.drop info.signature.params.length := by
  have hnames : (info.action.params.map fun p =>
      ((info.params.find? (·.name == p.name)).map (·.vmName)).getD p.name) =
      info.action.params.map (fun p => vmSafe (snakeCase p.name)) :=
    List.map_congr_left fun p hp => by rw [h p hp, Option.getD_some]
  simp only [Generate.directNames, hnames, List.length_map, ActionInfo.signature]

theorem directNames_checked {G : List Symbol} {info : ActionInfo} (hchk : ActionChecked G info)
    (hnamed : Check.ParamsNamed info.action.params info.params) :
    (Generate.directNames info info.signature).Nodup ∧
      "self_puzzle_hash" ∉ Generate.directNames info info.signature := by
  rw [directNames_of_named hnamed]
  -- the parameters have generated names, and those are never the reserved extras
  have hvm : ∀ y ∈ info.action.params.map (fun p => vmSafe (snakeCase p.name)),
      y ∉ ["signer", "my_amount", "state", "self_puzzle_hash"] := by
    intro y hy
    obtain ⟨p, -, rfl⟩ := List.mem_map.mp hy
    exact vmSafe_not_mem_extras _
  refine ⟨List.nodup_append.mpr ⟨hchk.vmNames, template_extras_nodup _, fun a ha b hb hab => ?_⟩, ?_⟩
  · subst hab
    rcases mem_template_extras hb with rfl | rfl | rfl <;> exact hvm _ ha (by simp)
  · rw [List.mem_append]
    rintro (hy | hy)
    · exact hvm _ hy (by simp)
    · rcases mem_template_extras hy with h | h | h <;> simp at h

/-- A coin the check accepts, with its bodies as the parser writes them, is ready for code
generation: each part of `Analysis.Ready` is something a clean check of it shows. -/
theorem analyze_ready {coin : CoinDecl} {codec : AddressCodec} {A : Analysis}
    (hw : coin.written = true) (h : analyze coin codec = .ok A) : A.Ready := by
  obtain ⟨c, hs, hglobals, hactions, hincludes⟩ := analyze_shown h
  have hG := analyze_globalKinds h
  simp only [CoinDecl.written, Bool.and_eq_true, List.all_eq_true] at hw
  refine ⟨fun info hi => ?_, (analyze_tables h).1, fun f hf => ?_, ?_, fun i hi => ?_⟩
  · have hchk := hs.actions info (hactions ▸ hi) (by simp)
    rw [← hglobals] at hchk
    have hbody := hw.2 _ (analyze_actions h info hi)
    obtain ⟨hnd, hself⟩ := directNames_checked hchk (analyze_recorded h info hi).2
    refine ⟨?_, hchk.access hG, hnd, hself⟩
    rw [analyze_coin h]
    exact (hchk.body hG (Stmt.blockDeclaresSimply_of_written hbody)).mono
      (info.keys_mono (analyze_stateNames h))
  · rw [analyze_coin h] at hf
    have hchk := hs.functions f hf
    rw [← hglobals] at hchk
    exact hchk hG (Stmt.blockDeclaresSimply_of_written (hw.1 f hf))
  · rw [analyze_storage_vmNames h]
    refine List.nodup_cons.mpr ⟨fun hm => ?_, analyze_storage_vmNames_nodup h⟩
    obtain ⟨v, -, hv⟩ := List.mem_map.mp hm
    exact vmSafe_ne_modHash _ hv
  · exact hs.includes i (hincludes ▸ hi)

/-- Every storage variable of a coin the check accepts is declared from its declaration, with
the type written there and an initial value that type admits. -/
theorem analyze_storageInits {coin : CoinDecl} {codec : AddressCodec} {A : Analysis}
    (h : analyze coin codec = .ok A) : StorageInits codec A.globals := by
  obtain ⟨c, hs, hglobals, -⟩ := analyze_shown h
  rw [hglobals]
  exact hs.storage

end PuzzleKit.Script
