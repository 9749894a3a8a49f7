import PuzzleKit.Proofs.ActionNames

/-!
# The names a clean check declares

The check of a coin declares its names one kind after another: storage variables, state
variables, constants, events and functions. A storage variable, a constant and a function
also claim a generated name, which no other of them may claim. A check that records no fault
declares every name exactly once, in that order, each with the generated name its kind gives it
(`CoinDecl.entries`); no name is declared twice and no generated name is claimed twice
(`Declared`). The rest of the check keeps the names, so a coin the check accepts has them
(`analyze_declared`).

`Ensures P Q x` reads a step of the check as a triple over the runs that add no fault: the
check collects faults and never takes one back, so a check that ends without faults added
none in any of its steps.
-/

namespace PuzzleKit.Script

/-- A name as generated code sees it: the name, its kind and its generated name. -/
def Symbol.entry (s : Symbol) : String × SymbolKind × String := (s.name, s.kind, s.vmName)

/-- Whether names of a kind claim a generated name of their own: storage variables, constants
and functions do. -/
def SymbolKind.claims : SymbolKind → Bool
  | .storage | .constant | .function => true
  | _ => false

/-- The names of a coin in the order its check declares them, each with its kind and its
generated name: storage variables and constants in capitals, functions and state variables in
snake case, events as written, and names the generated programs use themselves suffixed. -/
def CoinDecl.entries (coin : CoinDecl) : List (String × SymbolKind × String) :=
  coin.storageVars.map (fun v => (v.name, .storage, vmSafe (upperSnake v.name))) ++
  coin.stateVars.map (fun v => (v.name, .state, snakeCase v.name)) ++
  coin.consts.map (fun k => (k.name, .constant, vmSafe (upperSnake k.name))) ++
  coin.events.map (fun e => (e.name, .event, e.name)) ++
  coin.functions.map (fun f => (f.name, .function, vmSafe (snakeCase f.name)))

/-- What a clean check of the declarations establishes of the coin's names `G`: no name is
declared twice, and no two names claim one generated name. -/
structure Declared (G : List Symbol) : Prop where
  names : (G.map (·.name)).Nodup
  claimed : ((G.filter (·.kind.claims)).map (·.vmName)).Nodup

namespace Check

variable {α β γ : Type}

/-! ### Steps over runs that add no fault -/

/-- A step that never takes a fault back. -/
def Grows (x : CheckM α) : Prop := ∀ c, c.faults.length ≤ (x.run c).2.faults.length

theorem Steady.grows {x : CheckM α} (h : Steady x) : Grows x := fun c => (h c).faults

/-- A step that never takes a fault back and, from every state where `P` holds, ends where `Q`
holds of its result whenever it adds no fault. -/
def Ensures (P : Checker → Prop) (Q : α → Checker → Prop) (x : CheckM α) : Prop :=
  Grows x ∧ ∀ c, P c → Clean x c → Q (x.run c).1 (x.run c).2

theorem Ensures.mono {P : Checker → Prop} {Q Q' : α → Checker → Prop} {x : CheckM α}
    (h : Ensures P Q x) (hq : ∀ a c, Q a c → Q' a c) : Ensures P Q' x :=
  ⟨h.1, fun c hc hx => hq _ _ (h.2 c hc hx)⟩

theorem Ensures.pre {P P' : Checker → Prop} {Q : α → Checker → Prop} {x : CheckM α}
    (h : Ensures P Q x) (hp : ∀ c, P' c → P c) : Ensures P' Q x :=
  ⟨h.1, fun c hc hx => h.2 c (hp c hc) hx⟩

theorem ensures_pure {P : Checker → Prop} (a : α) : Ensures P (fun r c => r = a ∧ P c) (pure a) :=
  ⟨fun _ => Nat.le_refl _, fun _ hc _ => ⟨rfl, hc⟩⟩

theorem ensures_bind {P : Checker → Prop} {R : α → Checker → Prop} {Q : β → Checker → Prop}
    {x : CheckM α} {f : α → CheckM β} (hx : Ensures P R x) (hf : ∀ a, Ensures (R a) Q (f a)) :
    Ensures P Q (x >>= f) := by
  refine ⟨fun c => Nat.le_trans (hx.1 c) ((hf _).1 _), fun c hc hclean => ?_⟩
  -- a run that adds no fault adds none in either part
  have h1 := hx.1 c
  have h2 := (hf (x.run c).1).1 (x.run c).2
  have h3 : ((f (x.run c).1).run (x.run c).2).2.faults.length = c.faults.length := hclean
  have hcx : Clean x c := by unfold Clean; omega
  have hcf : Clean (f (x.run c).1) (x.run c).2 := by unfold Clean; omega
  exact (hf _).2 _ (hx.2 c hc hcx) hcf

theorem ensures_of_steady {P : Checker → Prop} {Q : α → Checker → Prop} {x : CheckM α}
    (hs : Steady x) (h : ∀ c, P c → Clean x c → Q (x.run c).1 (x.run c).2) : Ensures P Q x :=
  ⟨hs.grows, h⟩

theorem ensures_fault_bind {P : Checker → Prop} {Q : β → Checker → Prop} {text : String}
    {pos : Pos} {K : Unit → CheckM β} (hK : ∀ u, Grows (K u)) :
    Ensures P Q (fault text pos >>= K) := by
  -- the fault is appended before the rest runs
  refine ⟨fun c => ?_, fun c _ hclean => ?_⟩
  · have := hK () { c with faults := c.faults ++ [(text, some pos)] }
    show c.faults.length ≤
      ((K ()).run { c with faults := c.faults ++ [(text, some pos)] }).2.faults.length
    simp only [List.length_append, List.length_singleton] at this
    omega
  · have := hK () { c with faults := c.faults ++ [(text, some pos)] }
    have h3 : ((K ()).run { c with faults := c.faults ++ [(text, some pos)] }).2.faults.length =
        c.faults.length := hclean
    simp only [List.length_append, List.length_singleton] at this
    omega


theorem grows_pure (a : α) : Grows (pure a : CheckM α) := fun _ => Nat.le_refl _

/-- A step whose clean runs are all there is to know of it ends, from states where `P` holds,
where `Q` holds. -/
theorem ensures_of_grows {P : Checker → Prop} {Q : α → Checker → Prop} {x : CheckM α}
    (hg : Grows x) (h : ∀ c, P c → Clean x c → Q (x.run c).1 (x.run c).2) : Ensures P Q x :=
  ⟨hg, h⟩

theorem ensures_guard {P : Checker → Prop} {Q : β → Checker → Prop} (b : Bool) (text : String)
    (pos : Pos) {K : Unit → CheckM β} (h : Ensures P Q (K ())) :
    Ensures P Q (if b = true then fault text pos >>= K else K ()) := by
  split
  · exact ensures_fault_bind fun u => h.1
  · exact h

/-- A loop over a list runs its body on each element in turn: an invariant of the elements
done so far that each clean round carries one element further holds of the whole list. -/
theorem ensures_forIn (I : List γ → Checker → Prop) {body : γ → PUnit → CheckM (ForInStep PUnit)}
    (h : ∀ pre x, Ensures (I pre) (fun r c => r = .yield PUnit.unit ∧ I (pre ++ [x]) c)
      (body x PUnit.unit)) :
    ∀ (xs pre : List γ), Ensures (I pre) (fun _ c => I (pre ++ xs) c) (forIn xs PUnit.unit body)
  | [], pre => (ensures_pure PUnit.unit).mono fun _ _ hc => by simpa using hc.2
  | x :: xs, pre => by
    rw [List.forIn_cons]
    refine ensures_bind (h pre x) fun r => ?_
    cases r with
    | done b => exact ensures_of_grows (grows_pure _) fun _ hc _ => absurd hc.1 (by simp)
    | yield b =>
      cases b
      exact ((ensures_forIn I h xs (pre ++ [x])).pre fun _ hc => hc.2).mono fun _ _ hc => by
        simpa using hc

/-! ### Claiming and declaring a name -/

theorem mapName_clean {author vm : String} {pos : Pos} {c : Checker}
    (h : Clean (mapName author vm pos) c) :
    (c.vmOwners.lookup vm = none ∨ c.vmOwners.lookup vm = some author) ∧
    (mapName author vm pos).run c =
      (vm, { c with vmOwners := setKey c.vmOwners vm author, nameMap := setKey c.nameMap author vm }) := by
  unfold Clean mapName at h
  unfold mapName
  cases hl : c.vmOwners.lookup vm with
  | none =>
    refine ⟨.inl rfl, ?_⟩
    simp [hl]
    rfl
  | some o =>
    by_cases ho : o = author
    · subst ho
      refine ⟨.inr rfl, ?_⟩
      simp [hl]
      rfl
    · -- a generated name owned by another name is a fault
      simp [hl, ho, fault_run] at h
      have h' : (c.faults ++ [(author ++ " and " ++ o ++ " both map to " ++ vm, some pos)]).length =
        c.faults.length := h
      simp at h'

theorem declare_clean {s : Symbol} {c : Checker} (h : Clean (declare s) c) :
    c.globals.find? s.name = none ∧
    (declare s).run c = (true, { c with globals := c.globals.define s }) := by
  unfold Clean declare at h
  unfold declare
  cases hg : c.globals.find? s.name with
  | none =>
    refine ⟨rfl, ?_⟩
    simp [global?_run, hg]
    rfl
  | some prev =>
    -- a name declared already is a fault, whichever of the two faults it is
    exfalso
    simp only [StateT.run_bind, global?_run, hg] at h
    change ((if _ then _ else _ : CheckM Bool).run c).2.faults.length = c.faults.length at h
    split at h
    · have h' : (c.faults ++ [(s.name ++ " is declared as both storage and state", some s.pos)]).length =
        c.faults.length := h
      simp at h'
    · have h' : (c.faults ++ [("duplicate declaration of " ++ s.name, some s.pos)]).length =
        c.faults.length := h
      simp at h'

theorem grows_declare (s : Symbol) : Grows (declare s) := by
  intro c
  unfold declare
  cases hg : c.globals.find? s.name with
  | none =>
    simp [global?_run, hg]
    exact Nat.le_refl _
  | some prev =>
    simp only [StateT.run_bind, global?_run, hg]
    change c.faults.length ≤ ((if _ then _ else _ : CheckM Bool).run c).2.faults.length
    split
    · show c.faults.length ≤ (c.faults ++ [_]).length
      simp
    · show c.faults.length ≤ (c.faults ++ [_]).length
      simp

theorem grows_mapName (author vm : String) (pos : Pos) : Grows (mapName author vm pos) := by
  intro c
  rcases mapName_run author vm pos c with h | h
  · exact h.faults
  · rw [h]

theorem mapName_ensures {P : Checker → Prop} (author vm : String) (pos : Pos) :
    Ensures P (fun r c' => r = vm ∧ ∃ c, P c ∧
      (c.vmOwners.lookup r = none ∨ c.vmOwners.lookup r = some author) ∧
      c' = { c with vmOwners := setKey c.vmOwners r author, nameMap := setKey c.nameMap author r })
      (mapName author vm pos) :=
  ensures_of_grows (grows_mapName author vm pos) fun c hc hclean => by
    obtain ⟨hown, hrun⟩ := mapName_clean hclean
    rw [hrun]
    exact ⟨rfl, c, hc, hown, rfl⟩

theorem declare_ensures {P : Checker → Prop} (s : Symbol) :
    Ensures P (fun r c' => r = true ∧ ∃ c, P c ∧ c.globals.find? s.name = none ∧
      c' = { c with globals := c.globals.define s }) (declare s) :=
  ensures_of_grows (grows_declare s) fun c hc hclean => by
    obtain ⟨hnew, hrun⟩ := declare_clean hclean
    rw [hrun]
    exact ⟨rfl, c, hc, hnew, rfl⟩

theorem literalType_run (e : Expr) (c : Checker) :
    (literalType e).run c = ((match e with
      | .lit l _ => some (literalClass c.codec l)
      | _ => none), c) := by
  cases e <;> rfl

theorem initializer_clean {v : VarDecl} {c : Checker} (h : Clean (initializer v) c) :
    ((initializer v).run c).2 = c := by
  unfold Clean initializer at h
  unfold initializer
  cases hi : v.init with
  | none => rfl
  | some e =>
    simp only [hi] at h ⊢
    cases e with
    | lit l p =>
      -- a literal has a class; a class that does not fit is a fault
      change ((if (!compatible (classOf (some v.type.text)) (literalClass c.codec l)) = true then _
        else pure () : CheckM Unit).run c).2.faults.length = c.faults.length at h
      change ((if (!compatible (classOf (some v.type.text)) (literalClass c.codec l)) = true then _
        else pure () : CheckM Unit).run c).2 = c
      split at h
      · have h' : (c.faults ++ [(_, some v.pos)]).length = c.faults.length := h
        simp at h'
      · rw [if_neg ‹_›]
        rfl
    | _ =>
      -- anything else is no literal, which is a fault
      all_goals
        have h' : (c.faults ++ [("initial value of " ++ v.name ++ " must be a literal", some v.pos)]).length =
          c.faults.length := h
        simp at h'

theorem ensures_get {P : Checker → Prop} : Ensures P (fun r c => r = c ∧ P c) get :=
  ensures_of_grows steady_get.grows fun _ hc _ => ⟨rfl, hc⟩

theorem initializer_ensures {P : Checker → Prop} (v : VarDecl) :
    Ensures P (fun _ c => P c) (initializer v) :=
  ensures_of_grows (steady_initializer v).grows fun c hc hclean => by
    rw [initializer_clean hclean]
    exact hc

theorem literalType_ensures {P : Checker → Prop} (e : Expr) :
    Ensures P (fun _ c => P c) (literalType e) :=
  ensures_of_grows (steady_literalType e).grows fun c hc _ => by
    rw [literalType_run]
    exact hc

theorem initialized_ensures {P : Checker → Prop} (v : VarDecl) (b : Bool) :
    Ensures P (fun r c => r = .yield PUnit.unit ∧ P c)
      (if b = true then initializer v >>= fun _ => pure (ForInStep.yield PUnit.unit)
        else pure (ForInStep.yield PUnit.unit)) := by
  split
  · exact ensures_bind (initializer_ensures v) fun _ => ensures_pure _
  · exact ensures_pure _

/-! ### The names declared so far -/

theorem Frame.find?_eq_none_iff {f : Frame} {n : String} :
    f.find? n = none ↔ n ∉ f.symbols.map (·.name) := by
  simp [Frame.find?, List.find?_eq_none]

theorem Frame.define_of_find?_eq_none {f : Frame} {s : Symbol} (h : f.find? s.name = none) :
    (f.define s).symbols = f.symbols ++ [s] := by
  have hany : f.symbols.any (·.name == s.name) = false := by
    simpa [Frame.find?, List.find?_eq_none] using h
  simp [Frame.define, hany]

theorem find?_name_of_mem {G : List Symbol} {s : Symbol} (hnames : (G.map (·.name)).Nodup)
    (hs : s ∈ G) : G.find? (·.name == s.name) = some s := by
  cases ht : G.find? (·.name == s.name) with
  | none => exact absurd (List.find?_eq_none.mp ht s hs) (by simp)
  | some t =>
    have htn : t.name = s.name := by simpa using List.find?_some ht
    rw [List.inj_on_of_nodup_map hnames (List.mem_of_find?_eq_some ht) hs htn]

/-- The state of the check once it has declared the names with entries `E`, in order and none
twice, each name that claims a generated name owning it, and each function declared with its
declaration. -/
structure DeclaredAs (E : List (String × SymbolKind × String)) (c : Checker) : Prop where
  entries : c.globals.symbols.map Symbol.entry = E
  names : (E.map (·.1)).Nodup
  owners : ∀ s ∈ c.globals.symbols, s.kind.claims = true → c.vmOwners.lookup s.vmName = some s.name
  mapped : ∀ s ∈ c.globals.symbols, s.kind.claims = true → c.nameMap.lookup s.name = some s.vmName
  origins : ∀ s ∈ c.globals.symbols, s.kind = .function → ∃ fn, s.origin = .function fn

theorem DeclaredAs.empty {c : Checker} (h : c.globals.symbols = []) : DeclaredAs [] c :=
  ⟨by simp [h], List.nodup_nil, fun s hs => by simp [h] at hs, fun s hs => by simp [h] at hs,
    fun s hs => by simp [h] at hs⟩

theorem DeclaredAs.names_eq {E : List (String × SymbolKind × String)} {c : Checker}
    (h : DeclaredAs E c) : c.globals.symbols.map (·.name) = E.map (·.1) := by
  rw [← h.entries, List.map_map]
  rfl

theorem DeclaredAs.stable {E : List (String × SymbolKind × String)} {c : Checker} {s : Symbol}
    (h : DeclaredAs E c) (hs : s ∈ c.globals.symbols) (hk : s.kind = .function) :
    Stable c.globals s.name := by
  obtain ⟨fn, ho⟩ := h.origins s hs hk
  have hfind : c.globals.find? s.name = some s :=
    find?_name_of_mem (h.names_eq ▸ h.names) hs
  right
  simp [functionIn, hfind, hk, ho]

theorem DeclaredAs.names_append {E : List (String × SymbolKind × String)} {c : Checker}
    {s : Symbol} (h : DeclaredAs E c) (hnew : c.globals.find? s.name = none) :
    ((E ++ [s.entry]).map (·.1)).Nodup := by
  rw [List.map_append, List.map_singleton, ← List.concat_eq_append]
  refine h.names.concat fun ha => ?_
  rw [← h.names_eq] at ha
  exact (Frame.find?_eq_none_iff.mp hnew) ha

theorem DeclaredAs.origins_define {E : List (String × SymbolKind × String)} {c : Checker}
    {s : Symbol} (h : DeclaredAs E c) (hnew : c.globals.find? s.name = none)
    (ho : s.kind = .function → ∃ fn, s.origin = .function fn) :
    ∀ t ∈ (c.globals.define s).symbols, t.kind = .function → ∃ fn, t.origin = .function fn := by
  intro t ht
  rw [Frame.define_of_find?_eq_none hnew, List.mem_append, List.mem_singleton] at ht
  rcases ht with ht | rfl
  · exact h.origins t ht
  · exact ho

theorem DeclaredAs.declare {E : List (String × SymbolKind × String)} {c : Checker} {s : Symbol}
    (h : DeclaredAs E c) (hnew : c.globals.find? s.name = none) (hk : s.kind.claims = false)
    (ho : s.kind = .function → ∃ fn, s.origin = .function fn) :
    DeclaredAs (E ++ [s.entry]) { c with globals := c.globals.define s } := by
  have hsyms := Frame.define_of_find?_eq_none hnew
  refine ⟨?_, ?_, fun t ht htk => ?_, fun t ht htk => ?_, h.origins_define hnew ho⟩
  · simp [hsyms, h.entries]
  · exact h.names_append hnew
  · simp only [hsyms, List.mem_append, List.mem_singleton] at ht
    rcases ht with ht | rfl
    · exact h.owners t ht htk
    · simp [hk] at htk
  · simp only [hsyms, List.mem_append, List.mem_singleton] at ht
    rcases ht with ht | rfl
    · exact h.mapped t ht htk
    · simp [hk] at htk

theorem DeclaredAs.claim {E : List (String × SymbolKind × String)} {c c' : Checker} {s : Symbol}
    (h : DeclaredAs E c) (hnew : c.globals.find? s.name = none) (hglobals : c'.globals = c.globals)
    (hfree : c.vmOwners.lookup s.vmName = none ∨ c.vmOwners.lookup s.vmName = some s.name)
    (hown : ∀ k, c'.vmOwners.lookup k = if k = s.vmName then some s.name else c.vmOwners.lookup k)
    (hmap : ∀ k, c'.nameMap.lookup k = if k = s.name then some s.vmName else c.nameMap.lookup k)
    (ho : s.kind = .function → ∃ fn, s.origin = .function fn) :
    DeclaredAs (E ++ [s.entry]) { c' with globals := c'.globals.define s } := by
  rw [hglobals]
  have hsyms := Frame.define_of_find?_eq_none hnew
  refine ⟨?_, ?_, fun t ht htk => ?_, fun t ht htk => ?_, h.origins_define hnew ho⟩
  · simp [hsyms, h.entries]
  · exact h.names_append hnew
  · simp only [hsyms, List.mem_append, List.mem_singleton] at ht
    show c'.vmOwners.lookup t.vmName = some t.name
    rw [hown]
    rcases ht with ht | rfl
    · -- a name declared before keeps its generated name: if it is the one claimed, the
      -- claim found it free or owned by the same name
      split
      · rename_i hvm
        have hold := h.owners t ht htk
        rw [hvm] at hold
        rcases hfree with hfree | hfree <;> rw [hfree] at hold
        · cases hold
        · exact hold
      · exact h.owners t ht htk
    · simp
  · simp only [hsyms, List.mem_append, List.mem_singleton] at ht
    show c'.nameMap.lookup t.name = some t.vmName
    rw [hmap]
    rcases ht with ht | rfl
    · -- a name declared before is not the new name, so its generated name stays
      have hne : t.name ≠ s.name := fun e =>
        (Frame.find?_eq_none_iff.mp hnew) (e ▸ List.mem_map_of_mem ht)
      rw [if_neg hne]
      exact h.mapped t ht htk
    · simp

/-- A clean check of the declarations, started with no names declared, declares the coin's
names as `CoinDecl.entries` lists them. -/
theorem declareGlobals_ensures (coin : CoinDecl) :
    Ensures (fun c => c.coin = coin ∧ c.globals.symbols = []) (fun _ c => DeclaredAs coin.entries c)
      declareGlobals := by
  unfold declareGlobals
  refine ensures_bind ensures_get fun c0 => ?_
  dsimp only
  -- each loop keeps the coin read at the start and declares the names of its kind, one
  -- element after another, after those of the kinds before it
  refine ensures_bind ((ensures_forIn (fun (pre : List VarDecl) c => c0.coin = coin ∧
      DeclaredAs (pre.map fun (v : VarDecl) => (v.name, .storage, vmSafe (upperSnake v.name))) c)
      (fun pre v => ?_) c0.coin.storageVars []).pre fun c hc => ⟨by rw [hc.1]; exact hc.2.1, DeclaredAs.empty hc.2.2⟩)
    fun _ => ?_
  · refine ensures_guard _ _ _ ?_
    refine ensures_bind (mapName_ensures _ _ _) fun vm => ?_
    refine ensures_bind (declare_ensures _) fun b => ?_
    refine (initialized_ensures v b).mono fun r c2 h => ?_
    obtain ⟨rfl, -, c1, ⟨hvm, c, ⟨hc0, hd⟩, hfree, hc1⟩, hnew, rfl⟩ := h
    have hg : c1.globals = c.globals := by rw [hc1]
    rw [hg] at hnew
    have hd' := hd.claim hnew hg hfree (fun k => by rw [hc1]; exact lookup_setKey _ _ _ _)
      (fun k => by rw [hc1]; exact lookup_setKey _ _ _ _) (by simp)
    refine ⟨rfl, hc0, ?_⟩
    simp only [List.map_append, List.map_cons, List.map_nil, ← hvm]
    exact hd'
  refine ensures_bind ((ensures_forIn (fun (pre : List VarDecl) c => c0.coin = coin ∧
      DeclaredAs (c0.coin.storageVars.map (fun v => (v.name, .storage, vmSafe (upperSnake v.name))) ++
        pre.map fun (v : VarDecl) => (v.name, .state, snakeCase v.name)) c)
      (fun pre v => ?_) c0.coin.stateVars []).pre fun c hc => by simpa using hc) fun _ => ?_
  · refine ensures_bind (declare_ensures _) fun b => (initialized_ensures v b).mono fun r c2 h => ?_
    obtain ⟨rfl, -, c, ⟨hc0, hd⟩, hnew, rfl⟩ := h
    have hd' := hd.declare hnew rfl (by simp)
    simp only [Symbol.entry] at hd'
    refine ⟨rfl, hc0, ?_⟩
    simp only [List.map_append, List.map_cons, List.map_nil, ← List.append_assoc]
    exact hd'
  refine ensures_bind ((ensures_forIn (fun (pre : List ConstDecl) c => c0.coin = coin ∧
      DeclaredAs (c0.coin.storageVars.map (fun v => (v.name, .storage, vmSafe (upperSnake v.name))) ++
        c0.coin.stateVars.map (fun v => (v.name, .state, snakeCase v.name)) ++
        pre.map fun (k : ConstDecl) => (k.name, .constant, vmSafe (upperSnake k.name))) c)
      (fun pre k => ?_) c0.coin.consts []).pre fun c hc => by simpa using hc) fun _ => ?_
  · refine ensures_bind (literalType_ensures _) fun ty => ensures_guard _ _ _ ?_
    refine ensures_bind (mapName_ensures _ _ _) fun vm => ?_
    refine ensures_bind (declare_ensures _) fun b => (ensures_pure _).mono fun r c2 h => ?_
    obtain ⟨rfl, -, c1, ⟨hvm, c, ⟨hc0, hd⟩, hfree, hc1⟩, hnew, rfl⟩ := h
    have hg : c1.globals = c.globals := by rw [hc1]
    rw [hg] at hnew
    have hd' := hd.claim hnew hg hfree (fun k => by rw [hc1]; exact lookup_setKey _ _ _ _)
      (fun k => by rw [hc1]; exact lookup_setKey _ _ _ _) (by simp)
    refine ⟨rfl, hc0, ?_⟩
    simp only [List.map_append, List.map_cons, List.map_nil, ← hvm, ← List.append_assoc]
    exact hd'
  refine ensures_bind ((ensures_forIn (fun (pre : List EventDecl) c => c0.coin = coin ∧
      DeclaredAs (c0.coin.storageVars.map (fun v => (v.name, .storage, vmSafe (upperSnake v.name))) ++
        c0.coin.stateVars.map (fun v => (v.name, .state, snakeCase v.name)) ++
        c0.coin.consts.map (fun k => (k.name, .constant, vmSafe (upperSnake k.name))) ++
        pre.map fun (e : EventDecl) => (e.name, .event, e.name)) c)
      (fun pre e => ?_) c0.coin.events []).pre fun c hc => by simpa using hc) fun _ => ?_
  · refine ensures_bind (declare_ensures _) fun b => (ensures_pure _).mono fun r c2 h => ?_
    obtain ⟨rfl, -, c, ⟨hc0, hd⟩, hnew, rfl⟩ := h
    have hd' := hd.declare hnew rfl (by simp)
    simp only [Symbol.entry] at hd'
    refine ⟨rfl, hc0, ?_⟩
    simp only [List.map_append, List.map_cons, List.map_nil, ← List.append_assoc]
    exact hd'
  refine ensures_bind ((ensures_forIn (fun (pre : List FunctionDecl) c => c0.coin = coin ∧
      DeclaredAs (c0.coin.storageVars.map (fun v => (v.name, .storage, vmSafe (upperSnake v.name))) ++
        c0.coin.stateVars.map (fun v => (v.name, .state, snakeCase v.name)) ++
        c0.coin.consts.map (fun k => (k.name, .constant, vmSafe (upperSnake k.name))) ++
        c0.coin.events.map (fun e => (e.name, .event, e.name)) ++
        pre.map fun (f : FunctionDecl) => (f.name, .function, vmSafe (snakeCase f.name))) c)
      (fun pre f => ?_) c0.coin.functions []).pre fun c hc => by simpa using hc) fun _ => ?_
  · refine ensures_bind (mapName_ensures _ _ _) fun vm => ?_
    refine ensures_bind (declare_ensures _) fun b => (ensures_pure _).mono fun r c2 h => ?_
    obtain ⟨rfl, -, c1, ⟨hvm, c, ⟨hc0, hd⟩, hfree, hc1⟩, hnew, rfl⟩ := h
    have hg : c1.globals = c.globals := by rw [hc1]
    rw [hg] at hnew
    have hd' := hd.claim hnew hg hfree (fun k => by rw [hc1]; exact lookup_setKey _ _ _ _)
      (fun k => by rw [hc1]; exact lookup_setKey _ _ _ _) (by simp)
    refine ⟨rfl, hc0, ?_⟩
    simp only [List.map_append, List.map_cons, List.map_nil, ← hvm, ← List.append_assoc]
    exact hd'
  refine (ensures_pure _).mono fun _ c hc => ?_
  rw [← hc.2.1]
  simpa [CoinDecl.entries] using hc.2.2

/-- Once the names are declared their order and uniqueness are facts about the coin's names
alone, which later steps keep. -/
theorem DeclaredAs.declared {E : List (String × SymbolKind × String)} {c : Checker}
    (h : DeclaredAs E c) :
    c.globals.symbols.map Symbol.entry = E ∧ Declared c.globals.symbols := by
  have hnames : (c.globals.symbols.map (·.name)).Nodup := by
    rw [h.names_eq]
    exact h.names
  refine ⟨h.entries, hnames, List.Nodup.map_on ?_ ((hnames.of_map _).filter _)⟩
  -- two claimed names with one generated name have one owner, so they are the same name
  intro s hs t ht hvm
  simp only [List.mem_filter] at hs ht
  have hown : some s.name = some t.name := by
    rw [← h.owners s hs.1 hs.2, ← h.owners t ht.1 ht.2, hvm]
  exact List.inj_on_of_nodup_map hnames hs.1 ht.1 (Option.some.inj hown)

/-! ### The steps after the declarations -/

/-- A property of the state of the check that only the declared names, and what the stable
names map to, decide. Every step after the declarations keeps it. -/
def Settled (Φ : Checker → Prop) : Prop :=
  ∀ c c', c'.globals = c.globals →
    (∀ n, Stable c.globals n → c'.nameMap.lookup n = c.nameMap.lookup n) → Φ c → Φ c'

variable {Φ : Checker → Prop}

theorem Steady.ensures_settled {x : CheckM α} (h : Steady x) (hΦ : Settled Φ) :
    Ensures Φ (fun _ => Φ) x :=
  ⟨h.grows, fun c hc _ => hΦ c _ (h c).globals (h c).names hc⟩

theorem function_ensures_settled (f : FunctionDecl) (hΦ : Settled Φ) :
    Ensures Φ (fun _ => Φ) (function f) :=
  ⟨fun c => (function_keeps f c).2.1,
    fun c hc _ => hΦ c _ (function_keeps f c).1 (function_keeps f c).2.2.2 hc⟩

/-- The actions recorded, each under a name of its own. -/
def ActionsOnce (L : List ActionInfo) : Prop := (L.map (·.action.name)).Nodup

theorem actionsOnce_putAction (info : ActionInfo) {c : Checker} (h : ActionsOnce c.actions) :
    ActionsOnce ((putAction info).run c).2.actions := by
  rw [putAction_run]
  dsimp only
  split
  · -- the action replaced has the name of the one that replaces it
    have hnames : (c.actions.map fun i => if i.action.name == info.action.name then info else i).map
        (·.action.name) = c.actions.map (·.action.name) := by
      rw [List.map_map]
      refine List.map_congr_left fun i _ => ?_
      simp only [Function.comp_apply]
      split
      · rename_i he
        exact (beq_iff_eq.mp he).symm
      · rfl
    unfold ActionsOnce
    rw [hnames]
    exact h
  · rename_i hany
    unfold ActionsOnce
    rw [List.map_append, List.map_singleton, ← List.concat_eq_append]
    refine h.concat fun hn => ?_
    obtain ⟨i, hi, hname⟩ := List.mem_map.mp hn
    exact hany (List.any_eq_true.mpr ⟨i, hi, by simp [hname]⟩)

/-- What a step after the functions are checked keeps: the declared names, what the stable names
map to, the scopes of the functions, the faults found, and that each action is recorded once. -/
structure Quiet (c c' : Checker) : Prop where
  globals : c'.globals = c.globals
  names : ∀ n, Stable c.globals n → c'.nameMap.lookup n = c.nameMap.lookup n
  functions : c'.functions = c.functions
  faults : c.faults.length ≤ c'.faults.length
  actions : ActionsOnce c.actions → ActionsOnce c'.actions

theorem Quiet.trans {c c' c'' : Checker} (h : Quiet c c') (h' : Quiet c' c'') : Quiet c c'' :=
  ⟨h'.globals.trans h.globals, fun n hn => (h'.names n (h.globals ▸ hn)).trans (h.names n hn),
    h'.functions.trans h.functions, Nat.le_trans h.faults h'.faults, h'.actions ∘ h.actions⟩

/-- A step that keeps, from every state, what `Quiet` names. -/
def Quietly (x : CheckM α) : Prop := ∀ c, Quiet c (x.run c).2

theorem Steady.quietly {x : CheckM α} (h : Steady x) : Quietly x :=
  fun c => ⟨(h c).globals, (h c).names, (h c).functions, (h c).faults,
    fun ho => by rwa [(h c).actions]⟩

theorem quietly_bind {x : CheckM α} {f : α → CheckM β} (hx : Quietly x) (hf : ∀ a, Quietly (f a)) :
    Quietly (x >>= f) := fun c => (hx c).trans (hf (x.run c).1 (x.run c).2)

theorem quietly_clearAmount :
    Quietly (modify fun c : Checker => { c with amountUsed := false } : CheckM Unit) :=
  fun _ => ⟨rfl, fun _ _ => rfl, rfl, Nat.le_refl _, id⟩

theorem Quietly.ensures {x : CheckM α} (h : Quietly x) (hΦ : ∀ c c', Quiet c c' → Φ c → Φ c') :
    Ensures Φ (fun _ => Φ) x :=
  ⟨fun c => (h c).faults, fun c hc _ => hΦ c _ (h c) hc⟩

theorem quietly_putAction (info : ActionInfo) : Quietly (putAction info) :=
  fun _ => ⟨rfl, fun _ _ => rfl, rfl, Nat.le_refl _, actionsOnce_putAction info⟩

theorem quietly_action (a : Action) : Quietly (action a) := by
  unfold action
  refine quietly_bind (steady_declareParams _ _).quietly fun frame => ?_
  dsimp only
  refine quietly_bind (quietly_putAction _) fun _ => quietly_bind steady_get.quietly fun c => ?_
  refine quietly_bind (Steady.quietly (steady_forIn (fun d info => ?_) _ _)) fun info => ?_
  · split
    · exact steady_guard _ _ _ fun _ => steady_guard _ _ _ fun _ => steady_pure _
    · split
      · exact steady_bind (steady_access d) fun _ => steady_pure _
      · split
        · exact steady_bind (steady_fault _ _) fun _ => steady_pure _
        · exact steady_bind (steady_fault _ _) fun _ => steady_pure _
  · exact quietly_bind quietly_clearAmount fun _ => quietly_bind (steady_stmts _ _).quietly fun _ =>
      quietly_bind steady_get.quietly fun _ => quietly_putAction _

theorem action_ensures_settled (a : Action) (hΦ : Settled Φ) :
    Ensures Φ (fun _ => Φ) (action a) :=
  (quietly_action a).ensures fun c c' hq => hΦ c c' hq.globals hq.names

/-! ### The scopes of the functions -/

/-- The scopes of the functions `fs` checked so far: each is found under its name, in a scope
where the parameters of a function of that name have their generated names. -/
def FunctionsNamed (fs : List FunctionDecl) (F : List (String × List Symbol)) : Prop :=
  ∀ f ∈ fs, ∃ syms, F.lookup f.name = some syms ∧
    ∃ g ∈ fs, g.name = f.name ∧ ParamsNamed g.params syms

theorem functionsNamed_setKey {fs : List FunctionDecl} {F : List (String × List Symbol)}
    {g : FunctionDecl} {syms : List Symbol} (h : FunctionsNamed fs F) (hg : ParamsNamed g.params syms) :
    FunctionsNamed (fs ++ [g]) (setKey F g.name syms) := by
  intro f hf
  rw [lookup_setKey]
  by_cases hfg : f.name = g.name
  · -- the scope just recorded is that of a function of the same name
    rw [if_pos hfg]
    exact ⟨syms, rfl, g, List.mem_append_right _ (List.mem_singleton_self g), hfg.symm, hg⟩
  · rw [if_neg hfg]
    have hf' : f ∈ fs := by
      rcases List.mem_append.mp hf with hf | hf
      · exact hf
      · exact absurd (congrArg FunctionDecl.name (List.mem_singleton.mp hf)) hfg
    obtain ⟨syms', hl, g', hg', hname, hp⟩ := h f hf'
    exact ⟨syms', hl, g', List.mem_append_left _ hg', hname, hp⟩

theorem function_ensures_named (pre : List FunctionDecl) (f : FunctionDecl) :
    Ensures (fun c => ActionsOnce c.actions ∧ FunctionsNamed pre c.functions)
      (fun _ c => ActionsOnce c.actions ∧ FunctionsNamed (pre ++ [f]) c.functions) (function f) := by
  refine ensures_of_grows (fun c => (function_keeps f c).2.1) fun c ⟨hact, hfun⟩ _ => ?_
  obtain ⟨c₁, h₁, h₂⟩ := function_run f c
  refine ⟨by rw [h₂.actions, h₁.actions]; exact hact, ?_⟩
  rw [h₂.functions]
  show FunctionsNamed (pre ++ [f]) (setKey c₁.functions f.name _)
  rw [h₁.functions]
  exact functionsNamed_setKey hfun (declareParams_named _ _ c)

end Check

theorem analyze_settled {coin : CoinDecl} {codec : AddressCodec} {A : Analysis}
    (h : analyze coin codec = .ok A) {Φ : Checker → Prop} (hΦ : Check.Settled Φ)
    (hdecl : ∀ c, Check.DeclaredAs coin.entries c → Φ c) :
    ∃ c, Φ c ∧ A.globals = c.globals.symbols ∧ A.nameMap = c.nameMap := by
  unfold analyze at h
  dsimp only at h
  split at h
  · rename_i hclean
    cases h
    refine ⟨_, ?_, rfl, rfl⟩
    refine (?_ : Check.Ensures (fun c => c.coin = coin ∧ c.globals.symbols = []) (fun _ => Φ) _).2 _
      ⟨rfl, rfl⟩ ?_
    · refine Check.ensures_bind ((Check.declareGlobals_ensures coin).mono
        fun _ c hc => hdecl c hc) fun _ => ?_
      refine Check.ensures_bind (Check.steady_coinDecorators.ensures_settled hΦ) fun _ =>
        Check.ensures_bind (Check.steady_spendPath.ensures_settled hΦ) fun _ => ?_
      refine Check.ensures_bind (Check.ensures_forIn (fun _ => Φ)
        (fun _ f => Check.ensures_bind (Check.function_ensures_settled f hΦ) fun _ =>
          (Check.ensures_pure _).mono fun _ _ hc => hc) _ []) fun _ => ?_
      refine Check.ensures_bind (Check.ensures_forIn (fun _ => Φ)
        (fun _ a => Check.ensures_bind (Check.action_ensures_settled a hΦ) fun _ =>
          (Check.ensures_pure _).mono fun _ _ hc => hc) _ []) fun _ => ?_
      exact Check.steady_resolveIncludes.ensures_settled hΦ
    · show _ = 0
      exact List.length_eq_zero_iff.mpr (List.isEmpty_iff.mp hclean)
  · cases h

/-- A coin the check accepts has its names declared as `CoinDecl.entries` lists them: every
storage variable, state variable, constant, event and function, in that order, with the
generated name its kind gives it. No name is declared twice, and no two storage variables,
constants or functions share a generated name. -/
theorem analyze_declared {coin : CoinDecl} {codec : AddressCodec} {A : Analysis}
    (h : analyze coin codec = .ok A) :
    A.globals.map Symbol.entry = coin.entries ∧ Declared A.globals := by
  obtain ⟨c, hc, hglobals, -⟩ := analyze_settled h
    (Φ := fun c => c.globals.symbols.map Symbol.entry = coin.entries ∧ Declared c.globals.symbols)
    (fun c c' hg _ hc => by simp only [hg]; exact hc) fun _ hc => hc.declared
  rw [hglobals]
  exact hc

/-- A function, or a storage variable or constant that no library function shares a name with,
keeps the generated name its declaration claimed. -/
theorem analyze_vmName {coin : CoinDecl} {codec : AddressCodec} {A : Analysis}
    (h : analyze coin codec = .ok A) {s : Symbol} (hs : s ∈ A.globals) (hk : s.kind.claims = true)
    (hl : libraryFunction s.name = none ∨ s.kind = .function) : A.vmName s.name = s.vmName := by
  -- a declared function stays stable, so its generated name stays too
  obtain ⟨c, hc, hglobals, hmap⟩ := analyze_settled h
    (Φ := fun c => (∀ s ∈ c.globals.symbols, s.kind = .function → Check.Stable c.globals s.name) ∧
      ∀ s ∈ c.globals.symbols, s.kind.claims = true → Check.Stable c.globals s.name →
        c.nameMap.lookup s.name = some s.vmName)
    (fun c c' hg hn hc => ⟨hg ▸ hc.1, fun s hs hk hst => by
      rw [hn s.name (hg ▸ hst)]
      exact hc.2 s (hg ▸ hs) hk (hg ▸ hst)⟩)
    fun c hd => ⟨fun s hs hk => hd.stable hs hk, fun s hs hk _ => hd.mapped s hs hk⟩
  rw [hglobals] at hs
  unfold Analysis.vmName
  rw [hmap, hc.2 s hs hk (hl.elim Or.inl (hc.1 s hs))]
  rfl

theorem analyze_coin {coin : CoinDecl} {codec : AddressCodec} {A : Analysis}
    (h : analyze coin codec = .ok A) : A.coin = coin := by
  unfold analyze at h
  dsimp only at h
  split at h
  · cases h
    rfl
  · cases h

theorem find?_of_mem_entries {G : List Symbol} {e : String × SymbolKind × String}
    (hnames : (G.map (·.name)).Nodup) (he : e ∈ G.map Symbol.entry) :
    ∃ s, G.find? (·.name == e.1) = some s ∧ s.entry = e := by
  obtain ⟨s, hs, rfl⟩ := List.mem_map.mp he
  exact ⟨s, Check.find?_name_of_mem hnames hs, rfl⟩

/-- The storage variables of a coin the check accepts are found in their order, each under the
generated name in capitals its declaration gives it. -/
theorem analyze_storage_vmNames {coin : CoinDecl} {codec : AddressCodec} {A : Analysis}
    (h : analyze coin codec = .ok A) :
    A.storage.map (·.vmName) = coin.storageVars.map fun v => vmSafe (upperSnake v.name) := by
  obtain ⟨hentries, hdecl⟩ := analyze_declared h
  unfold Analysis.storage Analysis.symbol?
  rw [analyze_coin h, List.map_filterMap]
  refine List.filterMap_eq_map_iff_forall_eq_some.mpr fun v hv => ?_
  have he : (v.name, SymbolKind.storage, vmSafe (upperSnake v.name)) ∈ A.globals.map Symbol.entry := by
    rw [hentries]
    simp only [CoinDecl.entries, List.mem_append, List.mem_map]
    exact .inl (.inl (.inl (.inl ⟨v, hv, rfl⟩)))
  obtain ⟨s, hs, hse⟩ := find?_of_mem_entries hdecl.names he
  simp only [Symbol.entry, Prod.mk.injEq] at hse
  rw [hs, Option.map_some, hse.2.2]

/-- The generated names claimed by a coin the check accepts, those of its storage variables,
constants and functions, are distinct. -/
theorem analyze_claimed_nodup {coin : CoinDecl} {codec : AddressCodec} {A : Analysis}
    (h : analyze coin codec = .ok A) :
    (coin.storageVars.map (fun v => vmSafe (upperSnake v.name)) ++
      coin.consts.map (fun k => vmSafe (upperSnake k.name)) ++
      coin.functions.map (fun f => vmSafe (snakeCase f.name))).Nodup := by
  obtain ⟨hentries, hdecl⟩ := analyze_declared h
  have hclaimed : (A.globals.filter (·.kind.claims)).map (·.vmName) =
      coin.storageVars.map (fun v => vmSafe (upperSnake v.name)) ++
        coin.consts.map (fun k => vmSafe (upperSnake k.name)) ++
        coin.functions.map (fun f => vmSafe (snakeCase f.name)) := by
    have := congrArg (fun E => (E.filter (·.2.1.claims)).map (·.2.2)) hentries
    simp only [List.filter_map, List.map_map, CoinDecl.entries, List.filter_append,
      List.map_append, Function.comp_def, Symbol.entry, SymbolKind.claims, List.filter_true,
      List.filter_false, List.map_nil, List.append_nil] at this
    exact this
  rw [← hclaimed]
  exact hdecl.claimed

theorem analyze_storage_vmNames_nodup {coin : CoinDecl} {codec : AddressCodec} {A : Analysis}
    (h : analyze coin codec = .ok A) :
    (coin.storageVars.map fun v => vmSafe (upperSnake v.name)).Nodup :=
  (List.nodup_append.mp (List.nodup_append.mp (analyze_claimed_nodup h)).1).1

/-- A coin the check accepts has each action recorded once, and the scope of each of its
functions recorded under the function's name. -/
theorem analyze_tables {coin : CoinDecl} {codec : AddressCodec} {A : Analysis}
    (h : analyze coin codec = .ok A) :
    Check.ActionsOnce A.actions ∧ Check.FunctionsNamed coin.functions A.functions := by
  unfold analyze at h
  dsimp only at h
  split at h
  · rename_i hclean
    cases h
    refine (?_ : Check.Ensures (fun c => c.coin = coin ∧ c.globals.symbols = [] ∧ c.actions = [])
      (fun _ c => Check.ActionsOnce c.actions ∧ Check.FunctionsNamed coin.functions c.functions)
      _).2 _ ⟨rfl, rfl, rfl⟩ ?_
    · -- the declarations record no action and no function
      refine Check.ensures_bind (Check.ensures_of_grows (Check.declareGlobals_ensures coin).1
        (P := fun c => c.coin = coin ∧ c.globals.symbols = [] ∧ c.actions = [])
        (Q := fun _ c => Check.ActionsOnce c.actions ∧ Check.FunctionsNamed [] c.functions)
        fun c hc _ => ⟨?_, fun f hf => absurd hf List.not_mem_nil⟩) fun _ => ?_
      · have hnone := (Check.records_declareGlobals (R := fun _ => False) c
          (by rw [hc.2.2]; exact fun _ h => absurd h List.not_mem_nil)).2
        rw [List.eq_nil_iff_forall_not_mem.mpr hnone]
        exact List.nodup_nil
      have hquiet : ∀ pre, ∀ c c', Check.Quiet c c' →
          Check.ActionsOnce c.actions ∧ Check.FunctionsNamed pre c.functions →
          Check.ActionsOnce c'.actions ∧ Check.FunctionsNamed pre c'.functions :=
        fun _ c c' hq hc => ⟨hq.actions hc.1, by rw [hq.functions]; exact hc.2⟩
      refine Check.ensures_bind (Check.steady_coinDecorators.quietly.ensures (hquiet [])) fun _ =>
        Check.ensures_bind (Check.steady_spendPath.quietly.ensures (hquiet [])) fun _ => ?_
      refine Check.ensures_bind ((Check.ensures_forIn (fun pre c => Check.ActionsOnce c.actions ∧
        Check.FunctionsNamed pre c.functions) (fun pre f => Check.ensures_bind
          (Check.function_ensures_named pre f) fun _ => (Check.ensures_pure _).mono
            fun _ _ hc => ⟨hc.1, hc.2⟩) coin.functions []).mono fun _ c hc => by
              rwa [List.nil_append] at hc) fun _ => ?_
      refine Check.ensures_bind (Check.ensures_forIn (fun _ c => Check.ActionsOnce c.actions ∧
        Check.FunctionsNamed coin.functions c.functions)
        (fun _ a => Check.ensures_bind ((Check.quietly_action a).ensures (hquiet _)) fun _ =>
          (Check.ensures_pure _).mono fun _ _ hc => ⟨hc.1, hc.2⟩) _ []) fun _ => ?_
      exact Check.steady_resolveIncludes.quietly.ensures (hquiet _)
    · show _ = 0
      exact List.length_eq_zero_iff.mpr (List.isEmpty_iff.mp hclean)
  · cases h

theorem analyze_names_nodup {coin : CoinDecl} {codec : AddressCodec} {A : Analysis}
    (h : analyze coin codec = .ok A) :
    (coin.storageVars.map (·.name) ++ coin.stateVars.map (·.name) ++ coin.consts.map (·.name) ++
      coin.events.map (·.name) ++ coin.functions.map (·.name)).Nodup := by
  obtain ⟨hentries, hdecl⟩ := analyze_declared h
  have hnames := congrArg (List.map (·.1)) hentries
  simp only [List.map_map, Function.comp_def, Symbol.entry, CoinDecl.entries, List.map_append] at hnames
  rw [← hnames]
  exact hdecl.names

/-- Each function of a coin the check accepts has its scope recorded under its name, where its
parameters have their generated names. -/
theorem analyze_functions {coin : CoinDecl} {codec : AddressCodec} {A : Analysis}
    (h : analyze coin codec = .ok A) :
    ∀ f ∈ coin.functions, ∃ syms, A.functions.lookup f.name = some syms ∧
      Check.ParamsNamed f.params syms := by
  intro f hf
  obtain ⟨syms, hl, g, hg, hgn, hp⟩ := (analyze_tables h).2 f hf
  -- the function found under the name is the function itself, since no name is declared twice
  have hnodup := (List.nodup_append.mp (analyze_names_nodup h)).2.1
  rw [List.inj_on_of_nodup_map hnodup hg hf hgn] at hp
  exact ⟨syms, hl, hp⟩

end PuzzleKit.Script
