import PuzzleKit.Proofs.Lowered

/-!
# The keys a block reads

Generating the code of a statement looks keys up in the environment it is given: the names of
its expressions, `msg.value`, the state fields and mappings, and the old value an update
combines with (`Stmt.keys`). A block reads the keys its statements read before binding them
again, and where it ends, by a return or by running off its last statement, the keys `X` its
exit reads (`Block.reads`). An `if` binds nothing for what follows it.

An arm of an `if` that is merged into the code after its `if` is generated with the environment
from before the `if`, so the names the arm declares (`Block.declared`) are lost after it. That
loses nothing when no statement after the `if` reads such a name before it binds it again: a
block is `Clean` when this holds of every `if` in it, with each arm taken alone and followed by
the statements after its `if`. A block whose names resolve and whose declarations are fresh,
as the check of a coin makes sure, is clean.
-/

namespace PuzzleKit.Script

open Generate

/-- The key an assignment binds: the variable, or the state field or mapping it sets. -/
def assignKey : Expr → String
  | .ident n _ => n
  | .member _ p _ => "state." ++ p
  | .index o _ _ => "state." ++ fieldOf o
  | _ => ""

mutual

/-- The keys generating an expression looks up. -/
def Expr.keys : Expr → List String
  | .lit _ _ => []
  | .ident n _ => [n]
  | .binary _ l r _ => l.keys ++ r.keys
  | .unary _ e _ => e.keys
  | .call _ args _ => Expr.keysOf args
  | .member o prop _ =>
    if isName "msg" o && prop == "value" then ["msg.value"]
    else if isName "state" o then ["state." ++ prop] else []
  | .index o k _ => ("state." ++ fieldOf o) :: k.keys

/-- The keys generating several expressions looks up. -/
def Expr.keysOf : List Expr → List String
  | [] => []
  | e :: es => e.keys ++ Expr.keysOf es

end

/-- The keys generating a statement looks up before it binds any. -/
def Stmt.keys : Stmt → List String
  | .require c _ _ =>
    match senderTarget? c with
    | some t => t.keys
    | none => c.keys
  | .send r a m _ => r.keys ++ a.keys ++ (match m with
    | some x => x.keys
    | none => [])
  | .emit _ args _ => Expr.keysOf args
  | .eval e _ => e.keys
  | .assign t op v _ _ => (match t with
    | .index _ k _ => assignKey t :: k.keys
    | _ => if op == "=" then [] else [assignKey t]) ++ v.keys
  | .branch c _ _ _ => c.keys
  | .ret _ _ | .fail _ _ => []

mutual

/-- The keys a block reads before binding them, with `X` read where it ends. -/
def Block.reads (X : List String) : List Stmt → List String
  | [] => X
  | s :: rest => Stmt.reads X s (Block.reads X rest)

/-- The keys a statement reads before binding them, when the statements after it read
`after`: a return reads `X` and a failure nothing more, an `if` reads what its arms read and
then `after`, and an assignment hides the key it binds from `after`. -/
def Stmt.reads (X : List String) : Stmt → List String → List String
  | .ret _ _, _ => X
  | .fail _ _, _ => []
  | .branch c yes no _, after => c.keys ++ Block.reads X yes ++ Block.readsOpt X no ++ after
  | .assign t op v p d, after => (Stmt.assign t op v p d).keys ++ after.filter (· != assignKey t)
  | .require c m p, after => (Stmt.require c m p).keys ++ after
  | .send r a m p, after => (Stmt.send r a m p).keys ++ after
  | .emit ev args p, after => (Stmt.emit ev args p).keys ++ after
  | .eval e p, after => (Stmt.eval e p).keys ++ after

/-- The keys an arm that may be missing reads: with none, what the end reads. -/
def Block.readsOpt (X : List String) : Option (List Stmt) → List String
  | some ss => Block.reads X ss
  | none => X

end

mutual

/-- The keys a block declares, in its arms too. -/
def Block.declared : List Stmt → List String
  | [] => []
  | s :: rest => Stmt.declared s ++ Block.declared rest

/-- The keys a statement declares, in its arms too. -/
def Stmt.declared : Stmt → List String
  | .assign t _ _ _ (some _) => [assignKey t]
  | .branch _ yes no _ => Block.declared yes ++ Block.declaredOpt no
  | _ => []

/-- The keys an arm that may be missing declares. -/
def Block.declaredOpt : Option (List Stmt) → List String
  | some ss => Block.declared ss
  | none => []

end

/-- A block in which no name an `if` arm declares is read after the `if` before it is bound
again; each arm is clean taken alone and followed by the statements after its `if`. -/
inductive Block.Clean (X : List String) : List Stmt → Prop
  | nil : Block.Clean X []
  | branch {c yes no p rest} :
      (∀ k ∈ Stmt.declared (.branch c yes no p), k ∉ Block.reads X rest) →
      Block.Clean X yes → Block.Clean X (no.getD []) → Block.Clean X (yes ++ rest) →
      Block.Clean X (no.getD [] ++ rest) → Block.Clean X rest →
      Block.Clean X (.branch c yes no p :: rest)
  | step {s rest} : (∀ c yes no p, s ≠ .branch c yes no p) → Block.Clean X rest →
      Block.Clean X (s :: rest)

@[simp] theorem Block.reads_nil (X : List String) : Block.reads X [] = X := rfl

@[simp] theorem Block.reads_cons (X : List String) (s : Stmt) (rest : List Stmt) :
    Block.reads X (s :: rest) = Stmt.reads X s (Block.reads X rest) := rfl

theorem Block.readsOpt_eq (X : List String) (no : Option (List Stmt)) :
    Block.readsOpt X no = Block.reads X (no.getD []) := by
  cases no <;> rfl

theorem Block.declaredOpt_eq (no : Option (List Stmt)) :
    Block.declaredOpt no = Block.declared (no.getD []) := by
  cases no <;> rfl

theorem Stmt.mem_reads_of {X A B C : List String} (s : Stmt) (hA : ∀ k ∈ A, k ∈ B ∨ k ∈ C)
    {k : String} (h : k ∈ Stmt.reads X s A) : k ∈ Stmt.reads X s B ∨ k ∈ C := by
  cases s <;> simp only [Stmt.reads, List.mem_append, List.mem_filter] at h ⊢ <;> grind

theorem Block.mem_reads_append {X : List String} :
    ∀ (xs ys : List Stmt) {k : String}, k ∈ Block.reads X (xs ++ ys) →
      k ∈ Block.reads X xs ∨ k ∈ Block.reads X ys
  | [], _, _, h => .inr h
  | s :: xs, ys, _, h => by
    rw [List.cons_append, Block.reads_cons] at h
    exact Stmt.mem_reads_of s (fun _ hk => Block.mem_reads_append xs ys hk) h

theorem Expr.mem_keysOf {k : String} :
    ∀ {args : List Expr}, k ∈ Expr.keysOf args ↔ ∃ a ∈ args, k ∈ a.keys := by
  intro args
  induction args with
  | nil => simp [Expr.keysOf]
  | cons a args ih => simp [Expr.keysOf, ih]

section Resolved

variable {G : List Symbol} {K : List String}

/-- An expression whose names resolve reads only bound keys and names of the coin. -/
theorem Expr.Resolves.keys {e : Expr} (h : e.Resolves G K) :
    ∀ k ∈ e.keys, k ∈ K ∨ (G.find? (·.name == k)).isSome := by
  induction h with
  | lit => simp [Expr.keys]
  | bound hn => simpa [Expr.keys] using Or.inl hn
  | global hs _ =>
    intro k hk
    rw [List.mem_singleton.mp hk, hs]
    exact .inr rfl
  | binary _ _ _ ihl ihr =>
    intro k hk
    rcases List.mem_append.mp hk with hk | hk
    · exact ihl k hk
    · exact ihr k hk
  | unary _ ih => exact ih
  | amount ho hv => simpa [Expr.keys, ho] using Or.inl hv
  | field ho hf => simpa [Expr.keys, ho, isName_msg_of_state ho] using Or.inl hf
  | entry _ hf _ ih =>
    intro k hk
    rcases List.mem_cons.mp hk with rfl | hk
    · exact .inl hf
    · exact ih k hk
  | call _ _ ih =>
    intro k hk
    obtain ⟨a, ha, hk⟩ := Expr.mem_keysOf.mp hk
    exact ih a ha k hk

/-- A block whose names resolve, ending where it reads keys that are bound, reads only bound
keys and names of the coin: a declaration binds its name for what follows it. -/
theorem Block.Resolves.reads {ss : List Stmt} (h : Block.Resolves G K ss) {X : List String}
    (hX : ∀ k ∈ X, k ∈ K) : ∀ k ∈ Block.reads X ss, k ∈ K ∨ (G.find? (·.name == k)).isSome := by
  induction h with
  | nil => exact fun k hk => .inl (hX k hk)
  | sender ht hr _ ih =>
    intro k hk
    simp only [Block.reads_cons, Stmt.reads, Stmt.keys, ht, List.mem_append] at hk
    exact hk.elim (hr.keys k) (ih hX k)
  | require ht hc _ ih =>
    intro k hk
    simp only [Block.reads_cons, Stmt.reads, Stmt.keys, ht, List.mem_append] at hk
    exact hk.elim (hc.keys k) (ih hX k)
  | send hr ha hm _ ih =>
    intro k hk
    simp only [Block.reads_cons, Stmt.reads, Stmt.keys, List.mem_append] at hk
    rcases hk with ((hk | hk) | hk) | hk
    · exact hr.keys k hk
    · exact ha.keys k hk
    · split at hk
      · exact (hm _ rfl).keys k hk
      · cases hk
    · exact ih hX k hk
  | emit ha _ ih =>
    intro k hk
    simp only [Block.reads_cons, Stmt.reads, Stmt.keys, List.mem_append] at hk
    rcases hk with hk | hk
    · obtain ⟨a, hmem, hk⟩ := Expr.mem_keysOf.mp hk
      exact (ha a hmem).keys k hk
    · exact ih hX k hk
  | eval _ ha _ ih =>
    intro k hk
    simp only [Block.reads_cons, Stmt.reads, Stmt.keys, Expr.keys, List.mem_append] at hk
    rcases hk with hk | hk
    · obtain ⟨a, hmem, hk⟩ := Expr.mem_keysOf.mp hk
      exact (ha a hmem).keys k hk
    · exact ih hX k hk
  | @declare K n q v p ty rest hv _ ih =>
    intro k hk
    simp only [Block.reads_cons, Stmt.reads, Stmt.keys, assignKey, beq_self_eq_true, if_true,
      List.nil_append, List.mem_append, List.mem_filter, bne_iff_ne, ne_eq] at hk
    rcases hk with hk | ⟨hk, hkn⟩
    · exact hv.keys k hk
    · -- what follows the declaration may read its name, which is bound from there on
      rcases ih (fun j hj => List.mem_cons_of_mem n (hX j hj)) k hk with hk | hk
      · exact .inl ((List.mem_cons.mp hk).resolve_left hkn)
      · exact .inr hk
  | setLocal hn hv _ ih =>
    intro k hk
    simp only [Block.reads_cons, Stmt.reads, Stmt.keys, assignKey, List.mem_append,
      List.mem_filter] at hk
    rcases hk with (hk | hk) | ⟨hk, -⟩
    · split at hk
      · cases hk
      · exact .inl ((List.mem_singleton.mp hk) ▸ hn)
    · exact hv.keys k hk
    · exact ih hX k hk
  | setField _ hf hv _ ih =>
    intro k hk
    simp only [Block.reads_cons, Stmt.reads, Stmt.keys, assignKey, List.mem_append,
      List.mem_filter] at hk
    rcases hk with (hk | hk) | ⟨hk, -⟩
    · split at hk
      · cases hk
      · exact .inl ((List.mem_singleton.mp hk) ▸ hf)
    · exact hv.keys k hk
    · exact ih hX k hk
  | setEntry _ hf hk' hv _ ih =>
    intro k hk
    simp only [Block.reads_cons, Stmt.reads, Stmt.keys, assignKey, fieldOf, List.mem_append,
      List.mem_cons, List.mem_filter] at hk
    rcases hk with ((rfl | hk) | hk) | ⟨hk, -⟩
    · exact .inl hf
    · exact hk'.keys k hk
    · exact hv.keys k hk
    · exact ih hX k hk
  | branch hc _ _ _ ihy ihn ihr =>
    intro k hk
    simp only [Block.reads_cons, Stmt.reads, Block.readsOpt_eq, List.mem_append] at hk
    rcases hk with ((hk | hk) | hk) | hk
    · exact hc.keys k hk
    · exact ihy hX k hk
    · exact ihn hX k hk
    · exact ihr hX k hk
  | ret _ _ _ => exact fun k hk => .inl (hX k hk)
  | fail _ _ => exact fun k hk => absurd hk List.not_mem_nil

/-- The names a fresh block declares are neither bound where it starts nor names of the coin. -/
theorem Block.Fresh.declared {ss : List Stmt} (h : Block.Fresh G K ss) :
    ∀ k ∈ Block.declared ss, k ∉ K ∧ G.find? (·.name == k) = none := by
  induction h with
  | nil => simp [Block.declared]
  | declare hn hG _ ih =>
    intro k hk
    simp only [Block.declared, Stmt.declared, assignKey, List.singleton_append,
      List.mem_cons] at hk
    rcases hk with rfl | hk
    · exact ⟨hn, hG⟩
    · exact (ih k hk).imp_left fun h hK => h (List.mem_cons_of_mem _ hK)
  | branch _ _ _ ihy ihn ihr =>
    intro k hk
    simp only [Block.declared, Stmt.declared, Block.declaredOpt_eq, List.mem_append] at hk
    rcases hk with (hk | hk) | hk
    · exact ihy k hk
    · exact ihn k hk
    · exact ihr k hk
  | @other K s rest hs hb _ ih =>
    intro k hk
    have hs' : Stmt.declared s = [] := by
      cases s with
      | assign t op v p d =>
        cases d with
        | none => rfl
        | some ty => exact absurd rfl (hs t op v p ty)
      | branch c yes no p => exact absurd rfl (hb c yes no p)
      | _ => rfl
    simp only [Block.declared, hs', List.nil_append] at hk
    exact ih k hk

theorem Block.Resolves.clean_append {ss : List Stmt} (h : Block.Resolves G K ss)
    (hf : Block.Fresh G K ss) {X : List String} (hX : ∀ k ∈ X, k ∈ K) :
    ∀ ys, (∀ k ∈ Block.reads X ys, k ∈ K ∨ (G.find? (·.name == k)).isSome) →
      Block.Clean X ys → Block.Clean X (ss ++ ys) := by
  induction h with
  | nil => exact fun ys _ hy => hy
  | sender _ _ _ ih =>
    intro ys hys hy
    cases hf with
    | other _ _ hf => exact .step (fun _ _ _ _ => nofun) (ih hf hX ys hys hy)
  | require _ _ _ ih =>
    intro ys hys hy
    cases hf with
    | other _ _ hf => exact .step (fun _ _ _ _ => nofun) (ih hf hX ys hys hy)
  | send _ _ _ _ ih =>
    intro ys hys hy
    cases hf with
    | other _ _ hf => exact .step (fun _ _ _ _ => nofun) (ih hf hX ys hys hy)
  | emit _ _ ih =>
    intro ys hys hy
    cases hf with
    | other _ _ hf => exact .step (fun _ _ _ _ => nofun) (ih hf hX ys hys hy)
  | eval _ _ _ ih =>
    intro ys hys hy
    cases hf with
    | other _ _ hf => exact .step (fun _ _ _ _ => nofun) (ih hf hX ys hys hy)
  | declare _ _ ih =>
    intro ys hys hy
    cases hf with
    | declare _ _ hf =>
      refine .step (fun _ _ _ _ => nofun) (ih hf (fun k hk => List.mem_cons_of_mem _ (hX k hk)) ys
        (fun k hk => ?_) hy)
      exact (hys k hk).imp_left (List.mem_cons_of_mem _)
    | other hs => exact absurd rfl (hs _ _ _ _ _)
  | setLocal _ _ _ ih =>
    intro ys hys hy
    cases hf with
    | other _ _ hf => exact .step (fun _ _ _ _ => nofun) (ih hf hX ys hys hy)
  | setField _ _ _ _ ih =>
    intro ys hys hy
    cases hf with
    | other _ _ hf => exact .step (fun _ _ _ _ => nofun) (ih hf hX ys hys hy)
  | setEntry _ _ _ _ _ ih =>
    intro ys hys hy
    cases hf with
    | other _ _ hf => exact .step (fun _ _ _ _ => nofun) (ih hf hX ys hys hy)
  | @branch K c yes no p rest _ hyes hno hrest ihy ihn ihr =>
    intro ys hys hy
    cases hf with
    | branch fy fn fr =>
      -- what follows the `if` reads only keys bound before it and names of the coin
      have hafter : ∀ k ∈ Block.reads X (rest ++ ys), k ∈ K ∨ (G.find? (·.name == k)).isSome :=
        fun k hk => (Block.mem_reads_append rest ys hk).elim (hrest.reads hX k) (hys k)
      have hry : Block.Clean X (rest ++ ys) := ihr fr hX ys hys hy
      refine .branch (fun k hk hread => ?_) (by simpa using ihy fy hX [] (by simpa using fun k hk => .inl (hX k hk)) .nil)
        (by simpa using ihn fn hX [] (by simpa using fun k hk => .inl (hX k hk)) .nil)
        (by simpa using ihy fy hX _ hafter hry) (by simpa using ihn fn hX _ hafter hry) hry
      -- a name an arm declares is neither bound before the `if` nor a name of the coin
      simp only [Stmt.declared, Block.declaredOpt_eq, List.mem_append] at hk
      obtain ⟨hK, hG⟩ := hk.elim (fy.declared k) (fn.declared k)
      rcases hafter k hread with h | h
      · exact hK h
      · simp [hG] at h
    | other _ hb => exact absurd rfl (hb _ _ _ _)
  | ret _ _ ih =>
    intro ys hys hy
    cases hf with
    | other _ _ hf => exact .step (fun _ _ _ _ => nofun) (ih hf hX ys hys hy)
  | fail _ ih =>
    intro ys hys hy
    cases hf with
    | other _ _ hf => exact .step (fun _ _ _ _ => nofun) (ih hf hX ys hys hy)

/-- A block whose names resolve and whose declarations are fresh, with its exit reading bound
keys, is clean. -/
theorem Block.Resolves.clean {ss : List Stmt} (h : Block.Resolves G K ss)
    (hf : Block.Fresh G K ss) {X : List String} (hX : ∀ k ∈ X, k ∈ K) : Block.Clean X ss := by
  simpa using h.clean_append hf hX [] (fun k hk => .inl (hX k hk)) .nil

end Resolved

end PuzzleKit.Script
