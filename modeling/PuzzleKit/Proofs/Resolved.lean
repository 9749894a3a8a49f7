import PuzzleKit.Script.Generate

/-!
# Names that resolve

Which names a block of statements reads, and whether each can be found where its code is
generated. `K` lists the keys bound in the environment the code is generated in: parameters,
locals, `msg.value` and `state.field`. `G` lists the coin's names. A variable resolves when its
key is bound or it names a storage variable or a constant; `msg.value` and `state.field`
resolve when their keys are bound; a call names a function of the coin, a built-in or a library
function, and an operator is one the code has. In a block a declaration binds its name for the
statements after it, and the declarations of an `if` arm stay in the arm. A block is fresh when
each of its declarations names something new there: no bound key and no name of the coin.

Nothing here mentions how code is generated: the check of a coin establishes these predicates
and generation succeeds on what satisfies them.
-/

namespace PuzzleKit.Script

/-- Whether a coin's name can be called: a function of the coin, a built-in or a library
function. -/
def Callable (G : List Symbol) (f : String) : Prop :=
  (∃ s, G.find? (·.name == f) = some s ∧ s.kind = .function) ∨ (builtin? f).isSome ∨
    (libraryFunction f).isSome

mutual

/-- Whether every declaration of a statement, in its arms too, gives a plain name its value
with `=`: the only declarations the parser writes. -/
def Stmt.declaresSimply : Stmt → Bool
  | .assign (.ident _ _) op _ _ (some _) => op == "="
  | .assign _ _ _ _ (some _) => false
  | .branch _ yes no _ => Stmt.blockDeclaresSimply yes && Stmt.optionDeclaresSimply no
  | _ => true

/-- Whether every statement of a block declares simply. -/
def Stmt.blockDeclaresSimply : List Stmt → Bool
  | [] => true
  | s :: ss => s.declaresSimply && Stmt.blockDeclaresSimply ss

/-- Whether an optional block declares simply. -/
def Stmt.optionDeclaresSimply : Option (List Stmt) → Bool
  | some ss => Stmt.blockDeclaresSimply ss
  | none => true

end

/-- An expression whose names all resolve. -/
inductive Expr.Resolves (G : List Symbol) (K : List String) : Expr → Prop
  | lit {l p} : Expr.Resolves G K (.lit l p)
  | bound {n p} : n ∈ K → Expr.Resolves G K (.ident n p)
  | global {n p s} : G.find? (·.name == n) = some s → s.kind = .storage ∨ s.kind = .constant →
      Expr.Resolves G K (.ident n p)
  | binary {op l r p} : (binaryOp? op).isSome → Expr.Resolves G K l → Expr.Resolves G K r →
      Expr.Resolves G K (.binary op l r p)
  | unary {op e p} : Expr.Resolves G K e → Expr.Resolves G K (.unary op e p)
  | amount {o p} : isName "msg" o = true → "msg.value" ∈ K → Expr.Resolves G K (.member o "value" p)
  | field {o prop p} : isName "state" o = true → "state." ++ prop ∈ K →
      Expr.Resolves G K (.member o prop p)
  | entry {o prop q k p} : isName "state" o = true → "state." ++ prop ∈ K → Expr.Resolves G K k →
      Expr.Resolves G K (.index (.member o prop q) k p)
  | call {f args p} : Callable G f → (∀ a ∈ args, Expr.Resolves G K a) →
      Expr.Resolves G K (.call f args p)

/-- A block whose names all resolve, each statement in the environment the statements before it
leave. A statement after a return or failure is never reached, but must resolve all the same. -/
inductive Block.Resolves (G : List Symbol) : List String → List Stmt → Prop
  | nil {K} : Block.Resolves G K []
  | sender {K c t m p rest} : senderTarget? c = some t → t.Resolves G K → Block.Resolves G K rest →
      Block.Resolves G K (.require c m p :: rest)
  | require {K c m p rest} : senderTarget? c = none → c.Resolves G K → Block.Resolves G K rest →
      Block.Resolves G K (.require c m p :: rest)
  | send {K r a m p rest} : r.Resolves G K → a.Resolves G K → (∀ x ∈ m, x.Resolves G K) →
      Block.Resolves G K rest → Block.Resolves G K (.send r a m p :: rest)
  | emit {K ev args p rest} : (∀ a ∈ args, a.Resolves G K) → Block.Resolves G K rest →
      Block.Resolves G K (.emit ev args p :: rest)
  | eval {K f args q p rest} : (statementCall? f).isSome → (∀ a ∈ args, a.Resolves G K) →
      Block.Resolves G K rest → Block.Resolves G K (.eval (.call f args q) p :: rest)
  | declare {K n q v p ty rest} : v.Resolves G K → Block.Resolves G (n :: K) rest →
      Block.Resolves G K (.assign (.ident n q) "=" v p (some ty) :: rest)
  | setLocal {K n q op v p rest} : n ∈ K → v.Resolves G K → Block.Resolves G K rest →
      Block.Resolves G K (.assign (.ident n q) op v p none :: rest)
  | setField {K o prop q op v p rest} : isName "state" o = true → "state." ++ prop ∈ K →
      v.Resolves G K → Block.Resolves G K rest →
      Block.Resolves G K (.assign (.member o prop q) op v p none :: rest)
  | setEntry {K o prop q k r op v p rest} : isName "state" o = true → "state." ++ prop ∈ K →
      k.Resolves G K → v.Resolves G K → Block.Resolves G K rest →
      Block.Resolves G K (.assign (.index (.member o prop q) k r) op v p none :: rest)
  | branch {K c yes no p rest} : c.Resolves G K → Block.Resolves G K yes →
      Block.Resolves G K (no.getD []) → Block.Resolves G K rest →
      Block.Resolves G K (.branch c yes no p :: rest)
  | ret {K v p rest} : (∀ x ∈ v, x.Resolves G K) → Block.Resolves G K rest →
      Block.Resolves G K (.ret v p :: rest)
  | fail {K m p rest} : Block.Resolves G K rest → Block.Resolves G K (.fail m p :: rest)

/-- A block whose declarations each name something new where they stand: neither a key bound
there nor a name of the coin, as the check of a coin makes sure. A declaration binds its name
for the statements after it, and the declarations of an `if` arm stay in the arm. -/
inductive Block.Fresh (G : List Symbol) : List String → List Stmt → Prop
  | nil {K} : Block.Fresh G K []
  | declare {K n q op v p ty rest} : n ∉ K → G.find? (·.name == n) = none →
      Block.Fresh G (n :: K) rest → Block.Fresh G K (.assign (.ident n q) op v p (some ty) :: rest)
  | branch {K c yes no p rest} : Block.Fresh G K yes → Block.Fresh G K (no.getD []) →
      Block.Fresh G K rest → Block.Fresh G K (.branch c yes no p :: rest)
  | other {K s rest} : (∀ t op v p ty, s ≠ .assign t op v p (some ty)) →
      (∀ c yes no p, s ≠ .branch c yes no p) → Block.Fresh G K rest → Block.Fresh G K (s :: rest)

variable {G : List Symbol}

theorem Expr.Resolves.mono {K K' : List String} (hK : K ⊆ K') {e : Expr}
    (h : e.Resolves G K) : e.Resolves G K' := by
  induction h with
  | lit => exact .lit
  | bound hn => exact .bound (hK hn)
  | global hs hk => exact .global hs hk
  | binary hop _ _ ihl ihr => exact .binary hop ihl ihr
  | unary _ ih => exact .unary ih
  | amount ho hv => exact .amount ho (hK hv)
  | field ho hf => exact .field ho (hK hf)
  | entry ho hf _ ih => exact .entry ho (hK hf) ih
  | call hf _ ih => exact .call hf ih

theorem Block.Resolves.mono {K K' : List String} (hK : K ⊆ K') {ss : List Stmt}
    (h : Block.Resolves G K ss) : Block.Resolves G K' ss := by
  induction h generalizing K' with
  | nil => exact .nil
  | sender ht hr _ ih => exact .sender ht (hr.mono hK) (ih hK)
  | require ht hc _ ih => exact .require ht (hc.mono hK) (ih hK)
  | send hr ha hm _ ih =>
    exact .send (hr.mono hK) (ha.mono hK) (fun x hx => (hm x hx).mono hK) (ih hK)
  | emit ha _ ih => exact .emit (fun a h => (ha a h).mono hK) (ih hK)
  | eval hf ha _ ih => exact .eval hf (fun a h => (ha a h).mono hK) (ih hK)
  | declare hv _ ih => exact .declare (hv.mono hK) (ih (List.cons_subset_cons _ hK))
  | setLocal hn hv _ ih => exact .setLocal (hK hn) (hv.mono hK) (ih hK)
  | setField ho hf hv _ ih => exact .setField ho (hK hf) (hv.mono hK) (ih hK)
  | setEntry ho hf hk hv _ ih => exact .setEntry ho (hK hf) (hk.mono hK) (hv.mono hK) (ih hK)
  | branch hc _ _ _ ihy ihn ihr => exact .branch (hc.mono hK) (ihy hK) (ihn hK) (ihr hK)
  | ret hv _ ih => exact .ret (fun x hx => (hv x hx).mono hK) (ih hK)
  | fail _ ih => exact .fail (ih hK)

/-- An arm followed by the statements after its `if`: the arm's declarations only add keys for
what follows, so the joined block resolves when both parts do on their own. -/
theorem Block.Resolves.append {K : List String} {xs ys : List Stmt}
    (hx : Block.Resolves G K xs) (hy : Block.Resolves G K ys) : Block.Resolves G K (xs ++ ys) := by
  induction hx with
  | nil => exact hy
  | sender ht hr _ ih => exact .sender ht hr (ih hy)
  | require ht hc _ ih => exact .require ht hc (ih hy)
  | send hr ha hm _ ih => exact .send hr ha hm (ih hy)
  | emit ha _ ih => exact .emit ha (ih hy)
  | eval hf ha _ ih => exact .eval hf ha (ih hy)
  | declare hv _ ih => exact .declare hv (ih (hy.mono (List.subset_cons_self _ _)))
  | setLocal hn hv _ ih => exact .setLocal hn hv (ih hy)
  | setField ho hf hv _ ih => exact .setField ho hf hv (ih hy)
  | setEntry ho hf hk hv _ ih => exact .setEntry ho hf hk hv (ih hy)
  | branch hc hyes hno _ _ _ ih => exact .branch hc hyes hno (ih hy)
  | ret hv _ ih => exact .ret hv (ih hy)
  | fail _ ih => exact .fail (ih hy)

end PuzzleKit.Script
