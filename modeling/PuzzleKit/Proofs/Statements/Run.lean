import PuzzleKit.Proofs.Resolved
import Mathlib

/-!
# Running the statements of an action

Two readings of an action, which its generated code must agree on.

The code of an action is a tree of condition lists. `Noted.emits V` reads it with each test `C`
taken to be `V C`: `(if C A B)` goes on with `A` or `B`, `(c X R)` emits `X` before what `R`
emits, `(merge_list M R)` emits what `M` emits and then what `R` emits, `()` emits nothing, and
anything else, `(x …)` among it, fails the spend.

The statements of an action run one after another, each in the environment the ones before it
leave (`runBlock`). A test is `V` of the code of its condition; a `require` whose test is false
and a failure end the spend, a return ends the action, an assignment binds a key, and a `send`,
an `emit`, a statement call or a check of the sender emit the condition that generation builds
for it (`piece`). A spend of an action (`runAction`) emits the signature its access rule asks
for, the assertion of its amount, the conditions of its statements in the order they run and,
for a stateful action, the coin recreated with the state its statements leave
(`exitConditions`).
-/

namespace PuzzleKit

open Build

namespace Noted

/-- The conditions code emits with each test `c` taken as `V c`; none when it fails. -/
def emits (V : Noted → Bool) : Noted → Option (List Noted)
  | .atom [] _ _ => some []
  | .cons (.atom op .symbol _) (.cons c (.cons t (.cons e (.atom [] _ _) _) _) _) _ =>
    if op = "if".toUTF8.toList then (if V c then emits V t else emits V e) else none
  | .cons (.atom op .symbol _) (.cons x (.cons r (.atom [] _ _) _) _) _ =>
    if op = "c".toUTF8.toList then (emits V r).map (x :: ·)
    else if op = "merge_list".toUTF8.toList then
      (emits V x).bind fun cs => (emits V r).map (cs ++ ·)
    else none
  | _ => none

variable {V : Noted → Bool}

@[simp] theorem emits_nil : Noted.nil.emits V = some [] := rfl

@[simp] theorem emits_ifNode (c t e : Noted) :
    (ifNode c t e).emits V = if V c then t.emits V else e.emits V := if_pos rfl

@[simp] theorem emits_consCondition (x r : Noted) :
    (consCondition x r).emits V = (r.emits V).map (x :: ·) := if_pos rfl

@[simp] theorem emits_merge (m r : Noted) :
    (call "merge_list" [m, r]).emits V = (m.emits V).bind fun cs => (r.emits V).map (cs ++ ·) :=
  (if_neg (by decide +kernel)).trans (if_pos rfl)

@[simp] theorem emits_failNode (m : Option String) : (failNode m).emits V = none := by
  cases m <;> rfl

theorem emits_of_isNil {t : Noted} (h : t.isNil = true) : t.emits V = some [] := by
  cases t with
  | atom b _ _ =>
    cases b with
    | nil => rfl
    | cons => simp [isNil] at h
  | cons => simp [isNil] at h

end Noted

namespace Script

/-- What a step emits before the outcome `o` of the code after it: a condition comes first, a
merged part emits its own conditions first, and a requirement whose test is false fails. -/
def Piece.follow (V : Noted → Bool) : Piece → Option (List Noted) → Option (List Noted)
  | .cons c, o => o.map (c :: ·)
  | .merge n, o => (n.emits V).bind fun cs => o.map (cs ++ ·)
  | .require c _, o => if V c then o else none

theorem Piece.emits_apply (V : Noted → Bool) (p : Piece) (t : Noted) :
    (p.apply t).emits V = p.follow V (t.emits V) := by
  cases p <;> simp [Piece.apply, Piece.follow]

/-- Steps applied to code, last step innermost, emit what each step adds around what the code
emits. -/
theorem emits_foldr_apply (V : Noted → Bool) (steps : List Piece) (tail : Noted) :
    (steps.foldr (fun p t => p.apply t) tail).emits V = steps.foldr (Piece.follow V) (tail.emits V) := by
  induction steps with
  | nil => rfl
  | cons p ps ih => rw [List.foldr_cons, List.foldr_cons, Piece.emits_apply, ih]

namespace Generate

/-- How running statements stops: the spend fails, the action returns, or the statements run
off their end; with the conditions emitted on the way and the environment left. -/
inductive Ending where
  | failed
  | returned (conds : List Noted) (env : Env)
  | ran (conds : List Noted) (env : Env)

/-- An ending after the conditions `cs`. -/
def Ending.after (cs : List Noted) : Ending → Ending
  | .failed => .failed
  | .returned ds env => .returned (cs ++ ds) env
  | .ran ds env => .ran (cs ++ ds) env

/-- Goes on with `k` from the environment statements leave when they run off their end. -/
def Ending.continue (k : Env → GenM Ending) : Ending → GenM Ending
  | .ran cs env => Ending.after cs <$> k env
  | e => pure e

@[simp] theorem Ending.after_nil : Ending.after [] = id := by
  funext e
  cases e <;> rfl

theorem Ending.after_comp (cs ds : List Noted) :
    Ending.after cs ∘ Ending.after ds = Ending.after (cs ++ ds) := by
  funext e
  cases e <;> simp [Ending.after]

theorem Ending.after_continue (k : Env → GenM Ending) (cs : List Noted) (e : Ending) :
    Ending.after cs <$> e.continue k = (e.after cs).continue k := by
  cases e with
  | ran ds env =>
    show Ending.after cs <$> (Ending.after ds <$> k env) = Ending.after (cs ++ ds) <$> k env
    rw [Functor.map_map, ← Ending.after_comp]; rfl
  | failed => simp [Ending.continue, Ending.after]
  | returned ds env => simp [Ending.continue, Ending.after]

/-- The step a statement that tests or adds a condition makes, as generation builds it: a
`require` (a signature by the sender when it compares `msg.sender`), a `send`, an `emit` or a
statement call. Other statements make none. -/
def piece (ctx : Lowering) (env : Env) : Stmt → GenM (Option Piece)
  | .require c m _ =>
    match senderTarget? c with
    | some t => do
      let who ← expr env t
      let c ← lift (condition "AGG_SIG_ME" [who, ctx.message])
      return some (.cons c)
    | none => do
      let c ← expr env c
      return some (.require c m)
  | .send r a m _ => do
    let rc ← expr env r
    let ac ← expr env a
    let mc ← match m with
      | some m => do pure [call "list" [← expr env m]]
      | none => pure []
    let c ← lift (condition "CREATE_COIN" ([rc, ac] ++ mc))
    return some (.cons c)
  | .emit ev args _ => do
    let xs ← exprs env args
    let c ← lift (condition "CREATE_COIN_ANNOUNCEMENT" [call "sha256tree" [call "list" (str ev :: xs)]])
    return some (.cons c)
  | .eval e _ => do
    let c ← conditionCall env ctx e
    return some (.cons c)
  | _ => return none

mutual

/-- Runs statements one after another, each in the environment the ones before it leave, with
each test `c` taken as `V c`. -/
def runBlock (V : Noted → Bool) (ctx : Lowering) : List Stmt → Env → GenM Ending
  | [], env => pure (.ran [] env)
  | s :: rest, env => runStmt V ctx s env >>= Ending.continue fun env' => runBlock V ctx rest env'

/-- Runs one statement: an `if` runs the arm its test picks. -/
def runStmt (V : Noted → Bool) (ctx : Lowering) : Stmt → Env → GenM Ending
  | .assign t op v pos _, env => do return .ran [] (← assign env t op v pos)
  | .branch c yes no _, env => do
    if V (← expr env c) then runBlock V ctx yes env
    else
      match no with
      | some ss => runBlock V ctx ss env
      | none => pure (.ran [] env)
  | .ret _ _, env => pure (.returned [] env)
  | .fail _ _, _ => pure .failed
  | s, env => do
    match ← piece ctx env s with
    | some (.require c _) => return if V c then .ran [] env else .failed
    | some (.cons c) => return .ran [c] env
    | _ => return .ran [] env

end

/-- The conditions an action ends with: for a stateful action, the coin recreated at its own
puzzle hash with its amount and, as memo, the hash of its state fields as they were last set. -/
def exitConditions (env : Env) (ctx : Lowering) : GenM (List Noted) := do
  if ctx.function || !ctx.stateful then return []
  let fields ← ctx.stateFields.mapM fun f =>
    match env.lookup ("state." ++ f) with
    | some v => pure v
    | none => fault ("unresolved symbol state." ++ f) none
  let memo := call "list" [call "sha256tree" [call "list" fields]]
  return [← lift (condition "CREATE_COIN" [ctx.selfHash, ctx.amount, memo])]

/-- The signature the access rule of an action asks for, the test of the signer taken as `V`
gives it: none without addresses, the one address's signature, or with several the signer's
signature when the signer is one of them; otherwise the spend fails. -/
def signerGuard (V : Noted → Bool) (access : List Expr) (signer message : Noted) :
    GenM (Option (List Noted)) := do
  let addrs ← access.mapM (expr [])
  match addrs with
  | [] => return some []
  | [who] => return some [← lift (condition "AGG_SIG_ME" [who, message])]
  | _ =>
    if V (call "any" (addrs.map fun x => call "=" [signer, x])) then
      return some [← lift (condition "AGG_SIG_ME" [signer, message])]
    else return none

/-- What a spend of an action emits with each test `c` taken as `V c`: the signature its access
rule asks for, the assertion of its amount when the spend carries it, the conditions of its
statements in the order they run, and its exit conditions; none when the spend fails. -/
def runAction (V : Noted → Bool) (info : ActionInfo) (sig : Signature) (slots : List Noted)
    (selfHash : Noted) : GenM (Option (List Noted)) := do
  let sc := ActionScope.of info sig slots selfHash ((← get).analysis.coin.stateVars.map (·.name))
  let guard ← signerGuard V info.access (sc.signer.getD Noted.nil) sc.ctx.message
  let amount ← match sc.amount with
    | some v => do pure [← lift (condition "ASSERT_MY_AMOUNT" [v])]
    | none => pure []
  match guard, ← runBlock V sc.ctx info.action.body sc.env with
  | some pre, .returned cs env | some pre, .ran cs env =>
    return some (pre ++ amount ++ cs ++ (← exitConditions env sc.ctx))
  | _, _ => return none

theorem runBlock_nil (V : Noted → Bool) (ctx : Lowering) (env : Env) :
    runBlock V ctx [] env = pure (.ran [] env) := by
  simp only [runBlock]

theorem runBlock_cons (V : Noted → Bool) (ctx : Lowering) (s : Stmt) (rest : List Stmt)
    (env : Env) :
    runBlock V ctx (s :: rest) env =
      runStmt V ctx s env >>= Ending.continue fun env' => runBlock V ctx rest env' := by
  simp only [runBlock]

theorem Ending.continue_bind (k₁ k₂ : Env → GenM Ending) (e : Ending) :
    e.continue (fun env => k₁ env >>= Ending.continue k₂) = e.continue k₁ >>= Ending.continue k₂ := by
  cases e with
  | ran cs env =>
    show Ending.after cs <$> (k₁ env >>= Ending.continue k₂) =
      (Ending.after cs <$> k₁ env) >>= Ending.continue k₂
    rw [map_bind, bind_map_left]
    simp only [Ending.after_continue]
  | failed => simp [Ending.continue]
  | returned cs env => simp [Ending.continue]

/-- Running two blocks one after the other runs the second from where the first ran off its
end. -/
theorem runBlock_append (V : Noted → Bool) (ctx : Lowering) (xs ys : List Stmt) (env : Env) :
    runBlock V ctx (xs ++ ys) env = runBlock V ctx xs env >>= Ending.continue (runBlock V ctx ys) := by
  induction xs generalizing env with
  | nil => simp [runBlock_nil, Ending.continue]
  | cons s xs ih =>
    simp only [List.cons_append, runBlock_cons, bind_assoc]
    congr 1
    funext e
    rw [← Ending.continue_bind]
    congr 1
    funext env'
    exact ih env'

end Generate

end Script

end PuzzleKit
