import PuzzleKit.Script.Token
import PuzzleKit.Script.Syntax

/-! Reading CoinScript tokens into a coin. The reader descends from the coin to its members,
statements and expressions, one token of lookahead at a time; binary operators bind in five
levels, from `||` (loosest) through `&&`, comparisons and sums to products (tightest), each
level folding to the left. A fault names what was expected and the token found instead.

Every reading function takes a step budget that each nested call and each loop round spends
one of. Reading takes at least one token in every few steps, so a budget a fixed multiple of
the number of tokens is never used up on a well-formed or ill-formed input alike. -/

namespace PuzzleKit.Script

/-- Reading: the tokens, which stay as they are, and the place of the next one, which moves
forward; or a fault. -/
abbrev ParseM := ReaderT (Array Token) (StateT Nat (Except Failure))

namespace Parse

def fault {α : Type} (text : String) (pos : Pos) : ParseM α :=
  throw ⟨.syntactic, text, some pos, []⟩

def spent {α : Type} : ParseM α := do
  fault "input nests too deeply" (← read).back!.pos

/-- The token a number of places ahead, or the end of input past the last one. -/
def peek (ahead : Nat := 0) : ParseM Token := do
  let toks ← read
  let i ← get
  return toks.getD (min (i + ahead) (toks.size - 1)) default

/-- Takes the next token; the end of input is never passed. -/
def advance : ParseM Token := do
  let t ← peek
  if t.lexeme != .eof then modify (· + 1)
  return t

/-- Whether the next token is the operator `s`. -/
def isOp (s : String) : Lexeme → Bool
  | .op t => t == s
  | _ => false

/-- Whether the next token is the keyword `s`. -/
def isKeyword (s : String) : Lexeme → Bool
  | .keyword t => t == s
  | _ => false

/-- Whether the next token satisfies a test. -/
def check (p : Lexeme → Bool) : ParseM Bool := return p (← peek).lexeme

/-- Takes the next token if it satisfies a test. -/
def accept (p : Lexeme → Bool) : ParseM Bool := do
  if ← check p then
    let _ ← advance
    return true
  return false

/-- Takes the next token, which must satisfy a test; `want` names what was expected. -/
def expect (p : Lexeme → Bool) (want : String) : ParseM Token := do
  let t ← peek
  if p t.lexeme then advance
  else fault ("expected " ++ want ++ ", found " ++ t.lexeme.describe) t.pos

/-- Takes the operator `s`. -/
def expectOp (s : String) : ParseM Token := expect (isOp s) (Value.reprStr s)

def expectKeyword (s : String) : ParseM Token := expect (isKeyword s) (Value.reprStr s)

/-- Takes a name; `what` names its role. -/
def expectIdent (what : String) : ParseM (String × Pos) := do
  let t ← expect (fun | .ident _ => true | _ => false) what
  match t.lexeme with
  | .ident n => return (n, t.pos)
  | _ => return ("", t.pos)

/-- Takes a string; `what` names its role. -/
def expectString (what : String) : ParseM String := do
  let t ← expect (fun | .string _ => true | _ => false) what
  match t.lexeme with
  | .string s => return s
  | _ => return ""

/-- The operators of each binding level, loosest first. -/
def levels : List (List String) :=
  [["||"], ["&&"], ["==", "!=", "<", ">", "<=", ">="], ["+", "-"], ["*", "/", "%"]]

/-- Whether a token is an operator of a binding level. -/
def atLevel (level : Nat) : Lexeme → Bool
  | .op t => ((levels[level]?).getD []).contains t
  | _ => false

/-- A type: a type name, or `mapping(K => V)`. -/
def type : Nat → ParseM TypeRef
  | 0 => spent
  | fuel + 1 => do
    let t ← expect (fun | .type _ => true | _ => false) "type name"
    match t.lexeme with
    | .type "mapping" =>
      let _ ← expectOp "("
      let k ← type fuel
      let _ ← expectOp "=>"
      let v ← type fuel
      let _ ← expectOp ")"
      return .mapping k v
    | .type n => return .named n
    | _ => return .named ""

mutual

/-- An expression at a binding level; level five is a unary expression. -/
def expr : Nat → Nat → ParseM Expr
  | 0, _ => spent
  | fuel + 1, level =>
    if level ≥ levels.length then unary fuel
    else do
      let left ← expr fuel (level + 1)
      binaryRest fuel level left

/-- The operators and right operands that follow a left operand at a level. -/
def binaryRest : Nat → Nat → Expr → ParseM Expr
  | 0, _, _ => spent
  | fuel + 1, level, left => do
    let t ← peek
    if atLevel level t.lexeme then
      let _ ← advance
      let right ← expr fuel (level + 1)
      let op := match t.lexeme with
        | .op s => s
        | _ => ""
      binaryRest fuel level (.binary op left right t.pos)
    else return left

/-- A unary expression: `!` or `-` before an operand, where minus before a number literal
makes a negative literal. -/
def unary : Nat → ParseM Expr
  | 0 => spent
  | fuel + 1 => do
    let t ← peek
    if isOp "!" t.lexeme || isOp "-" t.lexeme then
      let _ ← advance
      let operand ← unary fuel
      let op := if isOp "!" t.lexeme then "!" else "-"
      match op, operand with
      | "-", .lit (.int n) _ => return .lit (.int (-n)) t.pos
      | _, _ => return .unary op operand t.pos
    else
      let e ← primary fuel
      trailers fuel e

/-- Member accesses, calls and indexing after an expression. -/
def trailers : Nat → Expr → ParseM Expr
  | 0, _ => spent
  | fuel + 1, e => do
    let t ← peek
    if ← accept (isOp ".") then
      let (prop, _) ← expectIdent "member name"
      trailers fuel (.member e prop t.pos)
    else if ← accept (isOp "(") then
      match e with
      | .ident name pos =>
        let args ← arguments fuel ")"
        trailers fuel (.call name args pos)
      | _ => fault "only named functions can be called" t.pos
    else if ← accept (isOp "[") then
      let key ← expr fuel 0
      let _ ← expectOp "]"
      trailers fuel (.index e key t.pos)
    else return e

/-- A literal, a name, or an expression in parentheses. -/
def primary : Nat → ParseM Expr
  | 0 => spent
  | fuel + 1 => do
    let t ← advance
    match t.lexeme with
    | .number n => return .lit (.int n) t.pos
    | .hex b => return .lit (.hex b) t.pos
    | .string s => return .lit (.string s) t.pos
    | .keyword "true" => return .lit (.bool true) t.pos
    | .keyword "false" => return .lit (.bool false) t.pos
    | .ident n => return .ident n t.pos
    | .keyword "state" => return .ident "state" t.pos
    | .op "(" => do
      let e ← expr fuel 0
      let _ ← expectOp ")"
      return e
    | l => fault ("unexpected " ++ l.describe ++ " in expression") t.pos

/-- Arguments up to and through the closing operator `close`, separated by commas. -/
def arguments : Nat → String → ParseM (List Expr)
  | 0, _ => spent
  | fuel + 1, close => do
    if ← accept (isOp close) then return []
    argumentsRest fuel close

/-- Arguments after the first has begun. -/
def argumentsRest : Nat → String → ParseM (List Expr)
  | 0, _ => spent
  | fuel + 1, close => do
    let e ← expr fuel 0
    if ← accept (isOp close) then return [e]
    let _ ← expectOp ","
    return e :: (← argumentsRest fuel close)

end

/-- Parameters after the opening parenthesis, through the closing one. -/
def params : Nat → ParseM (List Param)
  | 0 => spent
  | fuel + 1 => do
    if ← accept (isOp ")") then return []
    paramsRest fuel
where
  /-- The parameters from one that begins here. -/
  paramsRest : Nat → ParseM (List Param)
    | 0 => spent
    | fuel + 1 => do
      let pos := (← peek).pos
      let ty ← type fuel
      let (name, _) ← expectIdent "parameter name"
      if ← accept (isOp ")") then return [⟨name, ty, pos⟩]
      let _ ← expectOp ","
      return ⟨name, ty, pos⟩ :: (← paramsRest fuel)

/-- Whether an expression may be assigned to. -/
def isTarget : Expr → Bool
  | .ident _ _ | .member _ _ _ | .index _ _ _ => true
  | _ => false

/-- Takes an assignment operator if one comes next. -/
def assignOp? : ParseM (Option String) := do
  for op in ["=", "+=", "-="] do
    if ← accept (isOp op) then return some op
  return none

mutual

def statement : Nat → ParseM Stmt
  | 0 => spent
  | fuel + 1 => do
    let t ← peek
    match t.lexeme with
    | .keyword "require" =>
      let _ ← advance
      let _ ← expectOp "("
      let cond ← expr fuel 0
      let message ← if ← accept (isOp ",") then some <$> expectString "require message" else pure none
      let _ ← expectOp ")"
      let _ ← expectOp ";"
      return .require cond message t.pos
    | .keyword "send" =>
      let _ ← advance
      let _ ← expectOp "("
      let args ← arguments fuel ")"
      let _ ← expectOp ";"
      match args with
      | [r, a] => return .send r a none t.pos
      | [r, a, m] => return .send r a (some m) t.pos
      | _ => fault "send takes a recipient, an amount and an optional memo" t.pos
    | .keyword "emit" =>
      let _ ← advance
      let (name, _) ← expectIdent "event name"
      let _ ← expectOp "("
      let args ← arguments fuel ")"
      let _ ← expectOp ";"
      return .emit name args t.pos
    | .keyword "exception" =>
      let _ ← advance
      let message ← if ← accept (isOp "(") then do
          let m ← match (← peek).lexeme with
            | .string s => do let _ ← advance; pure (some s)
            | _ => pure none
          let _ ← expectOp ")"
          pure m
        else pure none
      let _ ← expectOp ";"
      return .fail message t.pos
    | .keyword "if" => branch fuel
    | .keyword "return" =>
      let _ ← advance
      let value ← if ← check (isOp ";") then pure none else some <$> expr fuel 0
      let _ ← expectOp ";"
      return .ret value t.pos
    | .type _ =>
      let ty ← type fuel
      let (name, npos) ← expectIdent "variable name"
      let _ ← expectOp "="
      let value ← expr fuel 0
      let _ ← expectOp ";"
      return .assign (.ident name npos) "=" value t.pos (some ty)
    | _ =>
      let e ← expr fuel 0
      match ← assignOp? with
      | some op =>
        if !isTarget e then fault "invalid assignment target" t.pos
        else
          let value ← expr fuel 0
          let _ ← expectOp ";"
          return .assign e op value t.pos none
      | none =>
        let _ ← expectOp ";"
        return .eval e t.pos

/-- An `if` statement with its arms; `else if` makes an else arm of one statement. -/
def branch : Nat → ParseM Stmt
  | 0 => spent
  | fuel + 1 => do
    let start ← expectKeyword "if"
    let _ ← expectOp "("
    let cond ← expr fuel 0
    let _ ← expectOp ")"
    let yes ← block fuel
    if ← accept (isKeyword "else") then
      if ← check (isKeyword "if") then
        return .branch cond yes (some [← branch fuel]) start.pos
      return .branch cond yes (some (← block fuel)) start.pos
    return .branch cond yes none start.pos

def block : Nat → ParseM (List Stmt)
  | 0 => spent
  | fuel + 1 => do
    let _ ← expectOp "\x7b"
    blockRest fuel

/-- The statements of a block through its closing brace. -/
def blockRest : Nat → ParseM (List Stmt)
  | 0 => spent
  | fuel + 1 => do
    if ← accept (isOp "\x7d") then return []
    let t ← peek
    if t.lexeme == .eof then fault "missing \x7d" t.pos
    let s ← statement fuel
    return s :: (← blockRest fuel)

end

/-- Decorators `@name` or `@name(args)`. -/
def decorators : Nat → ParseM (List Decorator)
  | 0 => spent
  | fuel + 1 => do
    if !(← check (isOp "@")) then return []
    let mark ← advance
    let (name, _) ← expectIdent "decorator name"
    let args ← if ← accept (isOp "(") then arguments fuel ")" else pure []
    return ⟨name, args, mark.pos⟩ :: (← decorators fuel)

def varDecl (fuel : Nat) : ParseM VarDecl := do
  let pos := (← peek).pos
  let ty ← type fuel
  let (name, _) ← expectIdent "variable name"
  let init ← if ← accept (isOp "=") then some <$> expr fuel 0 else pure none
  let _ ← expectOp ";"
  return ⟨name, ty, init, pos⟩

def varDecls (fuel : Nat) : ParseM (List VarDecl) := do
  if ← accept (isOp "\x7b") then inBraces fuel
  else return [← varDecl fuel]
where
  /-- Variables up to and through the closing brace. -/
  inBraces : Nat → ParseM (List VarDecl)
    | 0 => spent
    | n + 1 => do
      if ← accept (isOp "\x7d") then return []
      let v ← varDecl n
      return v :: (← inBraces n)

def includeLine : ParseM String := do
  let _ ← expectKeyword "include"
  let path ← expectString "include file name"
  let _ ← expectOp ";"
  return path

/-- A function, inline or not, with an optional return type after `->` or `returns`. -/
def function (fuel : Nat) : ParseM FunctionDecl := do
  let start ← peek
  let inline ← accept (isKeyword "inline")
  let _ ← expectKeyword "function"
  let (name, _) ← expectIdent "function name"
  let _ ← expectOp "("
  let ps ← params fuel
  let returns ← if (← accept (isOp "->")) || (← accept (fun | .ident "returns" => true | _ => false)) then do
      let paren ← accept (isOp "(")
      let r ← type fuel
      if paren then discard <| expectOp ")"
      pure (some r)
    else pure none
  let body ← block fuel
  return ⟨name, ps, returns, body, inline, start.pos⟩

/-- The members of a coin as they are read, each kind in the order written. -/
structure Members where
  storage : List VarDecl := []
  state : List VarDecl := []
  consts : List ConstDecl := []
  functions : List FunctionDecl := []
  actions : List Action := []
  events : List EventDecl := []
  includes : List String := []

def member (fuel : Nat) (m : Members) : ParseM Members := do
  let t ← peek
  match t.lexeme with
  | .keyword "storage" =>
    let _ ← advance
    return { m with storage := m.storage ++ (← varDecls fuel) }
  | .keyword "state" =>
    let _ ← advance
    return { m with state := m.state ++ (← varDecls fuel) }
  | .keyword "const" =>
    let _ ← advance
    if ← check (fun | .type _ => true | _ => false) then discard <| type fuel
    let (name, _) ← expectIdent "constant name"
    let _ ← expectOp "="
    let value ← expr fuel 0
    let _ ← expectOp ";"
    return { m with consts := m.consts ++ [⟨name, value, t.pos⟩] }
  | .keyword "event" =>
    let _ ← advance
    let (name, _) ← expectIdent "event name"
    let _ ← expectOp "("
    let ps ← params fuel
    let _ ← expectOp ";"
    return { m with events := m.events ++ [⟨name, ps, t.pos⟩] }
  | .keyword "function" | .keyword "inline" =>
    return { m with functions := m.functions ++ [← function fuel] }
  | .keyword "include" => return { m with includes := m.includes ++ [← includeLine] }
  | .keyword "action" | .op "@" =>
    let decs ← decorators fuel
    let start ← expectKeyword "action"
    let (name, _) ← expectIdent "action name"
    let _ ← expectOp "("
    let ps ← params fuel
    let body ← block fuel
    return { m with actions := m.actions ++ [⟨name, ps, body, decs, start.pos⟩] }
  | l => fault ("unexpected " ++ l.describe ++ " in coin body") t.pos

/-- Members up to the closing brace of the coin. -/
def members : Nat → Members → ParseM Members
  | 0, _ => spent
  | fuel + 1, m => do
    if ← check (isOp "\x7d") then return m
    let t ← peek
    if t.lexeme == .eof then fault "missing \x7d at end of coin" t.pos
    members fuel (← member fuel m)

def includes : Nat → ParseM (List String)
  | 0 => spent
  | fuel + 1 => do
    if !(← check (isKeyword "include")) then return []
    let p ← includeLine
    return p :: (← includes fuel)

/-- A whole program: includes, decorators and one coin, then the end of input. -/
def program (fuel : Nat) : ParseM CoinDecl := do
  let incs ← includes fuel
  let decs ← decorators fuel
  let start ← expectKeyword "coin"
  let (name, _) ← expectIdent "coin name"
  let _ ← expectOp "\x7b"
  let m ← members fuel { includes := incs }
  let _ ← expectOp "\x7d"
  let _ ← expect (· == .eof) "end of input"
  return ⟨name, m.storage, m.state, m.consts, m.functions, m.actions, m.events, decs, m.includes,
    start.pos⟩

end Parse

/-- The coin of CoinScript source, or the first fault in reading it. -/
def parse (source : String) : Except Failure CoinDecl := do
  let toks ← tokenize source
  let budget := 16 * (toks.length + 2)
  ((Parse.program budget).run toks.toArray).run' 0

end PuzzleKit.Script
