import CalcScript.Proofs.Descent

set_option autoImplicit false

namespace CalcScript.Parse

abbrev Tracked (α : Type) := List Token → Descent (α × List Token)

namespace Unlimited

open Descent (flat opens closes)

-- A parser defined by recursion on itself, where it is only needed for fewer tokens.
def fuelled {α : Type} (step : Tracked α → Tracked α) : Nat → Tracked α
  | 0 => fun _ => flat (.error .incomplete)
  | n + 1 => step (fuelled step n)

def fix {α : Type} (step : Tracked α → Tracked α) : Tracked α := fun ts =>
  fuelled step (ts.length + 1) ts

def expect (kind : TokenKind) (fault : String → Fault) : Tracked Token := fun ts =>
  flat (Parse.expect kind fault ts)

def peek {α : Type} (kind : TokenKind) (without : Tracked α) (behind : Token → Tracked α) :
    Tracked α := fun ts =>
  match next? kind ts with
  | none => without ts
  | some (t, rest) => behind t rest

def run {α : Type} (op? : TokenKind → Option α) (operand : Tracked Expr) :
    List Token → Tracked (List (α × Position × Expr))
  | [], ts => return ([], ts)
  | _ :: _, [] => return ([], [])
  | _ :: bound, t :: ts =>
    match op? t.kind with
    | none => return ([], t :: ts)
    | some op => do
      let (rhs, rest) ← operand ts
      let (more, rest) ← run op? operand bound rest
      return ((op, t.pos, rhs) :: more, rest)

def leftRun {α : Type} (op? : TokenKind → Option α) (node : α → Expr → Expr → Position → Expr)
    (operand : Tracked Expr) : Tracked Expr := fun ts => do
  let (first, rest) ← operand ts
  let (more, rest) ← run op? operand rest rest
  return (more.foldl (fun lhs (op, pos, rhs) => node op lhs rhs pos) first, rest)

def factor (operand : Tracked Expr) : Tracked Expr := leftRun factorOp? .binary operand

def term (operand : Tracked Expr) : Tracked Expr := leftRun termOp? .binary (factor operand)

def comparison (operand : Tracked Expr) : Tracked Expr := fun ts => do
  let (first, rest) ← term operand ts
  let (more, rest) ← run TokenKind.comparisonOp? (term operand) rest rest
  return (chained first more, rest)

def conjunction (operand : Tracked Expr) : Tracked Expr :=
  leftRun andOp? .logical (comparison operand)

def expression (operand : Tracked Expr) : Tracked Expr :=
  leftRun orOp? .logical (conjunction operand)

section

variable (inner : Tracked Expr)

def arguments (expr : Tracked Expr) : List Token → Tracked (List Expr)
  | [] => fun _ => flat (.error .incomplete)
  | _ :: bound => fun ts => do
    let (e, rest) ← expr ts
    peek .comma (fun rest => return ([e], rest)) (fun _ rest => do
      let (more, rest) ← arguments expr bound rest
      return (e :: more, rest)) rest

def call (callee : Identifier) : Tracked Expr :=
  peek .rightParen (fun ts => do
    opens callee.pos
    let args ← arguments (expression inner) ts ts
    closes
    let (_, rest) ← expect .rightParen (.missing ')') args.2
    return (.call callee args.1, rest)) fun _ rest => return (.call callee [], rest)

def assignment (target : Identifier) (op : Option BinaryOp) (pos : Position) : Tracked Expr :=
  fun ts => do
    opens pos
    let value ← expression inner ts
    closes
    return (.assignment target (assigned target pos value.1 op), value.2)

def group (pos : Position) : Tracked Expr := fun ts => do
  opens pos
  let e ← expression inner ts
  closes
  let (_, rest) ← expect .rightParen (.missing ')') e.2
  return (e.1, rest)

def behindName (name : Identifier) : Tracked Expr
  | [] => return (.variable name, [])
  | u :: rest =>
    if u.kind = .leftParen then call inner name rest
    else
      match assignmentOp? u.kind with
      | some op => assignment inner name op u.pos rest
      | none => return (.variable name, u :: rest)

def primary : Tracked Expr
  | [] => flat (.error .incomplete)
  | t :: ts =>
    match t.kind with
    | .integer | .float | .string =>
      match t.literal with
      | some value => return (.literal value t.pos, ts)
      | none => flat (.error (unexpected t))
    | .leftParen => group inner t.pos ts
    | .identifier => behindName inner ⟨t.lexeme, t.pos⟩ ts
    | _ => flat (.error (unexpected t))

def power : Tracked Expr := fun ts => do
  let (base, rest) ← primary inner ts
  peek (.binary .power) (fun rest => return (base, rest)) (fun caret rest => do
    opens caret.pos
    let exponent ← inner rest
    closes
    return (.binary .power base exponent.1 caret.pos, exponent.2)) rest

def operand : Tracked Expr
  | [] => flat (.error .incomplete)
  | t :: ts =>
    match t.kind.unaryOp? with
    | none => power inner (t :: ts)
    | some op => do
      opens t.pos
      let e ← inner ts
      closes
      return (.unary op e.1 t.pos, e.2)

end

def freeOperand : Tracked Expr := fix operand

def freeExpression : Tracked Expr := expression freeOperand

def block (inner : Tracked (List Statement)) : Tracked (List Statement) := fun ts => do
  let (brace, rest) ← expect .leftBrace (.missing '{') ts
  opens brace.pos
  let body ← inner rest
  closes
  let (_, rest) ← expect .rightBrace (.missing '}') body.2
  return (body.1, rest)

section

variable (expr : Tracked Expr) (body : Tracked (List Statement))

def lastAlternative : Tracked (Option (List Statement)) :=
  peek (.keyword .otherwise) (fun rest => return (none, rest)) fun _ rest => do
    let (statements, rest) ← body rest
    return (some statements, rest)

def alternatives : List Token → Tracked (Option (List Statement))
  | [] => lastAlternative body
  | _ :: bound =>
    peek .elseIf (lastAlternative body) fun t rest => do
      let (condition, rest) ← expr rest
      let (statements, rest) ← body rest
      let (otherwise, rest) ← alternatives bound rest
      return (some [.branch condition statements otherwise t.pos], rest)

def branch (pos : Position) : Tracked Statement := fun ts => do
  let (condition, rest) ← expr ts
  let (statements, rest) ← body rest
  let (otherwise, rest) ← alternatives expr body rest rest
  return (.branch condition statements otherwise pos, rest)

def loop (pos : Position) : Tracked Statement := fun ts => do
  let (condition, rest) ← expr ts
  let (statements, rest) ← body rest
  return (.loop condition statements pos, rest)

def function : Tracked Statement := fun ts => do
  let (name, rest) ← expect .identifier .notAnIdentifier ts
  let (_, rest) ← expect .leftParen (.missing '(') rest
  let (names, rest) ← flat (params rest rest)
  let (_, rest) ← expect .rightParen (.missing ')') rest
  let (statements, rest) ← body rest
  return (.function ⟨name.lexeme, name.pos⟩ names statements, rest)

def blockStatement? (t : Token) : Option (Tracked Statement) :=
  match t.kind with
  | .keyword .branch => some (branch expr body t.pos)
  | .keyword .loop => some (loop expr body t.pos)
  | .keyword .function => some (function body)
  | _ => none

def control (kind : ControlKind) (pos : Position) : Tracked Statement
  | [] => return (.control kind none pos, [])
  | t :: ts =>
    if kind ≠ .returnValue ∨ t.kind = .semicolon ∨ t.kind = .rightBrace then
      return (.control kind none pos, t :: ts)
    else do
      let (value, rest) ← expr (t :: ts)
      return (.control kind (some value) pos, rest)

def simpleStatement : Tracked Statement
  | [] => flat (.error .incomplete)
  | t :: ts =>
    match t.kind with
    | .keyword (.control kind) => control expr kind t.pos ts
    | _ => do
      let (e, rest) ← expr (t :: ts)
      return (.expression e, rest)

def statements : List Token → Tracked (List Statement)
  | [], ts => return ([], ts)
  | _ :: _, [] => return ([], [])
  | _ :: bound, t :: ts =>
    if t.kind = .rightBrace then return ([], t :: ts)
    else
      match blockStatement? expr body t with
      | some parser => do
        let (s, rest) ← parser ts
        let (more, rest) ← statements bound (skipSemicolon rest)
        return (s :: more, rest)
      | none => do
        let (s, rest) ← simpleStatement expr (t :: ts)
        match rest with
        | [] => return ([s], [])
        | u :: rest =>
          if u.kind = .semicolon then
            let (more, rest) ← statements bound rest
            return (s :: more, rest)
          else if u.kind = .rightBrace then return ([s], u :: rest)
          else flat (.error (.located u.pos (.missing ';' u.lexeme)))

end

def list (inner : Tracked (List Statement)) : Tracked (List Statement) := fun ts =>
  statements freeExpression (block inner) ts ts

def freeStatements : Tracked (List Statement) := fix list

def freeBlock : Tracked (List Statement) := block freeStatements

def sole : Tracked Expr := fun ts => do
  let (e, rest) ← freeExpression ts
  return (e, skipSemicolon rest)

def toEnd {α : Type} (p : Tracked α) (ts : List Token) : Descent α := do
  let (a, rest) ← p ts
  match rest with
  | [] => return a
  | t :: _ => flat (.error (unexpected t))

def program : List Token → Descent (List Statement) := toEnd freeStatements

def soleExpression : List Token → Descent Expr := toEnd sole

end Unlimited

end CalcScript.Parse
