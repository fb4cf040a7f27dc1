import CalcScript.Token.Scan
import CalcScript.Tree

set_option autoImplicit false

namespace CalcScript

abbrev Parser (α : Type) := List Token → Except SyntaxError (α × List Token)

def maxNesting : Nat := 100

namespace Parse

def unexpected (t : Token) : SyntaxError := .located t.pos (.unexpectedToken t.lexeme)

def expect (kind : TokenKind) (fault : String → Fault) : Parser Token
  | [] => .error .incomplete
  | t :: ts => if t.kind = kind then .ok (t, ts) else .error (.located t.pos (fault t.lexeme))

def next? (kind : TokenKind) : List Token → Option (Token × List Token)
  | [] => none
  | t :: ts => if t.kind = kind then some (t, ts) else none

def enter {α : Type} (inner : Option α) (pos : Position) : Except SyntaxError α :=
  match inner with
  | some parser => .ok parser
  | none => .error (.located pos .nestedTooDeeply)

-- Operators and their right operands, as long as they follow. Each round takes a token, so there
-- are at most as many rounds as tokens in the bound.
def run {α : Type} (op? : TokenKind → Option α) (operand : Parser Expr) :
    List Token → Parser (List (α × Position × Expr))
  | [], ts => .ok ([], ts)
  | _ :: _, [] => .ok ([], [])
  | _ :: bound, t :: ts =>
    match op? t.kind with
    | none => .ok ([], t :: ts)
    | some op => do
      let (rhs, rest) ← operand ts
      let (more, rest) ← run op? operand bound rest
      return ((op, t.pos, rhs) :: more, rest)

def leftRun {α : Type} (op? : TokenKind → Option α) (node : α → Expr → Expr → Position → Expr)
    (operand : Parser Expr) : Parser Expr := fun ts => do
  let (first, rest) ← operand ts
  let (more, rest) ← run op? operand rest rest
  return (more.foldl (fun lhs (op, pos, rhs) => node op lhs rhs pos) first, rest)

def factorOp? : TokenKind → Option BinaryOp
  | .binary .multiply => some .multiply
  | .binary .divide => some .divide
  | .binary .floorDivide => some .floorDivide
  | .binary .modulo => some .modulo
  | _ => none

def termOp? : TokenKind → Option BinaryOp
  | .binary .add => some .add
  | .binary .subtract => some .subtract
  | _ => none

def andOp? : TokenKind → Option LogicalOp
  | .logical .and => some .and
  | _ => none

def orOp? : TokenKind → Option LogicalOp
  | .logical .or => some .or
  | _ => none

def factor (operand : Parser Expr) : Parser Expr := leftRun factorOp? .binary operand

def term (operand : Parser Expr) : Parser Expr := leftRun termOp? .binary (factor operand)

-- All comparisons in a row are one chain, at the place of its first operator.
def comparison (operand : Parser Expr) : Parser Expr := fun ts => do
  let (first, rest) ← term operand ts
  let (more, rest) ← run TokenKind.comparisonOp? (term operand) rest rest
  match more with
  | [] => return (first, rest)
  | (_, pos, _) :: _ =>
    return (.comparison (first :: more.map (·.2.2)) (more.map (·.1)) pos, rest)

def conjunction (operand : Parser Expr) : Parser Expr :=
  leftRun andOp? .logical (comparison operand)

def expression (operand : Parser Expr) : Parser Expr :=
  leftRun orOp? .logical (conjunction operand)

def arguments (expr : Parser Expr) : List Token → Parser (List Expr)
  | [], _ => .error .incomplete
  | _ :: bound, ts => do
    let (e, rest) ← expr ts
    match next? .comma rest with
    | none => return ([e], rest)
    | some (_, rest) =>
      let (more, rest) ← arguments expr bound rest
      return (e :: more, rest)

def call (inner : Option (Parser Expr)) (callee : Identifier) : Parser Expr := fun ts =>
  match next? .rightParen ts with
  | some (_, rest) => return (.call callee [], rest)
  | none => do
    let below ← enter inner callee.pos
    let (args, rest) ← arguments (expression below) ts ts
    let (_, rest) ← expect .rightParen (.missing ')') rest
    return (.call callee args, rest)

def assignmentOp? : TokenKind → Option (Option BinaryOp)
  | .assign => some none
  | .compound op => some (some op)
  | _ => none

-- An assignment, behind its operator. It takes all that follows as its value, also where it is an
-- operand itself. A compound assignment reads its target first.
def assignment (inner : Option (Parser Expr)) (target : Identifier) (op : Option BinaryOp)
    (pos : Position) : Parser Expr := fun ts => do
  let below ← enter inner pos
  let (value, rest) ← expression below ts
  match op with
  | none => return (.assignment target value, rest)
  | some op => return (.assignment target (.binary op (.variable target) value pos), rest)

def group (inner : Option (Parser Expr)) (pos : Position) : Parser Expr := fun ts => do
  let below ← enter inner pos
  let (e, rest) ← expression below ts
  let (_, rest) ← expect .rightParen (.missing ')') rest
  return (e, rest)

def primary (inner : Option (Parser Expr)) : Parser Expr
  | [] => .error .incomplete
  | t :: ts =>
    match t.kind with
    | .integer | .float | .string =>
      match t.literal with
      | some value => .ok (.literal value t.pos, ts)
      | none => .error (unexpected t)
    | .leftParen => group inner t.pos ts
    | .identifier =>
      let name : Identifier := ⟨t.lexeme, t.pos⟩
      match ts with
      | [] => .ok (.variable name, [])
      | u :: rest =>
        if u.kind = .leftParen then call inner name rest
        else
          match assignmentOp? u.kind with
          | some op => assignment inner name op u.pos rest
          | none => .ok (.variable name, u :: rest)
    | _ => .error (unexpected t)

-- A power binds tighter than the unary operators before it; its exponent may have some itself.
def power (inner : Option (Parser Expr)) : Parser Expr := fun ts => do
  let (base, rest) ← primary inner ts
  match next? (.binary .power) rest with
  | none => return (base, rest)
  | some (caret, rest) =>
    let below ← enter inner caret.pos
    let (exponent, rest) ← below rest
    return (.binary .power base exponent caret.pos, rest)

def operand (inner : Option (Parser Expr)) : Parser Expr
  | [] => .error .incomplete
  | t :: ts =>
    match t.kind.unaryOp? with
    | none => power inner (t :: ts)
    | some op => do
      let below ← enter inner t.pos
      let (e, rest) ← below ts
      return (.unary op e t.pos, rest)

def operandWithin : Nat → Parser Expr
  | 0 => operand none
  | room + 1 => operand (some (operandWithin room))

def expressionWithin (room : Nat) : Parser Expr := expression (operandWithin room)

def block (inner : Option (Parser (List Statement))) : Parser (List Statement) := fun ts => do
  let (brace, rest) ← expect .leftBrace (.missing '{') ts
  let below ← enter inner brace.pos
  let (body, rest) ← below rest
  let (_, rest) ← expect .rightBrace (.missing '}') rest
  return (body, rest)

def elseIfs (expr : Parser Expr) (body : Parser (List Statement)) :
    List Token → Parser (List (Expr × List Statement × Position))
  | [], ts => .ok ([], ts)
  | _ :: bound, ts =>
    match next? .elseIf ts with
    | none => .ok ([], ts)
    | some (t, rest) => do
      let (condition, rest) ← expr rest
      let (statements, rest) ← body rest
      let (more, rest) ← elseIfs expr body bound rest
      return ((condition, statements, t.pos) :: more, rest)

def branch (expr : Parser Expr) (body : Parser (List Statement)) (pos : Position) :
    Parser Statement := fun ts => do
  let (condition, rest) ← expr ts
  let (statements, rest) ← body rest
  let (more, rest) ← elseIfs expr body rest rest
  let (last, rest) ←
    match next? (.keyword .otherwise) rest with
    | none => .ok (none, rest)
    | some (_, rest) => do
      let (statements, rest) ← body rest
      .ok (some statements, rest)
  let otherwise := more.foldr (fun (condition, statements, pos) otherwise =>
    some [.branch condition statements otherwise pos]) last
  return (.branch condition statements otherwise pos, rest)

def loop (expr : Parser Expr) (body : Parser (List Statement)) (pos : Position) :
    Parser Statement := fun ts => do
  let (condition, rest) ← expr ts
  let (statements, rest) ← body rest
  return (.loop condition statements pos, rest)

def params : List Token → Parser (List Identifier)
  | [], _ => .error .incomplete
  | _ :: bound, ts =>
    match next? .rightParen ts with
    | some _ => .ok ([], ts)
    | none => do
      let (t, rest) ← expect .identifier .notAnIdentifier ts
      if isGlobalName t.lexeme then .error (.located t.pos (.globalParameter t.lexeme))
      match next? .comma rest with
      | none => return ([⟨t.lexeme, t.pos⟩], rest)
      | some (_, rest) =>
        let (more, rest) ← params bound rest
        return (⟨t.lexeme, t.pos⟩ :: more, rest)

def function (body : Parser (List Statement)) : Parser Statement := fun ts => do
  let (name, rest) ← expect .identifier .notAnIdentifier ts
  let (_, rest) ← expect .leftParen (.missing '(') rest
  let (names, rest) ← params rest rest
  let (_, rest) ← expect .rightParen (.missing ')') rest
  let (statements, rest) ← body rest
  return (.function ⟨name.lexeme, name.pos⟩ names statements, rest)

def blockStatement? (expr : Parser Expr) (body : Parser (List Statement)) (t : Token) :
    Option (Parser Statement) :=
  match t.kind with
  | .keyword .branch => some (branch expr body t.pos)
  | .keyword .loop => some (loop expr body t.pos)
  | .keyword .function => some (function body)
  | _ => none

def control (expr : Parser Expr) (kind : ControlKind) (pos : Position) : Parser Statement
  | [] => .ok (.control kind none pos, [])
  | t :: ts =>
    if kind ≠ .returnValue ∨ t.kind = .semicolon ∨ t.kind = .rightBrace then
      .ok (.control kind none pos, t :: ts)
    else do
      let (value, rest) ← expr (t :: ts)
      return (.control kind (some value) pos, rest)

def simpleStatement (expr : Parser Expr) : Parser Statement
  | [] => .error .incomplete
  | t :: ts =>
    match t.kind with
    | .keyword (.control kind) => control expr kind t.pos ts
    | _ => do
      let (e, rest) ← expr (t :: ts)
      return (.expression e, rest)

-- Statements up to a closing brace or the end. A semicolon separates them; behind a block it may
-- be left out.
def statements (expr : Parser Expr) (body : Parser (List Statement)) :
    List Token → Parser (List Statement)
  | [], ts => .ok ([], ts)
  | _ :: _, [] => .ok ([], [])
  | _ :: bound, t :: ts =>
    if t.kind = .rightBrace then .ok ([], t :: ts)
    else
      match blockStatement? expr body t with
      | some parser => do
        let (s, rest) ← parser ts
        let rest := ((next? .semicolon rest).map (·.2)).getD rest
        let (more, rest) ← statements expr body bound rest
        return (s :: more, rest)
      | none => do
        let (s, rest) ← simpleStatement expr (t :: ts)
        match rest with
        | [] => return ([s], [])
        | u :: rest =>
          if u.kind = .semicolon then
            let (more, rest) ← statements expr body bound rest
            return (s :: more, rest)
          else if u.kind = .rightBrace then return ([s], u :: rest)
          else .error (.located u.pos (.missing ';' u.lexeme))

def statementsWithin : Nat → Parser (List Statement)
  | 0, ts => statements (expressionWithin 0) (block none) ts ts
  | room + 1, ts =>
    statements (expressionWithin (room + 1)) (block (some (statementsWithin room))) ts ts

def programWithin (room : Nat) (ts : List Token) : Except SyntaxError (List Statement) := do
  let (items, rest) ← statementsWithin room ts
  match rest with
  | [] => return items
  | t :: _ => .error (unexpected t)

def soleExpressionWithin (room : Nat) (ts : List Token) : Except SyntaxError Expr := do
  let (e, rest) ← expressionWithin room ts
  match ((next? .semicolon rest).map (·.2)).getD rest with
  | [] => return e
  | t :: _ => .error (unexpected t)

end Parse

def parseProgram (ts : List Token) : Except SyntaxError (List Statement) :=
  Parse.programWithin maxNesting ts

def parseExpression (ts : List Token) : Except SyntaxError Expr :=
  Parse.soleExpressionWithin maxNesting ts

def readProgram (source : String) : Except SyntaxError (List Statement) := do
  parseProgram (← significantTokens source)

def readExpression (source : String) : Except SyntaxError Expr := do
  parseExpression (← significantTokens source)

end CalcScript
