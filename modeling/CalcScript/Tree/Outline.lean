import CalcScript.Text.Hidden
import CalcScript.Tree

set_option autoImplicit false

namespace CalcScript

inductive Outline where
  | word (text : String)
  | list (items : List Outline)
  | wrapped (name : String) (item : Outline)
  | record (name : String) (fields : List Outline)
  | field (label : String) (value : Outline)

namespace Outline

mutual

def appendTo (before indent : String) : Outline → String
  | .word text => before ++ text
  | .list [] => before ++ "[]"
  | .list items => appendAllTo (before ++ "[\n") (indent ++ "    ") items ++ indent ++ "]"
  | .wrapped name item =>
    appendTo (before ++ name ++ "(\n" ++ indent ++ "    ") (indent ++ "    ") item ++
      ",\n" ++ indent ++ ")"
  | .record name fields =>
    appendAllTo (before ++ name ++ " \x7b\n") (indent ++ "    ") fields ++ indent ++ "\x7d"
  | .field label value => appendTo (before ++ label ++ ": ") indent value

def appendAllTo (before indent : String) : List Outline → String
  | [] => before
  | o :: rest => appendAllTo (appendTo (before ++ indent) indent o ++ ",\n") indent rest

end

def text (o : Outline) : String := appendTo "" "" o

def ofOption : Option Outline → Outline
  | none => .word "None"
  | some o => .wrapped "Some" o

def ofPosition (p : Position) : Outline :=
  .record "Pos" [.field "line" (.word (toString p.line)),
    .field "column" (.word (toString p.column))]

def position (p : Position) : Outline := .field "pos" (ofPosition p)

def ofIdentifier (i : Identifier) : Outline :=
  .record "Ident" [.field "name" (.word (Text.quoted i.name)), position i.pos]

def ofLiteral : Literal → Outline
  | .int n => .wrapped "Int" (.word (toString n.toInt))
  | .float x => .wrapped "Float" (.word (FloatStyle.literal.text x))
  | .string s => .wrapped "Str" (.word (Text.quoted s))

def ofUnaryOp : UnaryOp → Outline
  | .not => .word "Bang"
  | .negate => .word "Minus"

def ofBinaryOp : BinaryOp → Outline
  | .add => .word "Plus"
  | .subtract => .word "Minus"
  | .multiply => .word "Star"
  | .divide => .word "Slash"
  | .floorDivide => .word "SlashSlash"
  | .modulo => .word "Percent"
  | .power => .word "Caret"

def ofComparisonOp : ComparisonOp → Outline
  | .equal => .word "EqualEqual"
  | .notEqual => .word "BangEqual"
  | .greater => .word "Greater"
  | .greaterEqual => .word "GreaterEqual"
  | .less => .word "Less"
  | .lessEqual => .word "LessEqual"

def ofLogicalOp : LogicalOp → Outline
  | .and => .word "And"
  | .or => .word "Or"

def ofControlKind : ControlKind → Outline
  | .breakLoop => .word "Break"
  | .continueLoop => .word "Continue"
  | .returnValue => .word "Return"

mutual

def ofExpr : Expr → Outline
  | .literal value pos => .record "Literal" [.field "value" (ofLiteral value), position pos]
  | .variable i => .wrapped "Ident" (ofIdentifier i)
  | .unary op e pos =>
    .record "Unary" [.field "op" (ofUnaryOp op), .field "expr" (ofExpr e), position pos]
  | .binary op lhs rhs pos =>
    .record "Binary" [.field "lhs" (ofExpr lhs), .field "op" (ofBinaryOp op),
      .field "rhs" (ofExpr rhs), position pos]
  | .logical op lhs rhs pos =>
    .record "Logical" [.field "lhs" (ofExpr lhs), .field "op" (ofLogicalOp op),
      .field "rhs" (ofExpr rhs), position pos]
  | .assignment i e =>
    .record "Assignment" [.field "target" (ofIdentifier i), .field "value" (ofExpr e),
      position i.pos]
  | .comparison es ops pos =>
    .record "Comparison" [.field "operands" (.list (ofExprs es)),
      .field "ops" (.list (ops.map ofComparisonOp)), position pos]
  | .call i es =>
    .record "Call" [.field "callee" (ofIdentifier i), .field "args" (.list (ofExprs es)),
      position i.pos]

def ofExprs : List Expr → List Outline
  | [] => []
  | e :: es => ofExpr e :: ofExprs es

end

mutual

def ofStatement : Statement → Outline
  | .expression e => .wrapped "ExprStmt" (ofExpr e)
  | .branch condition body none pos =>
    .record "IfStmt" [.field "condition" (ofExpr condition),
      .field "then_body" (.list (ofStatements body)), .field "else_body" (ofOption none),
      position pos]
  | .branch condition body (some otherwise) pos =>
    .record "IfStmt" [.field "condition" (ofExpr condition),
      .field "then_body" (.list (ofStatements body)),
      .field "else_body" (ofOption (some (.list (ofStatements otherwise)))), position pos]
  | .loop condition body pos =>
    .record "WhileStmt" [.field "condition" (ofExpr condition),
      .field "body" (.list (ofStatements body)), position pos]
  | .function name params body =>
    .wrapped "Function"
      (.record "Function" [.field "ident" (ofIdentifier name),
        .field "params" (.list (params.map ofIdentifier)),
        .field "body" (.list (ofStatements body))])
  | .control kind value pos =>
    .record "ControlFlow" [.field "kind" (ofControlKind kind),
      .field "value" (ofOption (value.map ofExpr)), position pos]

def ofStatements : List Statement → List Outline
  | [] => []
  | s :: rest => ofStatement s :: ofStatements rest

end

def ofProgram (program : List Statement) : Outline :=
  .record "Source" [.field "items" (.list (ofStatements program))]

end Outline

end CalcScript
