import CalcScript.Token

set_option autoImplicit false

namespace CalcScript

structure Identifier where
  name : String
  pos : Position
deriving DecidableEq

def globalSigil : Char := '$'

def isGlobalName (name : String) : Bool := name.toList.head? = some globalSigil

def Identifier.isGlobal (i : Identifier) : Bool := isGlobalName i.name

/-- Operators of one level that follow each other lean to the left. A chain of comparisons is one
node, with one more operand than operators wherever a program is read from a text. -/
inductive Expr where
  | literal (value : Literal) (pos : Position)
  | variable (name : Identifier)
  | unary (op : UnaryOp) (operand : Expr) (pos : Position)
  | binary (op : BinaryOp) (lhs rhs : Expr) (pos : Position)
  | logical (op : LogicalOp) (lhs rhs : Expr) (pos : Position)
  | assignment (target : Identifier) (value : Expr)
  | comparison (operands : List Expr) (ops : List ComparisonOp) (pos : Position)
  | call (callee : Identifier) (arguments : List Expr)

/-- An `else if` is an `else` whose body is one branch. -/
inductive Statement where
  | expression (e : Expr)
  | branch (condition : Expr) (body : List Statement) (otherwise : Option (List Statement))
      (pos : Position)
  | loop (condition : Expr) (body : List Statement) (pos : Position)
  | function (name : Identifier) (params : List Identifier) (body : List Statement)
  | control (kind : ControlKind) (value : Option Expr) (pos : Position)

structure Function where
  name : Identifier
  params : List Identifier
  body : List Statement

def Function.text (f : Function) : String :=
  "func " ++ f.name.name ++ "(" ++ ", ".intercalate (f.params.map (·.name)) ++ ")"

mutual

-- Equality of trees with all positions, where the two zeros are alike.
def Expr.same : Expr → Expr → Bool
  | .literal v p, .literal w q => v.same w && p == q
  | .variable x, .variable y => x == y
  | .unary o e p, .unary o' e' p' => o == o' && e.same e' && p == p'
  | .binary o l r p, .binary o' l' r' p' => o == o' && l.same l' && r.same r' && p == p'
  | .logical o l r p, .logical o' l' r' p' => o == o' && l.same l' && r.same r' && p == p'
  | .assignment x e, .assignment x' e' => x == x' && e.same e'
  | .comparison es os p, .comparison es' os' p' => Expr.sameAll es es' && os == os' && p == p'
  | .call f es, .call f' es' => f == f' && Expr.sameAll es es'
  | _, _ => false

def Expr.sameAll : List Expr → List Expr → Bool
  | [], [] => true
  | e :: es, f :: fs => e.same f && Expr.sameAll es fs
  | _, _ => false

end

mutual

def Statement.same : Statement → Statement → Bool
  | .expression e, .expression e' => e.same e'
  | .branch c b none p, .branch c' b' none p' => c.same c' && Statement.sameAll b b' && p == p'
  | .branch c b (some o) p, .branch c' b' (some o') p' =>
    c.same c' && Statement.sameAll b b' && Statement.sameAll o o' && p == p'
  | .loop c b p, .loop c' b' p' => c.same c' && Statement.sameAll b b' && p == p'
  | .function f ps b, .function f' ps' b' => f == f' && ps == ps' && Statement.sameAll b b'
  | .control k none p, .control k' none p' => k == k' && p == p'
  | .control k (some e) p, .control k' (some e') p' => k == k' && e.same e' && p == p'
  | _, _ => false

def Statement.sameAll : List Statement → List Statement → Bool
  | [], [] => true
  | s :: ss, t :: ts => s.same t && Statement.sameAll ss ts
  | _, _ => false

end

def Function.same (f g : Function) : Bool :=
  f.name == g.name && f.params == g.params && Statement.sameAll f.body g.body

end CalcScript
