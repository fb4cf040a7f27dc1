import CalcScript.Proofs.WellFormed

set_option autoImplicit false

namespace CalcScript

def Identifier.unplaced (i : Identifier) : Identifier := { i with pos := default }

mutual

def Expr.unplaced : Expr → Expr
  | .literal v _ => .literal v default
  | .variable x => .variable x.unplaced
  | .unary op e _ => .unary op e.unplaced default
  | .binary op l r _ => .binary op l.unplaced r.unplaced default
  | .logical op l r _ => .logical op l.unplaced r.unplaced default
  | .assignment x e => .assignment x.unplaced e.unplaced
  | .comparison es ops _ => .comparison (Expr.unplacedAll es) ops default
  | .call f es => .call f.unplaced (Expr.unplacedAll es)

def Expr.unplacedAll : List Expr → List Expr
  | [] => []
  | e :: es => e.unplaced :: Expr.unplacedAll es

end

mutual

def Statement.unplaced : Statement → Statement
  | .expression e => .expression e.unplaced
  | .branch c body otherwise _ =>
    .branch c.unplaced (Statement.unplacedAll body) (Statement.unplacedElse otherwise) default
  | .loop c body _ => .loop c.unplaced (Statement.unplacedAll body) default
  | .function f params body =>
    .function f.unplaced (params.map Identifier.unplaced) (Statement.unplacedAll body)
  | .control kind none _ => .control kind none default
  | .control kind (some e) _ => .control kind (some e.unplaced) default

def Statement.unplacedAll : List Statement → List Statement
  | [] => []
  | s :: ss => s.unplaced :: Statement.unplacedAll ss

def Statement.unplacedElse : Option (List Statement) → Option (List Statement)
  | none => none
  | some body => some (Statement.unplacedAll body)

end

def Token.bare (t : Token) : Token :=
  { t with pos := default, lexeme := if t.kind = .identifier then t.lexeme else "" }

structure Printout where
  tokens : List Token
  depth : Nat

namespace Printout

def nil : Printout := ⟨[], 0⟩

def single (kind : TokenKind) (lexeme : String) (literal : Option Literal) : Printout :=
  ⟨[⟨kind, default, lexeme, literal⟩], 0⟩

def sign (kind : TokenKind) : Printout := single kind "" none

def name (x : Identifier) : Printout := single .identifier x.name none

instance : Append Printout := ⟨fun p q => ⟨p.tokens ++ q.tokens, max p.depth q.depth⟩⟩

def inside (p : Printout) : Printout := { p with depth := p.depth + 1 }

def group (p : Printout) : Printout := sign .leftParen ++ (p.inside ++ sign .rightParen)

def braces (p : Printout) : Printout := sign .leftBrace ++ (p.inside ++ sign .rightBrace)

def grouped : Nat → Printout → Printout
  | 0, p => p
  | pairs + 1, p => (grouped pairs p).group

end Printout

/-- The choices that a printer has: how many needless pairs of parentheses to put around the
expression at a path, whether a semicolon that may be left out stands behind the statement at a
path, and whether the `else` at a path is an `else if` when there is only a branch in it. -/
structure Style where
  parens : List Nat → Nat
  semicolons : List Nat → Bool
  chained : List Nat → Bool

def Style.below (style : Style) (i : Nat) : Style where
  parens path := style.parens (i :: path)
  semicolons path := style.semicolons (i :: path)
  chained path := style.chained (i :: path)

def Style.plain : Style where
  parens _ := 0
  semicolons _ := false
  chained _ := false

open Printout

def Literal.kind : Literal → TokenKind
  | .int _ => .integer
  | .float _ => .float
  | .string _ => .string

def UnaryOp.kind : UnaryOp → TokenKind
  | .not => .bang
  | .negate => .binary .subtract

namespace Expr

def level : Expr → Level
  | .unary _ _ _ => .operand
  | .binary op _ _ _ => op.level
  | .logical op _ _ _ => op.level
  | .comparison _ _ _ => .comparison
  | _ => .primary

def isAssignment : Expr → Bool
  | .assignment _ _ => true
  | _ => false

-- Whether an expression can stand without parentheses where a level is asked for and where it is
-- the last thing of all expressions around it, or is not.
def fits (e : Expr) (level : Level) (last : Bool) : Bool :=
  level.rank ≤ e.level.rank && (last || !e.isAssignment)

def enclose (style : Style) (e : Expr) (level : Level) (last : Bool) (bare : Bool → Printout) :
    Printout :=
  match style.parens [] + (if e.fits level last then 0 else 1) with
  | 0 => bare last
  | pairs + 1 => grouped (pairs + 1) (bare true)

mutual

def bare (style : Style) : Expr → Bool → Printout
  | .literal v _, _ => single v.kind "" (some v)
  | .variable x, _ => name x
  | .unary op e _, last =>
    sign op.kind ++ (enclose (style.below 0) e .operand last (bare (style.below 0) e)).inside
  | .binary .power l r _, last =>
    enclose (style.below 0) l .primary false (bare (style.below 0) l) ++ (sign (.binary .power) ++
      (enclose (style.below 1) r .operand last (bare (style.below 1) r)).inside)
  | .binary op l r _, last =>
    enclose (style.below 0) l op.level false (bare (style.below 0) l) ++ (sign (.binary op) ++
      enclose (style.below 1) r op.level.tighter last (bare (style.below 1) r))
  | .logical op l r _, last =>
    enclose (style.below 0) l op.level false (bare (style.below 0) l) ++ (sign (.logical op) ++
      enclose (style.below 1) r op.level.tighter last (bare (style.below 1) r))
  | .assignment x e, _ =>
    name x ++ (sign .assign ++
      (enclose (style.below 0) e .disjunction true (bare (style.below 0) e)).inside)
  | .comparison es ops _, last => chain style 0 last es ops
  | .call f es, _ =>
    name f ++ (sign .leftParen ++
      ((if es.isEmpty then nil else (arguments style 0 es).inside) ++ sign .rightParen))

def chain (style : Style) (i : Nat) (last : Bool) : List Expr → List ComparisonOp → Printout
  | [], _ => nil
  | e :: es, ops =>
    enclose (style.below i) e .term (last && es.isEmpty) (bare (style.below i) e) ++
      match ops with
      | [] => nil
      | op :: ops => sign (.comparison op) ++ chain style (i + 1) last es ops

def arguments (style : Style) (i : Nat) : List Expr → Printout
  | [] => nil
  | e :: es =>
    enclose (style.below i) e .disjunction true (bare (style.below i) e) ++
      if es.isEmpty then nil else sign .comma ++ arguments style (i + 1) es

end

def print (style : Style) (e : Expr) : Printout :=
  enclose style e .disjunction true (bare style e)

end Expr

def params : List Identifier → Printout
  | [] => nil
  | [x] => name x
  | x :: xs => name x ++ (sign .comma ++ params xs)

namespace Statement

def endsInBlock : Statement → Bool
  | .branch _ _ _ _ | .loop _ _ _ | .function _ _ _ => true
  | _ => false

def isBranch : Statement → Bool
  | .branch _ _ _ _ => true
  | _ => false

-- The semicolon behind a statement. Only one without a block needs it, and only in front of
-- another.
def mark (style : Style) (s : Statement) (last : Bool) : Printout :=
  if style.semicolons [] || !(s.endsInBlock || last) then sign .semicolon else nil

mutual

def print (style : Style) (word : TokenKind) : Statement → Printout
  | .expression e => e.print (style.below 0)
  | .branch c body otherwise _ =>
    sign word ++ (c.print (style.below 0) ++ ((printAll (style.below 1) 0 body).braces ++
      printElse (style.below 2) otherwise))
  | .loop c body _ =>
    sign (.keyword .loop) ++ (c.print (style.below 0) ++ (printAll (style.below 1) 0 body).braces)
  | .function f xs body =>
    sign (.keyword .function) ++ (name f ++ (sign .leftParen ++ (params xs ++ (sign .rightParen ++
      (printAll style 0 body).braces))))
  | .control kind none _ => sign (.keyword (.control kind))
  | .control kind (some e) _ => sign (.keyword (.control kind)) ++ e.print (style.below 0)

def printAll (style : Style) (i : Nat) : List Statement → Printout
  | [] => nil
  | s :: ss =>
    s.print (style.below i) (.keyword .branch) ++
      (mark (style.below i) s ss.isEmpty ++ printAll style (i + 1) ss)

def printElse (style : Style) : Option (List Statement) → Printout
  | none => nil
  | some body =>
    match printElseIf style body with
    | some written => written
    | none => sign (.keyword .otherwise) ++ (printAll style 0 body).braces

def printElseIf (style : Style) : List Statement → Option Printout
  | [s] => if style.chained [] && s.isBranch then some (s.print (style.below 0) .elseIf) else none
  | _ => none

end

end Statement

end CalcScript
