import CalcScript.Proofs.Printing

set_option autoImplicit false

namespace CalcScript

section

variable (shift : Position → Position)

def Token.move (t : Token) : Token := { t with pos := shift t.pos }

def Identifier.move (i : Identifier) : Identifier := { i with pos := shift i.pos }

def SyntaxError.move : SyntaxError → SyntaxError
  | .incomplete => .incomplete
  | .located pos fault => .located (shift pos) fault

mutual

def Expr.move : Expr → Expr
  | .literal v pos => .literal v (shift pos)
  | .variable x => .variable (x.move shift)
  | .unary op e pos => .unary op e.move (shift pos)
  | .binary op l r pos => .binary op l.move r.move (shift pos)
  | .logical op l r pos => .logical op l.move r.move (shift pos)
  | .assignment x e => .assignment (x.move shift) e.move
  | .comparison es ops pos => .comparison (Expr.moveAll es) ops (shift pos)
  | .call f es => .call (f.move shift) (Expr.moveAll es)

def Expr.moveAll : List Expr → List Expr
  | [] => []
  | e :: es => e.move :: Expr.moveAll es

end

mutual

def Statement.move : Statement → Statement
  | .expression e => .expression (e.move shift)
  | .branch c body otherwise pos =>
    .branch (c.move shift) (Statement.moveAll body) (Statement.moveElse otherwise) (shift pos)
  | .loop c body pos => .loop (c.move shift) (Statement.moveAll body) (shift pos)
  | .function f params body =>
    .function (f.move shift) (params.map (.move shift)) (Statement.moveAll body)
  | .control kind none pos => .control kind none (shift pos)
  | .control kind (some e) pos => .control kind (some (e.move shift)) (shift pos)

def Statement.moveAll : List Statement → List Statement
  | [] => []
  | s :: ss => s.move :: Statement.moveAll ss

def Statement.moveElse : Option (List Statement) → Option (List Statement)
  | none => none
  | some body => some (Statement.moveAll body)

end

end

mutual

def Expr.places : Expr → List Position
  | .literal _ pos => [pos]
  | .variable x => [x.pos]
  | .unary _ e pos => pos :: e.places
  | .binary _ l r pos => pos :: (l.places ++ r.places)
  | .logical _ l r pos => pos :: (l.places ++ r.places)
  | .assignment x e => x.pos :: e.places
  | .comparison es _ pos => pos :: Expr.allPlaces es
  | .call f es => f.pos :: Expr.allPlaces es

def Expr.allPlaces : List Expr → List Position
  | [] => []
  | e :: es => e.places ++ Expr.allPlaces es

end

mutual

def Statement.places : Statement → List Position
  | .expression e => e.places
  | .branch c body otherwise pos =>
    pos :: (c.places ++ (Statement.allPlaces body ++ Statement.elsePlaces otherwise))
  | .loop c body pos => pos :: (c.places ++ Statement.allPlaces body)
  | .function f params body => f.pos :: (params.map (·.pos) ++ Statement.allPlaces body)
  | .control _ none pos => [pos]
  | .control _ (some e) pos => pos :: e.places

def Statement.allPlaces : List Statement → List Position
  | [] => []
  | s :: ss => s.places ++ Statement.allPlaces ss

def Statement.elsePlaces : Option (List Statement) → List Position
  | none => []
  | some body => Statement.allPlaces body

end

section

variable (shift : Position → Position)

mutual

theorem Expr.places_move : ∀ e : Expr, (e.move shift).places = e.places.map shift
  | .literal _ _ | .variable _ => rfl
  | .unary _ e _ | .assignment _ e => by simp [move, places, Identifier.move, e.places_move]
  | .binary _ l r _ | .logical _ l r _ => by
    simp [move, places, l.places_move, r.places_move]
  | .comparison es _ _ | .call _ es => by
    simp [move, places, Identifier.move, Expr.allPlaces_move es]

theorem Expr.allPlaces_move : ∀ es : List Expr,
    allPlaces (moveAll shift es) = (allPlaces es).map shift
  | [] => rfl
  | e :: es => by simp [moveAll, allPlaces, e.places_move, Expr.allPlaces_move es]

end

mutual

theorem Statement.places_move : ∀ s : Statement, (s.move shift).places = s.places.map shift
  | .expression e => e.places_move shift
  | .branch c body otherwise _ => by
    simp [move, places, c.places_move, Statement.allPlaces_move body,
      Statement.elsePlaces_move otherwise]
  | .loop c body _ => by simp [move, places, c.places_move, Statement.allPlaces_move body]
  | .function _ params body => by
    simp [move, places, Identifier.move, Statement.allPlaces_move body]
  | .control _ none _ => rfl
  | .control _ (some e) _ => by simp [move, places, e.places_move]

theorem Statement.allPlaces_move : ∀ ss : List Statement,
    allPlaces (moveAll shift ss) = (allPlaces ss).map shift
  | [] => rfl
  | s :: ss => by simp [moveAll, allPlaces, s.places_move, Statement.allPlaces_move ss]

theorem Statement.elsePlaces_move : ∀ o : Option (List Statement),
    elsePlaces (moveElse shift o) = (elsePlaces o).map shift
  | none => rfl
  | some body => Statement.allPlaces_move body

end

end

mutual

theorem Expr.unplaced_eq_move : ∀ e : Expr, e.unplaced = e.move fun _ => default
  | .literal _ _ | .variable _ => rfl
  | .unary _ e _ | .assignment _ e => by
    simp [unplaced, move, Identifier.unplaced, Identifier.move, e.unplaced_eq_move]
  | .binary _ l r _ | .logical _ l r _ => by
    simp [unplaced, move, l.unplaced_eq_move, r.unplaced_eq_move]
  | .comparison es _ _ | .call _ es => by
    simp [unplaced, move, Identifier.unplaced, Identifier.move, Expr.unplacedAll_eq_moveAll es]

theorem Expr.unplacedAll_eq_moveAll : ∀ es : List Expr,
    unplacedAll es = moveAll (fun _ => default) es
  | [] => rfl
  | e :: es => by simp [unplacedAll, moveAll, e.unplaced_eq_move, Expr.unplacedAll_eq_moveAll es]

end

mutual

theorem Statement.unplaced_eq_move : ∀ s : Statement, s.unplaced = s.move fun _ => default
  | .expression e => by simp [unplaced, move, e.unplaced_eq_move]
  | .branch c body otherwise _ => by
    simp [unplaced, move, c.unplaced_eq_move, Statement.unplacedAll_eq_moveAll body,
      Statement.unplacedElse_eq_moveElse otherwise]
  | .loop c body _ => by
    simp [unplaced, move, c.unplaced_eq_move, Statement.unplacedAll_eq_moveAll body]
  | .function _ params body => by
    simp [unplaced, move, Identifier.unplaced, Identifier.move,
      Statement.unplacedAll_eq_moveAll body]
  | .control _ none _ => rfl
  | .control _ (some e) _ => by simp [unplaced, move, e.unplaced_eq_move]

theorem Statement.unplacedAll_eq_moveAll : ∀ ss : List Statement,
    unplacedAll ss = moveAll (fun _ => default) ss
  | [] => rfl
  | s :: ss => by
    simp [unplacedAll, moveAll, s.unplaced_eq_move, Statement.unplacedAll_eq_moveAll ss]

theorem Statement.unplacedElse_eq_moveElse : ∀ o : Option (List Statement),
    unplacedElse o = moveElse (fun _ => default) o
  | none => rfl
  | some body => congrArg some (Statement.unplacedAll_eq_moveAll body)

end

theorem Expr.moveAll_eq_map (shift : Position → Position) (es : List Expr) :
    Expr.moveAll shift es = es.map (.move shift) := by
  induction es with
  | nil => rfl
  | cons e es ih => rw [moveAll, ih, List.map_cons]

end CalcScript
