import LogoServer.SyntaxError
import LogoServer.Tree.Basic

/-! Tokens, errors and trees with their places moved. -/
namespace LogoServer

/-- The place so many lines further down. -/
def Position.down (lines : Nat) (p : Position) : Position :=
  ⟨p.line + lines, p.column⟩

section Move

variable (move : Position → Position)

def Token.relocate (t : Token) : Token :=
  { t with position := move t.position }

def SyntaxError.relocate (e : SyntaxError) : SyntaxError :=
  { e with position := move e.position }

@[simp] theorem Token.toLexeme_relocate (t : Token) : (t.relocate move).toLexeme = t.toLexeme := rfl

mutual
def Datum.relocate : Datum → Datum
  | .number t => .number (t.relocate move)
  | .word t => .word (t.relocate move)
  | .atom t => .atom (t.relocate move)
  | .list items => .list (Datum.relocateAll items)

def Datum.relocateAll : List Datum → List Datum
  | [] => []
  | item :: items => item.relocate :: Datum.relocateAll items
end

mutual
def Expr.relocate : Expr → Expr
  | .number t => .number (t.relocate move)
  | .word t => .word (t.relocate move)
  | .reference t => .reference (t.relocate move)
  | .list items => .list (Datum.relocateAll move items)
  | .query keyword inputs => .query (keyword.relocate move) (Expr.relocateAll inputs)
  | .binary left operator right => .binary left.relocate (operator.relocate move) right.relocate
  | .group inner => .group inner.relocate
  | .missing => .missing

def Expr.relocateAll : List Expr → List Expr
  | [] => []
  | e :: es => e.relocate :: Expr.relocateAll es
end

mutual
def Argument.relocate : Argument → Argument
  | .expr value => .expr (value.relocate move)
  | .block body => .block (Statement.relocateAll body)

def Argument.relocateAll : List Argument → List Argument
  | [] => []
  | a :: as => a.relocate :: Argument.relocateAll as

def Statement.relocate : Statement → Statement
  | .command keyword arguments =>
    .command (keyword.relocate move) (Argument.relocateAll arguments)
  | .setPosition keyword target value =>
    .setPosition (keyword.relocate move) (target.map (Token.relocate move)) (value.relocate move)
  | .definition form keyword name parameters body closing =>
    .definition form (keyword.relocate move) (name.map (Token.relocate move))
      (parameters.map (Token.relocate move)) (Statement.relocateAll body)
      (closing.map (Token.relocate move))
  | .binding form keyword name value =>
    .binding form (keyword.relocate move) (name.map (Token.relocate move)) (value.relocate move)
  | .loop form keyword counter bounds body =>
    .loop form (keyword.relocate move) (counter.map (Token.relocate move))
      (Expr.relocateAll move bounds) (Statement.relocateAll body)
  | .call name inputs => .call (name.relocate move) (Expr.relocateAll move inputs)

def Statement.relocateAll : List Statement → List Statement
  | [] => []
  | s :: ss => s.relocate :: Statement.relocateAll ss
end

theorem Datum.relocateAll_eq_map (items : List Datum) :
    relocateAll move items = items.map (relocate move) := by
  induction items with
  | nil => rfl
  | cons item items ih => rw [relocateAll, ih, List.map_cons]

theorem Expr.relocateAll_eq_map (es : List Expr) : relocateAll move es = es.map (relocate move) := by
  induction es with
  | nil => rfl
  | cons e es ih => rw [relocateAll, ih, List.map_cons]

theorem Argument.relocateAll_eq_map (as : List Argument) :
    relocateAll move as = as.map (relocate move) := by
  induction as with
  | nil => rfl
  | cons a as ih => rw [relocateAll, ih, List.map_cons]

theorem Statement.relocateAll_eq_map (ss : List Statement) :
    relocateAll move ss = ss.map (relocate move) := by
  induction ss with
  | nil => rfl
  | cons s ss ih => rw [relocateAll, ih, List.map_cons]

end Move

section Twice

variable (move move' : Position → Position)

theorem Token.relocate_relocate (t : Token) :
    (t.relocate move).relocate move' = t.relocate (move' ∘ move) := rfl

theorem Token.map_relocate_relocate (t : Option Token) :
    (t.map (relocate move)).map (relocate move') = t.map (relocate (move' ∘ move)) := by
  cases t <;> rfl

mutual
theorem Datum.relocate_relocate : (item : Datum) →
    (item.relocate move).relocate move' = item.relocate (move' ∘ move)
  | .number _ | .word _ | .atom _ => rfl
  | .list items => by simp only [Datum.relocate, Datum.relocateAll_relocateAll items]

theorem Datum.relocateAll_relocateAll : (items : List Datum) →
    Datum.relocateAll move' (Datum.relocateAll move items) =
      Datum.relocateAll (move' ∘ move) items
  | [] => rfl
  | item :: items => by
    simp only [Datum.relocateAll, item.relocate_relocate, Datum.relocateAll_relocateAll items]
end

mutual
theorem Expr.relocate_relocate : (e : Expr) →
    (e.relocate move).relocate move' = e.relocate (move' ∘ move)
  | .number _ | .word _ | .reference _ | .missing => rfl
  | .list items => by simp only [Expr.relocate, Datum.relocateAll_relocateAll]
  | .query keyword inputs => by
    simp only [Expr.relocate, Token.relocate_relocate, Expr.relocateAll_relocateAll inputs]
  | .binary left operator right => by
    simp only [Expr.relocate, Token.relocate_relocate, left.relocate_relocate,
      right.relocate_relocate]
  | .group inner => by simp only [Expr.relocate, inner.relocate_relocate]

theorem Expr.relocateAll_relocateAll : (es : List Expr) →
    Expr.relocateAll move' (Expr.relocateAll move es) = Expr.relocateAll (move' ∘ move) es
  | [] => rfl
  | e :: es => by
    simp only [Expr.relocateAll, e.relocate_relocate, Expr.relocateAll_relocateAll es]
end

mutual
theorem Argument.relocate_relocate : (a : Argument) →
    (a.relocate move).relocate move' = a.relocate (move' ∘ move)
  | .expr value => by simp only [Argument.relocate, value.relocate_relocate]
  | .block body => by simp only [Argument.relocate, Statement.relocateAll_relocateAll body]

theorem Argument.relocateAll_relocateAll : (as : List Argument) →
    Argument.relocateAll move' (Argument.relocateAll move as) =
      Argument.relocateAll (move' ∘ move) as
  | [] => rfl
  | a :: as => by
    simp only [Argument.relocateAll, a.relocate_relocate, Argument.relocateAll_relocateAll as]

/-- Moving the places of a tree twice moves them by one move after the other. -/
theorem Statement.relocate_relocate : (s : Statement) →
    (s.relocate move).relocate move' = s.relocate (move' ∘ move)
  | .command keyword arguments => by
    simp only [Statement.relocate, Token.relocate_relocate,
      Argument.relocateAll_relocateAll arguments]
  | .setPosition keyword target value => by
    simp only [Statement.relocate, Token.relocate_relocate, Token.map_relocate_relocate,
      value.relocate_relocate]
  | .definition form keyword name parameters body closing => by
    have hparameters : (parameters.map (Token.relocate move)).map (Token.relocate move') =
        parameters.map (Token.relocate (move' ∘ move)) := List.map_map
    simp only [Statement.relocate, Token.relocate_relocate, Token.map_relocate_relocate,
      hparameters, Statement.relocateAll_relocateAll body]
  | .binding form keyword name value => by
    simp only [Statement.relocate, Token.relocate_relocate, Token.map_relocate_relocate,
      value.relocate_relocate]
  | .loop form keyword counter bounds body => by
    simp only [Statement.relocate, Token.relocate_relocate, Token.map_relocate_relocate,
      Expr.relocateAll_relocateAll, Statement.relocateAll_relocateAll body]
  | .call name inputs => by
    simp only [Statement.relocate, Token.relocate_relocate, Expr.relocateAll_relocateAll]

theorem Statement.relocateAll_relocateAll : (ss : List Statement) →
    Statement.relocateAll move' (Statement.relocateAll move ss) =
      Statement.relocateAll (move' ∘ move) ss
  | [] => rfl
  | s :: ss => by
    simp only [Statement.relocateAll, s.relocate_relocate, Statement.relocateAll_relocateAll ss]
end

end Twice

end LogoServer
