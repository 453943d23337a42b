import Awk.Syntax.Prune

/-!
# Trees without places

The shape of an expression is what is left of it when its literals are folded and the places of its nodes and tokens are
forgotten.  The shape of a node is made of the shapes of its children.
-/

namespace Awk

def Span.nowhere : Span := ⟨0, 0, 0, 0⟩

def Token.unplaced (token : Token) : Token := { token with span := .nowhere }

mutual

def Expr.unplaced : Expr → Expr
  | .number token => .number token.unplaced
  | .string token => .string token.unplaced
  | .literal v => .literal v
  | .regex token => .regex token.unplaced
  | .group _ inner => .group .nowhere inner.unplaced
  | .lvalue target => .lvalue target.unplaced
  | .assign _ target op token right => .assign .nowhere target.unplaced op token.unplaced right.unplaced
  | .conditional _ test yes no => .conditional .nowhere test.unplaced yes.unplaced no.unplaced
  | .logical _ op left right => .logical .nowhere op left.unplaced right.unplaced
  | .member _ subscripts _ array => .member .nowhere (unplacedAll subscripts) none array.unplaced
  | .matching _ left negated token right => .matching .nowhere left.unplaced negated token.unplaced right.unplaced
  | .compare _ left op token right => .compare .nowhere left.unplaced op token.unplaced right.unplaced
  | .concat _ parts => .concat .nowhere (unplacedAll parts)
  | .arith _ left op token right => .arith .nowhere left.unplaced op token.unplaced right.unplaced
  | .sign _ op token operand => .sign .nowhere op token.unplaced operand.unplaced
  | .power _ base exponent => .power .nowhere base.unplaced exponent.unplaced
  | .preStep _ op token target => .preStep .nowhere op token.unplaced target.unplaced
  | .postStep _ target op token => .postStep .nowhere target.unplaced op token.unplaced
  | .call _ function args => .call .nowhere function.unplaced (unplacedAll args)
  | .builtin _ function token args => .builtin .nowhere function token.unplaced (unplacedAll args)
  | .getline _ target => .getline .nowhere (unplacedTarget target)
  | .getlineFile _ target file => .getlineFile .nowhere (unplacedTarget target) file.unplaced
  | .getlineCommand _ command target => .getlineCommand .nowhere command.unplaced (unplacedTarget target)

def LValue.unplaced : LValue → LValue
  | .var name => .var name.unplaced
  | .index _ array subscripts _ => .index .nowhere array.unplaced (unplacedAll subscripts) .nowhere
  | .field _ index => .field .nowhere index.unplaced

def unplacedAll : List Expr → List Expr
  | [] => []
  | e :: es => e.unplaced :: unplacedAll es

def unplacedTarget : Option LValue → Option LValue
  | none => none
  | some target => some target.unplaced

end

/-- An expression with its literals folded and without its places. -/
def Expr.shape (e : Expr) : Except Fault Expr := e.prune.map Expr.unplaced

def LValue.shape (target : LValue) : Except Fault LValue := target.prune.map LValue.unplaced

def shapeAll (es : List Expr) : Except Fault (List Expr) := (pruneAll es).map unplacedAll

def shapeTarget (target : Option LValue) : Except Fault (Option LValue) := (pruneTarget target).map unplacedTarget

theorem Token.unplaced_eq {token token' : Token} (hkind : token'.kind = token.kind) (htext : token'.text = token.text) :
    token'.unplaced = token.unplaced := by
  unfold unplaced
  rw [hkind, htext]

theorem Token.kind_eq_of_unplaced_eq {token token' : Token} (h : token'.unplaced = token.unplaced) :
    token'.kind = token.kind := by
  have hkind : token'.unplaced.kind = token.unplaced.kind := by rw [h]
  exact hkind

theorem canonicalToken_unplaced_eq {token token' : Token} (h : token'.unplaced = token.unplaced) :
    (canonicalToken token').unplaced = (canonicalToken token).unplaced := by
  have hkind := Token.kind_eq_of_unplaced_eq h
  unfold canonicalToken
  rw [hkind]
  split
  · exact Token.unplaced_eq rfl rfl
  · exact h

/-! ### Nodes -/

attribute [simp] Expr.prune LValue.prune pruneAll pruneTarget

section Shapes

variable (span : Span) (token : Token) (e left right test yes no base exponent : Expr) (es : List Expr)
  (target : LValue) (target? : Option LValue)

@[simp]
theorem shape_number : (Expr.number token).shape = (literalNumber token.text).map .literal := by
  rw [Expr.shape, Expr.prune]
  cases literalNumber token.text <;> rfl

@[simp]
theorem shape_string : (Expr.string token).shape = .ok (.literal (.str (decodeEscapes token.text))) := by
  rw [Expr.shape, Expr.prune]
  rfl

@[simp]
theorem shape_regex : (Expr.regex token).shape = .ok (.regex token.unplaced) := by
  rw [Expr.shape, Expr.prune]
  rfl

@[simp]
theorem shape_group : (Expr.group span e).shape = e.shape := by
  rw [Expr.shape, Expr.prune, Expr.shape]

@[simp]
theorem shape_lvalue : (Expr.lvalue target).shape = target.shape.map .lvalue := by
  rw [Expr.shape, Expr.prune, LValue.shape]
  cases target.prune <;> rfl

@[simp]
theorem shape_assign (op : AssignOp) :
    (Expr.assign span target op token right).shape =
      (do .ok (.assign .nowhere (← target.shape) op (canonicalToken token).unplaced (← right.shape)) :
        Except Fault Expr) := by
  rw [Expr.shape, Expr.prune, LValue.shape, Expr.shape]
  cases target.prune <;> cases right.prune <;> rfl

@[simp]
theorem shape_conditional :
    (Expr.conditional span test yes no).shape =
      (do .ok (.conditional .nowhere (← test.shape) (← yes.shape) (← no.shape)) : Except Fault Expr) := by
  rw [Expr.shape, Expr.prune, Expr.shape, Expr.shape, Expr.shape]
  cases test.prune <;> cases yes.prune <;> cases no.prune <;> rfl

@[simp]
theorem shape_logical (op : LogicalOp) :
    (Expr.logical span op left right).shape =
      (do .ok (.logical .nowhere op (← left.shape) (← right.shape)) : Except Fault Expr) := by
  rw [Expr.shape, Expr.prune, Expr.shape, Expr.shape]
  cases left.prune <;> cases right.prune <;> rfl

@[simp]
theorem shape_member (at? : Option Span) :
    (Expr.member span es at? token).shape =
      (do .ok (.member .nowhere (← shapeAll es) none token.unplaced) : Except Fault Expr) := by
  rw [Expr.shape, Expr.prune, shapeAll]
  cases pruneAll es <;> rfl

@[simp]
theorem shape_matching (negated : Bool) :
    (Expr.matching span left negated token right).shape =
      (do .ok (.matching .nowhere (← left.shape) negated token.unplaced (← right.shape)) : Except Fault Expr) := by
  rw [Expr.shape, Expr.prune, Expr.shape, Expr.shape]
  cases left.prune <;> cases right.prune <;> rfl

@[simp]
theorem shape_compare (op : CompareOp) :
    (Expr.compare span left op token right).shape =
      (do .ok (.compare .nowhere (← left.shape) op token.unplaced (← right.shape)) : Except Fault Expr) := by
  rw [Expr.shape, Expr.prune, Expr.shape, Expr.shape]
  cases left.prune <;> cases right.prune <;> rfl

@[simp]
theorem shape_concat :
    (Expr.concat span es).shape = (do .ok (.concat .nowhere (← shapeAll es)) : Except Fault Expr) := by
  rw [Expr.shape, Expr.prune, shapeAll]
  cases pruneAll es <;> rfl

@[simp]
theorem shape_arith (op : ArithOp) :
    (Expr.arith span left op token right).shape =
      (do .ok (.arith .nowhere (← left.shape) op token.unplaced (← right.shape)) : Except Fault Expr) := by
  rw [Expr.shape, Expr.prune, Expr.shape, Expr.shape]
  cases left.prune <;> cases right.prune <;> rfl

@[simp]
theorem shape_sign (op : SignOp) :
    (Expr.sign span op token e).shape =
      (do .ok (.sign .nowhere op token.unplaced (← e.shape)) : Except Fault Expr) := by
  rw [Expr.shape, Expr.prune, Expr.shape]
  cases e.prune <;> rfl

@[simp]
theorem shape_power :
    (Expr.power span base exponent).shape =
      (do .ok (.power .nowhere (← base.shape) (← exponent.shape)) : Except Fault Expr) := by
  rw [Expr.shape, Expr.prune, Expr.shape, Expr.shape]
  cases base.prune <;> cases exponent.prune <;> rfl

@[simp]
theorem shape_preStep (op : StepOp) :
    (Expr.preStep span op token target).shape =
      (do .ok (.preStep .nowhere op token.unplaced (← target.shape)) : Except Fault Expr) := by
  rw [Expr.shape, Expr.prune, LValue.shape]
  cases target.prune <;> rfl

@[simp]
theorem shape_postStep (op : StepOp) :
    (Expr.postStep span target op token).shape =
      (do .ok (.postStep .nowhere (← target.shape) op token.unplaced) : Except Fault Expr) := by
  rw [Expr.shape, Expr.prune, LValue.shape]
  cases target.prune <;> rfl

@[simp]
theorem shape_builtin (b : Builtin) :
    (Expr.builtin span b token es).shape =
      (do .ok (.builtin .nowhere b token.unplaced (← shapeAll es)) : Except Fault Expr) := by
  rw [Expr.shape, Expr.prune, shapeAll]
  cases pruneAll es <;> rfl

@[simp]
theorem shape_getline :
    (Expr.getline span target?).shape = (do .ok (.getline .nowhere (← shapeTarget target?)) : Except Fault Expr) := by
  rw [Expr.shape, Expr.prune, shapeTarget]
  cases pruneTarget target? <;> rfl

@[simp]
theorem shape_getlineFile :
    (Expr.getlineFile span target? e).shape =
      (do .ok (.getlineFile .nowhere (← shapeTarget target?) (← e.shape)) : Except Fault Expr) := by
  rw [Expr.shape, Expr.prune, shapeTarget, Expr.shape]
  cases pruneTarget target? <;> cases e.prune <;> rfl

@[simp]
theorem shape_getlineCommand :
    (Expr.getlineCommand span e target?).shape =
      (do .ok (.getlineCommand .nowhere (← e.shape) (← shapeTarget target?)) : Except Fault Expr) := by
  rw [Expr.shape, Expr.prune, shapeTarget, Expr.shape]
  cases e.prune <;> cases pruneTarget target? <;> rfl

@[simp]
theorem shape_var : (LValue.var token).shape = .ok (.var token.unplaced) := by
  rw [LValue.shape, LValue.prune]
  rfl

@[simp]
theorem shape_index (subscriptsAt : Span) :
    (LValue.index span token es subscriptsAt).shape =
      (do .ok (.index .nowhere token.unplaced (← shapeAll es) .nowhere) : Except Fault LValue) := by
  rw [LValue.shape, LValue.prune, shapeAll]
  cases pruneAll es <;> rfl

@[simp]
theorem shape_field :
    (LValue.field span e).shape = (do .ok (.field .nowhere (← e.shape)) : Except Fault LValue) := by
  rw [LValue.shape, LValue.prune, Expr.shape]
  cases e.prune <;> rfl

@[simp]
theorem shapeAll_nil : shapeAll [] = .ok [] := rfl

@[simp]
theorem shapeAll_cons : shapeAll (e :: es) = (do .ok ((← e.shape) :: (← shapeAll es)) : Except Fault (List Expr)) := by
  rw [shapeAll, pruneAll, shapeAll, Expr.shape]
  cases e.prune <;> cases pruneAll es <;> rfl

@[simp]
theorem shapeTarget_none : shapeTarget none = .ok none := rfl

@[simp]
theorem shapeTarget_some : shapeTarget (some target) = target.shape.map some := by
  rw [shapeTarget, pruneTarget, LValue.shape]
  cases target.prune <;> rfl

end Shapes

end Awk
