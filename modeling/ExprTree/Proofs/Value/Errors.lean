import ExprTree.Proofs.Value.Operations

namespace ExprTree

/-!
# Errors of operations

Operators, field accesses and checks of arguments fail for what they are given.
`Operates` says so of a result, and there is one lemma for each operation.  The other
errors come from elsewhere: from the look-up of a parameter or a slot, from the call
stack, and from the host.
-/

/-- An error about the operands of an operation. -/
def RuntimeError.IsOperational : RuntimeError → Prop
  | undefinedParameter _ | recursionLimit _ | host _ | slotOutOfRange _ => False
  | _ => True

/-- An operation fails, if at all, because of its operands. -/
def Operates {α : Type} (result : Except RuntimeError α) : Prop :=
  ∀ error, result = .error error → error.IsOperational

theorem operates_ok {α : Type} (a : α) : Operates (.ok a) := nofun

theorem operates_error {α : Type} {error : RuntimeError} (h : error.IsOperational) :
    Operates (.error error : Except RuntimeError α) := by
  intro error' heq
  cases heq
  exact h

/-- Going on with the value brings in no other error. -/
theorem Operates.map {α β : Type} {result : Except RuntimeError α} (h : Operates result)
    (f : α → β) : Operates (result.map f) := by
  cases result with
  | error error => exact operates_error (h error rfl)
  | ok a => exact operates_ok (f a)

/-! ### Operators -/

/-- A unary operator refuses its operand. -/
theorem UnaryOp.operates_apply (op : UnaryOp) (operand : Value) : Operates (op.apply operand) := by
  unfold apply
  split
  · exact operates_ok _
  · exact operates_ok _
  · exact operates_error trivial

namespace BinaryOp

/-- Arithmetic on numbers fails on a zero divisor, and operators that are none do on everything. -/
theorem operates_arithmetic (op : BinaryOp) (a b : Number) : Operates (op.arithmetic a b) := by
  unfold arithmetic
  cases op with
  | add | sub | mul => exact operates_ok _
  | div | rem =>
    dsimp only
    split
    · exact operates_ok _
    · exact operates_error trivial
  | _ => exact operates_error trivial

/-- A binary operator refuses its operands, or divides by zero. -/
theorem operates_apply (op : BinaryOp) (left right : Value) : Operates (op.apply left right) := by
  unfold apply
  cases op with
  | eq | ne => exact operates_ok _
  | sub | mul | div | rem =>
    dsimp only
    split
    · exact (operates_arithmetic _ _ _).map _
    · exact operates_error trivial
  | add | lt | le | gt | ge | and | or =>
    dsimp only
    split
    all_goals first | exact operates_ok _ | exact operates_error trivial

/-- Arithmetic that is done directly refuses its operands, or divides by zero. -/
theorem operates_direct (op : BinaryOp) (left right : Value) :
    Operates (op.direct left right) := by
  unfold direct
  split
  · exact (operates_arithmetic op _ _).map _
  · exact operates_apply op _ _

end BinaryOp

/-! ### Values -/

namespace Value

/-- A test refuses what is no truth value. -/
theorem operates_test (name : String) (value : Value) : Operates (value.test name) := by
  unfold test
  split
  · exact operates_ok _
  · exact operates_error trivial

/-- A field is missing, or is asked of none or of no object. -/
theorem operates_field (target : Value) (name : String) : Operates (target.field name) := by
  unfold field
  split
  · split
    · exact operates_ok _
    · exact operates_error trivial
  · exact operates_error trivial
  · exact operates_error trivial

/-- A field that is read by its position fails in the same ways. -/
theorem operates_fieldAt (target : Value) (index : Nat) (name : String) :
    Operates (target.fieldAt index name) := by
  unfold fieldAt
  split
  · split
    · exact operates_ok _
    · exact operates_field _ name
  · exact operates_field _ name

end Value

/-! ### Checks of arguments -/

/-- A constructor refuses its arguments. -/
theorem ClassOver.operates_instantiate (cls : ClassDef) (args : List Value) (supply : Supply) :
    Operates (cls.instantiate args supply).1 := by
  have hcheck : Operates (cls.checkArguments args) := by
    unfold checkArguments
    split
    · exact operates_error trivial
    · split
      · exact operates_error trivial
      · exact operates_ok _
  unfold instantiate
  split
  · rename_i error herror
    exact operates_error (hcheck error herror)
  · exact operates_ok _

/-- A call refuses its arguments. -/
theorem operates_checkParameters (params : List Parameter) (args : List Value) :
    Operates (checkParameters params args) := by
  unfold checkParameters
  split
  · exact operates_error trivial
  · split
    · exact operates_error trivial
    · exact operates_ok _

end ExprTree
