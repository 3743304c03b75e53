import Kinglet.Workflows.Syntax

/-!
# The operands of operators

The header of the evaluator promises strict typing, without implicit coercion: arithmetic and ordering
take two numbers, and `+` and the orderings two strings as well. The evaluator checks less: that an
operand of `+` is a string when the other is, and that the operands of an ordering have the same
`typeof`. What else there is goes to the operators of JavaScript, which convert it.
-/

namespace Kinglet.Workflows

open Js

/-! ## What operators accept -/

namespace BinaryOp

def isArithmetic : BinaryOp → Bool
  | .add | .sub | .mul | .div | .mod => true
  | _ => false

def isOrdering : BinaryOp → Bool
  | .gt | .lt | .ge | .le => true
  | _ => false

/-- Two numbers, or two strings for `+` and the orderings. -/
def accepts (op : BinaryOp) (left right : Value) : Bool :=
  match left, right with
  | .num _, .num _ => true
  | .str _, .str _ => op = .add || op.isOrdering
  | _, _ => false

end BinaryOp

/-- A `TypeError`: the one with the tag, or that of the engine. -/
def Failure.IsTypeError : Failure → Prop
  | .workflow _ tags _ => tags = .list none [.str "TypeError"]
  | .thrown name _ => name = js "TypeError"

theorem isTypeError_workflowError (message : JsString) :
    (workflowError message "TypeError").IsTypeError :=
  rfl

/-- An operator with the values that it is applied to. -/
structure Operation where
  op : BinaryOp
  left : Value
  right : Value

namespace Operation

variable (host : Runtime) (operation : Operation)

/-- Operands that the operator does not accept raise a `TypeError`. -/
def Strict : Prop :=
  operation.op.isArithmetic ∨ operation.op.isOrdering →
    operation.op.accepts operation.left operation.right ∨
      ∃ failure, applyBinary host operation.op operation.left operation.right = .error failure ∧
        failure.IsTypeError

/-- What `+` checks, and what the orderings check. -/
def Refused : Prop :=
  match operation.op with
  | .add => isText operation.left ≠ isText operation.right
  | op => op.isOrdering ∧ typeOf operation.left ≠ typeOf operation.right

/-- The conversion of a value to a primitive one throws. -/
def Unconvertible (value : Value) : Prop := ∀ primitive, toPrimitive host value ≠ .ok primitive

/-- An operand cannot be converted, and the operator comes to convert it. -/
def Stuck : Prop :=
  (Unconvertible host operation.left ∨ Unconvertible host operation.right) ∧
    ((operation.op = .div ∨ operation.op = .mod) → strictEquals operation.right (.num 0) = false)

/-- The condition under which an operator raises what the header promises. -/
def Suited : Prop :=
  operation.op.isArithmetic ∨ operation.op.isOrdering →
    operation.op.accepts operation.left operation.right ∨ operation.Refused ∨ operation.Stuck host

end Operation

/-! ## Conversions -/

/-- The conversions of maps give primitive values. -/
def Runtime.GivesPrimitives (host : Runtime) : Prop :=
  ∀ map primitive, host.mapPrimitive map = some primitive → isObject primitive = false

section Conversions

variable {host : Runtime}

theorem isTypeError_of_textOf {value : Value} {failure : Failure}
    (h : textOf host value = .error failure) : failure.IsTypeError := by
  unfold textOf at h
  split at h
  · cases h
  · cases h
    rfl

/-- A conversion that throws throws a `TypeError`. -/
theorem isTypeError_of_toPrimitive {value : Value} {failure : Failure}
    (h : toPrimitive host value = .error failure) : failure.IsTypeError := by
  unfold toPrimitive at h
  split at h
  · split at h
    · cases h
    · split at h
      · cases h
      · cases h
        rfl
  · split at h
    · cases htext : textOf host value with
      | ok text => rw [htext] at h; cases h
      | error failure' =>
          rw [htext] at h
          cases h
          exact isTypeError_of_textOf htext
    · cases h

theorem isObject_of_toPrimitive (hhost : host.GivesPrimitives) {value primitive : Value}
    (h : toPrimitive host value = .ok primitive) : isObject primitive = false := by
  unfold toPrimitive at h
  split at h
  · split at h
    · cases h
      rfl
    · split at h
      · rename_i hmap
        cases h
        exact hhost _ _ hmap
      · cases h
  · split at h
    · cases htext : textOf host value with
      | ok text =>
          rw [htext] at h
          cases h
          rfl
      | error failure => rw [htext] at h; cases h
    · rename_i hobject
      cases h
      simpa using hobject

theorem exists_textOf {value : Value} (h : isObject value = false) :
    ∃ text, textOf host value = .ok text := by
  cases value with
  | undefined | null | num | str => exact ⟨_, rfl⟩
  | bool b => cases b <;> exact ⟨_, rfl⟩
  | list | map | objectPrototype | arrayPrototype | inherited => cases h

theorem exists_addPrimitives {left right : Value} (hleft : isObject left = false)
    (hright : isObject right = false) : ∃ value, addPrimitives host left right = .ok value := by
  obtain ⟨s, hs⟩ := exists_textOf hleft
  obtain ⟨t, ht⟩ := exists_textOf hright
  unfold addPrimitives
  split
  · rw [ht]
    exact ⟨_, rfl⟩
  · rw [hs]
    exact ⟨_, rfl⟩
  · exact ⟨_, rfl⟩

end Conversions

/-! ## One operation -/

section Outcomes

variable {host : Runtime} {left right : Value}

theorem exists_str_of_isText {value : Value} (h : isText value) : ∃ s, value = .str s := by
  cases value with
  | str s => exact ⟨s, rfl⟩
  | _ => cases h

/-- `TypeError` is what the operator raises. -/
def RaisesTypeError (result : Except Failure Value) : Prop :=
  ∃ failure, result = .error failure ∧ failure.IsTypeError

theorem not_raisesTypeError_ok (value : Value) : ¬ RaisesTypeError (.ok value) :=
  fun ⟨_, h, _⟩ => nomatch h

/-- An operator on the primitive values of its operands raises a `TypeError` exactly when one of them
has none. -/
theorem raisesTypeError_primitives (hhost : host.GivesPrimitives)
    {compute : Value → Value → Except Failure Value}
    (hcompute : ∀ l r, isObject l = false → isObject r = false → ∃ v, compute l r = .ok v) :
    RaisesTypeError (do
      let l ← toPrimitive host left
      let r ← toPrimitive host right
      compute l r) ↔ Operation.Unconvertible host left ∨ Operation.Unconvertible host right := by
  cases hl : toPrimitive host left with
  | error failure =>
      have hleft : Operation.Unconvertible host left := fun primitive h => nomatch hl ▸ h
      exact iff_of_true ⟨failure, rfl, isTypeError_of_toPrimitive hl⟩ (.inl hleft)
  | ok l =>
      have hleft : ¬ Operation.Unconvertible host left := fun h => h l hl
      cases hr : toPrimitive host right with
      | error failure =>
          have hright : Operation.Unconvertible host right := fun primitive h => nomatch hr ▸ h
          exact iff_of_true ⟨failure, rfl, isTypeError_of_toPrimitive hr⟩ (.inr hright)
      | ok r =>
          have hright : ¬ Operation.Unconvertible host right := fun h => h r hr
          obtain ⟨value, hvalue⟩ := hcompute l r (isObject_of_toPrimitive hhost hl)
            (isObject_of_toPrimitive hhost hr)
          refine iff_of_false ?_ (not_or.2 ⟨hleft, hright⟩)
          show ¬ RaisesTypeError (compute l r)
          rw [hvalue]
          exact not_raisesTypeError_ok value

theorem not_raisesTypeError_divisionByZero :
    ¬ RaisesTypeError (.error (workflowError "Division by zero" "ZeroDivisionError")) := by
  rintro ⟨failure, hfailure, htype⟩
  cases hfailure
  have htag : js "ZeroDivisionError" = js "TypeError" := by
    simpa [workflowError, Failure.IsTypeError] using htype
  exact absurd htag (by decide +kernel)

theorem raisesTypeError_arithmetic (hhost : host.GivesPrimitives) (f : Float → Float → Float) :
    RaisesTypeError (arithmetic host f left right) ↔
      Operation.Unconvertible host left ∨ Operation.Unconvertible host right := by
  have hiff := @raisesTypeError_primitives host left right hhost
    (fun l r => .ok (.num (f (primitiveNumber l) (primitiveNumber r)))) fun _ _ _ _ => ⟨_, rfl⟩
  rw [← hiff]
  unfold arithmetic toNumber
  cases toPrimitive host left with
  | error => rfl
  | ok => cases toPrimitive host right <;> rfl

theorem raisesTypeError_dividing (hhost : host.GivesPrimitives) (f : Float → Float → Float) :
    RaisesTypeError (dividing host f left right) ↔
      (Operation.Unconvertible host left ∨ Operation.Unconvertible host right) ∧
        strictEquals right (.num 0) = false := by
  unfold dividing
  split
  · rename_i hzero
    refine iff_of_false ?_ fun h => ?_
    · exact not_raisesTypeError_divisionByZero
    · rw [hzero] at h
      exact nomatch h.2
  · rename_i hzero
    rw [raisesTypeError_arithmetic hhost f, and_iff_left (by simpa using hzero)]

theorem raisesTypeError_orderedCompare (hhost : host.GivesPrimitives)
    (compare : Value → Value → Bool) :
    RaisesTypeError (orderedCompare host compare left right) ↔
      typeOf left ≠ typeOf right ∨
        Operation.Unconvertible host left ∨ Operation.Unconvertible host right := by
  unfold orderedCompare
  split
  · rename_i hsame
    have hiff := @raisesTypeError_primitives host left right hhost
      (fun l r => .ok (.bool (compare l r))) fun _ _ _ _ => ⟨_, rfl⟩
    rw [← hiff]
    exact (or_iff_right (not_not_intro hsame)).symm
  · rename_i hdiffer
    exact iff_of_true ⟨_, rfl, isTypeError_workflowError _⟩ (.inl hdiffer)

theorem raisesTypeError_plus (hhost : host.GivesPrimitives) :
    RaisesTypeError (plus host left right) ↔ isText left ≠ isText right ∨
      ((isText left || isText right) = false ∧
        (Operation.Unconvertible host left ∨ Operation.Unconvertible host right)) := by
  unfold plus
  split
  · rename_i htext
    split
    · refine iff_of_false (not_raisesTypeError_ok _) fun h => ?_
      rcases h with h | ⟨h, -⟩
      · exact h rfl
      · cases h
    · rename_i hboth
      refine iff_of_true ⟨_, rfl, isTypeError_workflowError _⟩ (.inl fun hsame => ?_)
      rw [hsame, Bool.or_self] at htext
      obtain ⟨s, rfl⟩ := exists_str_of_isText (hsame.trans htext)
      obtain ⟨t, rfl⟩ := exists_str_of_isText htext
      exact hboth s t rfl rfl
  · rename_i htext
    have hneither : (isText left || isText right) = false := by simpa using htext
    obtain ⟨hleft, hright⟩ := Bool.or_eq_false_iff.1 hneither
    have hsame : ¬ isText left ≠ isText right := not_not_intro (hleft.trans hright.symm)
    rw [raisesTypeError_primitives hhost fun _ _ => exists_addPrimitives, or_iff_right hsame,
      and_iff_right hneither]

end Outcomes

namespace Operation

variable {host : Runtime} {operation : Operation}

theorem strict_of_relevant (hrelevant : operation.op.isArithmetic ∨ operation.op.isOrdering) :
    operation.Strict host ↔ operation.op.accepts operation.left operation.right ∨
      RaisesTypeError (applyBinary host operation.op operation.left operation.right) :=
  forall_prop_of_true hrelevant

/-- An operator raises what the header promises if and only if its operands are those it accepts, or
the checks refuse them, or their conversion throws. -/
theorem strict_iff_suited (hhost : host.GivesPrimitives) :
    operation.Strict host ↔ operation.Suited host := by
  obtain ⟨op, left, right⟩ := operation
  by_cases hrelevant : op.isArithmetic ∨ op.isOrdering
  swap
  · exact iff_of_true (fun h => absurd h hrelevant) fun h => absurd h hrelevant
  rw [strict_of_relevant hrelevant, Suited, forall_prop_of_true hrelevant]
  unfold Refused Stuck
  cases op with
  | or | and | eq | ne => exact absurd hrelevant (by decide)
  | add =>
      have htexts : isText left → isText right → BinaryOp.accepts .add left right := by
        intro hleft hright
        obtain ⟨s, rfl⟩ := exists_str_of_isText hleft
        obtain ⟨t, rfl⟩ := exists_str_of_isText hright
        rfl
      simp only [applyBinary, raisesTypeError_plus hhost]
      cases hleft : isText left <;> cases hright : isText right <;> simp_all
  | sub | mul => simp [applyBinary, raisesTypeError_arithmetic hhost, BinaryOp.isOrdering]
  | div | mod => simp [applyBinary, raisesTypeError_dividing hhost, BinaryOp.isOrdering]
  | gt | lt | ge | le =>
      simp [applyBinary, raisesTypeError_orderedCompare hhost, BinaryOp.isOrdering]

end Operation

/-! ## All operations of an expression -/

namespace Expr

/-- What is done next with a value, nothing after an error. -/
def whenOk (result : Except Failure Value) (next : Value → List Operation) : List Operation :=
  match result with
  | .ok value => next value
  | .error _ => []

mutual

/-- The binary operations of an evaluation, in their order, up to the first error. -/
def operations (env : Env) : Expr → List Operation
  | .number _ | .string _ | .constant _ | .variable _ => []
  | .paren e => e.operations env
  | .list items => allOperations env items
  | .call _ args => allOperations env args
  | .method object name args =>
      match object.moduleName with
      | some _ => allOperations env args
      | none => object.operations env ++ whenOk (object.eval env) fun value =>
          match methodName value name.text with
          | .ok _ => allOperations env args
          | .error _ => []
  | .member object _ => object.operations env
  | .index object key =>
      object.operations env ++ whenOk (object.eval env) fun _ => key.operations env
  | .negate e => e.operations env
  | .not e => e.operations env
  | .contains e container =>
      e.operations env ++ whenOk (e.eval env) fun _ => container.operations env
  | .binary op left right =>
      left.operations env ++ whenOk (left.eval env) fun l =>
        right.operations env ++ whenOk (right.eval env) fun r => [⟨op, l, r⟩]

def allOperations (env : Env) : List Expr → List Operation
  | [] => []
  | e :: es => e.operations env ++ whenOk (e.eval env) fun _ => allOperations env es

end

end Expr

/-- **No implicit coercion.** Every arithmetic operation and every ordering of an evaluation has two
numbers, or two strings where they are accepted, or else raises a `TypeError`: this holds if and only
if the operands that are not accepted differ where the operator compares their types, or cannot be
converted. -/
theorem operations_strict_iff (env : Env) (hhost : env.host.GivesPrimitives) (e : Expr) :
    (∀ o ∈ e.operations env, o.Strict env.host) ↔ ∀ o ∈ e.operations env, o.Suited env.host := by
  constructor <;> intro h o ho
  · exact (Operation.strict_iff_suited hhost).1 (h o ho)
  · exact (Operation.strict_iff_suited hhost).2 (h o ho)

/-- An environment without variables or functions. -/
def bareEnv : Env where
  host := plainRuntime
  scope := .map none .objectPrototype []
  stdlib name _ := .error (workflowError (js "Unknown function: " ++ name) "ValueError")

theorem givesPrimitives_bareEnv : bareEnv.host.GivesPrimitives := fun _ _ h => nomatch h

def numeralOne : Expr := .number ⟨js "1", by decide⟩

/-- `1 + 1`. -/
theorem operations_strict_sum :
    (∀ o ∈ (Expr.binary .add numeralOne numeralOne).operations bareEnv, o.Strict bareEnv.host) ↔
      ∀ o ∈ (Expr.binary .add numeralOne numeralOne).operations bareEnv, o.Suited bareEnv.host :=
  operations_strict_iff bareEnv givesPrimitives_bareEnv (.binary .add numeralOne numeralOne)

/-- `true + 1`. -/
def booleanSum : Expr := .binary .add (.constant ⟨js "true", .bool true, rfl⟩) numeralOne

example :
    (match evaluateExpression bareEnv (js "true + 1") with
      | .ok (.num x) => x == 2
      | _ => false) = true := by
  decide +kernel

/-- `true + 1` is a number. -/
theorem not_operations_strict :
    ¬ ∀ (env : Env) (e : Expr), ∀ o ∈ e.operations env, o.Strict env.host := by
  intro h
  have hmem : ⟨.add, .bool true, .num (numberValue (js "1"))⟩ ∈ booleanSum.operations bareEnv :=
    List.mem_singleton.2 rfl
  rcases h bareEnv booleanSum _ hmem (.inl rfl) with haccepts | ⟨failure, hfailure, -⟩
  · exact absurd haccepts (by decide)
  · exact nomatch hfailure

end Kinglet.Workflows
