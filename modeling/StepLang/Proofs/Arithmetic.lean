import StepLang.Evaluation
import StepLang.Proofs.NumberPacking

/-! # Arithmetic expressions

Arithmetic operators over literals and variables always give a number, and two operands give one
that is finite or missing. A missing operand or a division by zero makes every operation around it
missing.
-/

namespace StepLang

/-! ### Arithmetic operators -/

def BinaryOp.isArithmetic : BinaryOp → Bool
  | add | sub | mul | div | pow => true
  | _ => false

def UnaryOp.isArithmetic : UnaryOp → Bool
  | neg | plus => true
  | not => false

theorem isNaN_missing : Number.missing.isNaN = true := rfl

theorem Value.exists_finite (x : Float) :
    ∃ y, finite x = .number y ∧ (y.isFinite = true ∨ y.isNaN = true) := by
  unfold finite
  split
  · rename_i hx
    exact ⟨x, rfl, .inl hx⟩
  · exact ⟨Number.missing, rfl, .inr isNaN_missing⟩

namespace BinaryOp

variable {op : BinaryOp} {f : Float → Float → Float} {v w : Value}

theorem exists_arithmetic (f : Float → Float → Float) (v w : Value) :
    ∃ x, arithmetic f v w = .number x ∧ (x.isFinite = true ∨ x.isNaN = true) := by
  unfold arithmetic
  dsimp only
  split
  · exact ⟨Number.missing, rfl, .inr isNaN_missing⟩
  · exact Value.exists_finite _

theorem arithmetic_of_isNaN (h : v.toNumber.isNaN = true ∨ w.toNumber.isNaN = true) :
    arithmetic f v w = .missing := by
  unfold arithmetic
  dsimp only
  rw [if_pos (Bool.or_eq_true_iff.mpr h)]

theorem exists_apply_eq (h : op.isArithmetic = true) :
    ∃ f, ∀ v w, op.apply v w = arithmetic f v w := by
  cases op with
  | add => exact ⟨(· + ·), fun _ _ => rfl⟩
  | sub => exact ⟨(· - ·), fun _ _ => rfl⟩
  | mul => exact ⟨(· * ·), fun _ _ => rfl⟩
  | div => exact ⟨quotient, fun _ _ => rfl⟩
  | pow => exact ⟨Float.pow, fun _ _ => rfl⟩
  | _ => cases h

theorem exists_apply (h : op.isArithmetic = true) (v w : Value) :
    ∃ x, op.apply v w = .number x ∧ (x.isFinite = true ∨ x.isNaN = true) := by
  obtain ⟨f, hf⟩ := exists_apply_eq h
  rw [hf]
  exact exists_arithmetic f v w

theorem apply_of_isNaN (h : op.isArithmetic = true)
    (hvw : v.toNumber.isNaN = true ∨ w.toNumber.isNaN = true) : op.apply v w = .missing := by
  obtain ⟨f, hf⟩ := exists_apply_eq h
  rw [hf, arithmetic_of_isNaN hvw]

theorem div_of_zero (h : (w.toNumber == 0.0) = true) : div.apply v w = .missing := by
  have hnone : quotient v.toNumber w.toNumber = Number.missing := if_pos h
  change arithmetic quotient v w = .missing
  unfold arithmetic
  dsimp only
  rw [hnone]
  split <;> rfl

end BinaryOp

theorem UnaryOp.exists_apply (op : UnaryOp) (v : Value) : ∃ x, op.apply v = .number x := by
  cases op <;> exact ⟨_, rfl⟩

theorem UnaryOp.isNaN_apply {op : UnaryOp} {v : Value} (h : op.isArithmetic = true)
    (hv : v.toNumber.isNaN = true) : (op.apply v).toNumber.isNaN = true := by
  cases op with
  | neg => exact (isNaN_neg _).trans hv
  | plus => exact hv
  | not => cases h

/-! ### Trees of operators -/

namespace Expression

inductive IsOperand : Expression → Prop
  | number (x : Float) : IsOperand (.number x)
  | text (s : String) : IsOperand (.text s)
  | missing : IsOperand .missing
  | ref (name : String) : IsOperand (.ref name)

/-- Operators of arithmetic over literals and variables. -/
inductive IsArithmetic : Expression → Prop
  | operand {e : Expression} (h : e.IsOperand) : IsArithmetic e
  | binary {op : BinaryOp} {left right : Expression} (hop : op.isArithmetic = true)
    (hl : IsArithmetic left) (hr : IsArithmetic right) : IsArithmetic (.binary op left right)
  | unary {op : UnaryOp} {operand : Expression} (hop : op.isArithmetic = true)
    (h : IsArithmetic operand) : IsArithmetic (.unary op operand)

def isOperation : Expression → Bool
  | .binary .. | .unary .. => true
  | _ => false

/-- The second expression is the first one or stands under its operators. -/
inductive HasNode : Expression → Expression → Prop
  | root (e : Expression) : HasNode e e
  | left {op : BinaryOp} {left right e : Expression} (h : HasNode left e) :
    HasNode (.binary op left right) e
  | right {op : BinaryOp} {left right e : Expression} (h : HasNode right e) :
    HasNode (.binary op left right) e
  | under {op : UnaryOp} {operand e : Expression} (h : HasNode operand e) :
    HasNode (.unary op operand) e

theorem IsArithmetic.node {e part : Expression} (h : e.IsArithmetic) (hp : e.HasNode part) :
    part.IsArithmetic := by
  induction hp with
  | root => exact h
  | left _ ih =>
    cases h with
    | operand h => cases h
    | binary _ hl _ => exact ih hl
  | right _ ih =>
    cases h with
    | operand h => cases h
    | binary _ _ hr => exact ih hr
  | under _ ih =>
    cases h with
    | operand h => cases h
    | unary _ h => exact ih h

end Expression

/-! ### Values of trees -/

section Values

open Expression

variable {scope : Scope} {op : BinaryOp} {left right : Expression} {v w : Value}

theorem evaluate_binary (hop : op.isArithmetic = true) (hl : evaluate scope left = .ok v)
    (hr : evaluate scope right = .ok w) :
    evaluate scope (.binary op left right) = .ok (op.apply v w) := by
  cases op with
  | add | sub | mul | div | pow =>
    rw [evaluate, hl, hr]
    · rfl
    all_goals simp
  | _ => cases hop

theorem evaluate_unary {op : UnaryOp} {operand : Expression}
    (h : evaluate scope operand = .ok v) :
    evaluate scope (.unary op operand) = .ok (op.apply v) := by
  rw [evaluate, h]
  rfl

theorem Expression.IsArithmetic.exists_value {e : Expression} (h : e.IsArithmetic)
    (scope : Scope) : ∃ v, evaluate scope e = .ok v := by
  induction h with
  | operand h => cases h <;> exact ⟨_, by rw [evaluate]⟩
  | binary hop _ _ ihl ihr =>
    obtain ⟨v, hv⟩ := ihl
    obtain ⟨w, hw⟩ := ihr
    exact ⟨_, evaluate_binary hop hv hw⟩
  | unary _ _ ih =>
    obtain ⟨v, hv⟩ := ih
    exact ⟨_, evaluate_unary hv⟩

theorem Expression.IsArithmetic.exists_number {e : Expression} (h : e.IsArithmetic)
    (ho : e.isOperation = true) (scope : Scope) : ∃ x, evaluate scope e = .ok (.number x) := by
  cases h with
  | operand h => cases h <;> cases ho
  | binary hop hl hr =>
    obtain ⟨v, hv⟩ := hl.exists_value scope
    obtain ⟨w, hw⟩ := hr.exists_value scope
    obtain ⟨x, hx, -⟩ := BinaryOp.exists_apply hop v w
    exact ⟨x, by rw [evaluate_binary hop hv hw, hx]⟩
  | @unary op _ _ h =>
    obtain ⟨v, hv⟩ := h.exists_value scope
    obtain ⟨x, hx⟩ := op.exists_apply v
    exact ⟨x, by rw [evaluate_unary hv, hx]⟩

/-- The expression has a value that is missing as a number. -/
def LacksNumber (scope : Scope) (e : Expression) : Prop :=
  ∃ v, evaluate scope e = .ok v ∧ v.toNumber.isNaN = true

/-- A missing node makes the whole tree missing. The induction goes from the node up to the root. -/
theorem LacksNumber.of_node {e part : Expression} (hp : e.HasNode part)
    (hmissing : LacksNumber scope part) (h : e.IsArithmetic) : LacksNumber scope e := by
  induction hp with
  | root => exact hmissing
  | left _ ih =>
    cases h with
    | operand h => cases h
    | binary hop hl hr =>
      obtain ⟨v, hv, hnan⟩ := ih hmissing hl
      obtain ⟨w, hw⟩ := hr.exists_value scope
      refine ⟨.missing, ?_, isNaN_missing⟩
      rw [evaluate_binary hop hv hw, BinaryOp.apply_of_isNaN hop (.inl hnan)]
  | right _ ih =>
    cases h with
    | operand h => cases h
    | binary hop hl hr =>
      obtain ⟨v, hv⟩ := hl.exists_value scope
      obtain ⟨w, hw, hnan⟩ := ih hmissing hr
      refine ⟨.missing, ?_, isNaN_missing⟩
      rw [evaluate_binary hop hv hw, BinaryOp.apply_of_isNaN hop (.inr hnan)]
  | under _ ih =>
    cases h with
    | operand h => cases h
    | unary hop h =>
      obtain ⟨v, hv, hnan⟩ := ih hmissing h
      exact ⟨_, evaluate_unary hv, UnaryOp.isNaN_apply hop hnan⟩

theorem LacksNumber.of_zero_divisor (h : left.IsArithmetic) (hr : evaluate scope right = .ok w)
    (hzero : (w.toNumber == 0.0) = true) : LacksNumber scope (.binary .div left right) := by
  obtain ⟨v, hv⟩ := h.exists_value scope
  refine ⟨.missing, ?_, isNaN_missing⟩
  rw [evaluate_binary rfl hv hr, BinaryOp.div_of_zero hzero]

/-- An operation of arithmetic has a number for its value, in every scope. Each of its nodes with
two operands is finite or missing, and the whole is missing if an operand of the tree is or if a
divisor is zero. -/
theorem arithmetic_closed (scope : Scope) {e : Expression} (h : e.IsArithmetic)
    (ho : e.isOperation = true) :
    (∃ x, evaluate scope e = .ok (.number x)) ∧
    (∀ op left right, e.HasNode (.binary op left right) →
      ∃ x, evaluate scope (.binary op left right) = .ok (.number x) ∧
        (x.isFinite = true ∨ x.isNaN = true)) ∧
    (∀ operand v, e.HasNode operand → operand.IsOperand → evaluate scope operand = .ok v →
      v.toNumber.isNaN = true → evaluate scope e = .ok .missing) ∧
    (∀ left right w, e.HasNode (.binary .div left right) → evaluate scope right = .ok w →
      (w.toNumber == 0.0) = true → evaluate scope e = .ok .missing) := by
  obtain ⟨x, hx⟩ := h.exists_number ho scope
  have hwhole (hm : LacksNumber scope e) : evaluate scope e = .ok .missing := by
    obtain ⟨v, hv, hnan⟩ := hm
    obtain rfl := Except.ok.inj (hx.symm.trans hv)
    have hx : x = Number.missing := eq_missing_of_isNaN hnan
    rw [hv, hx]
    rfl
  refine ⟨⟨x, hx⟩, ?_, ?_, ?_⟩
  · intro op left right hp
    cases h.node hp with
    | operand h => cases h
    | binary hop hl hr =>
      obtain ⟨v, hv⟩ := hl.exists_value scope
      obtain ⟨w, hw⟩ := hr.exists_value scope
      obtain ⟨y, hy, hfinite⟩ := BinaryOp.exists_apply hop v w
      exact ⟨y, by rw [evaluate_binary hop hv hw, hy], hfinite⟩
  · intro operand v hp _ hv hnan
    exact hwhole (.of_node hp ⟨v, hv, hnan⟩ h)
  · intro left right w hp hw hzero
    cases h.node hp with
    | operand h => cases h
    | binary _ hl _ => exact hwhole (.of_node hp (.of_zero_divisor hl hw hzero) h)

/-- A division by a text that is no number, deep in a tree: the text counts as zero. -/
theorem arithmetic_closed_textDivisor :
    (Expression.unary .neg
      (.binary .add (.number 1.0) (.binary .div (.ref "x") (.text "none")))).IsArithmetic ∧
    ((Value.text "none").toNumber == 0.0) = true ∧
    evaluate { value := fun _ => .number 4.0, today := 0 }
      (.unary .neg (.binary .add (.number 1.0) (.binary .div (.ref "x") (.text "none")))) =
        .ok .missing := by
  have htree : (Expression.unary .neg
      (.binary .add (.number 1.0) (.binary .div (.ref "x") (.text "none")))).IsArithmetic :=
    .unary rfl (.binary rfl (.operand (.number _))
      (.binary rfl (.operand (.ref _)) (.operand (.text _))))
  have hzero : ((Value.text "none").toNumber == 0.0) = true := by decide +kernel
  obtain ⟨-, -, -, hdivisor⟩ :=
    arithmetic_closed { value := fun _ => .number 4.0, today := 0 } htree rfl
  exact ⟨htree, hzero, hdivisor _ _ _ (.under (.right (.root _))) (by rw [evaluate]) hzero⟩

end Values

end StepLang
