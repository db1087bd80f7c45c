import Mathlib.Data.List.Basic
import StepLang.Proofs.Parser.Expressions
import StepLang.Proofs.ScannedNumbers

/-! # Writing expressions

An expression is written with the fewest parentheses: those around an operator that binds less than
its place asks for. What is written is read back, up to the first token that cannot go on with an
expression. The expressions that cannot be read at all are those that no text has.
-/

namespace StepLang

/-! ### Text of expressions -/

/-- The kind of a token as a part of an expression, where a soft keyword is a name. -/
def Token.reading (t : Token) : Token.Kind :=
  match t.name? with
  | some name => .name name
  | none => t.kind

theorem Token.name?_of_reading {t : Token} {name : String} (h : t.reading = .name name) :
    t.name? = some name := by
  unfold reading at h
  split at h
  · cases h
    assumption
  · simp [name?, h]

theorem Token.kind_of_reading {t : Token} {k : Token.Kind} (h : t.reading = k)
    (hk : ∀ name, k ≠ .name name) : t.kind = k := by
  unfold reading at h
  split at h
  · exact absurd h.symm (hk _)
  · exact h

def BinaryOp.kind : BinaryOp → Token.Kind
  | .or => .keyword .OR
  | .and => .keyword .AND
  | .eq => .symbol .assign
  | .notEq => .symbol .notEq
  | .lt => .symbol .lt
  | .gt => .symbol .gt
  | .ltEq => .symbol .ltEq
  | .gtEq => .symbol .gtEq
  | .concat => .symbol .concat
  | .add => .symbol .plus
  | .sub => .symbol .minus
  | .mul => .symbol .star
  | .div => .symbol .slash
  | .pow => .symbol .starStar

def UnaryOp.kind : UnaryOp → Token.Kind
  | .neg => .symbol .minus
  | .plus => .symbol .plus
  | .not => .keyword .NOT

/-- The least binding strength of operators in the left operand of an operator. -/
def BinaryOp.leftStrength (op : BinaryOp) : Nat :=
  if op.isRightAssociative then op.precedence + 1 else op.precedence

/-- The strength that the operand of a unary operator asks for, which no binary operator has. -/
def operandStrength : Nat := 8

def Number.isNegative (x : Float) : Bool :=
  match Number.parts x with
  | .missing => false
  | .infinite negative => negative
  | .finite negative _ _ => negative

mutual

/-- An expression in the place of an operand where operators bind at least as strongly as
`strength`. -/
def Expression.kinds (strength : Nat) : Expression → List Token.Kind
  | .number x => if Number.isNegative x then [.symbol .minus, .number (-x)] else [.number x]
  | .text s => [.text s]
  | .missing => [.symbol .dot]
  | .ref name => [.name name]
  | .macroRef name => [.macroName name]
  | .binary op left right =>
    let kinds := left.kinds op.leftStrength ++ op.kind :: right.kinds (Parser.rightStrength op)
    if op.precedence < strength then .symbol .leftParen :: (kinds ++ [.symbol .rightParen])
    else kinds
  | .unary op operand => op.kind :: operand.kinds operandStrength
  | .call function args =>
    .name function :: .symbol .leftParen :: (argumentKinds args ++ [.symbol .rightParen])
  | .element array index =>
    .name array :: .symbol .leftBracket :: (index.kinds 1 ++ [.symbol .rightBracket])

def argumentKinds : List Expression → List Token.Kind
  | [] => []
  | [arg] => arg.kinds 1
  | arg :: args => arg.kinds 1 ++ .symbol .comma :: argumentKinds args

end

namespace Parser

variable {α β : Type} {s : State} {t : Token} {ts us rest : List Token}

/-! ### Reading given tokens -/

def State.skip (s : State) : List Token → State
  | [] => s
  | _ :: ts => s.step.skip ts

theorem State.skip_append (s : State) (ts us : List Token) :
    s.skip (ts ++ us) = (s.skip ts).skip us := by
  induction ts generalizing s with
  | nil => rfl
  | cons t ts ih => exact ih s.step

theorem State.ahead_skip (h : s.ahead = ts ++ rest) : (s.skip ts).ahead = rest := by
  induction ts generalizing s with
  | nil => exact h
  | cons t ts ih => exact ih (by simp [State.step, h])

theorem State.arrays_skip (s : State) (ts : List Token) : (s.skip ts).arrays = s.arrays := by
  induction ts generalizing s with
  | nil => rfl
  | cons t ts ih => exact ih s.step

theorem State.skip_eq (h : s.ahead = ts ++ rest) :
    s.skip ts = { s with ahead := rest, last := ts.getLastD s.last } := by
  induction ts generalizing s with
  | nil =>
    obtain ⟨ahead, eof, last, errors, arrays⟩ := s
    cases h
    rfl
  | cons t ts ih =>
    rw [State.skip, ih (by simp [State.step, h])]
    simp only [State.step, h, List.cons_append, List.headD_cons, List.getLastD_cons]

theorem size_skip_le (s : State) (ts : List Token) : (s.skip ts).size ≤ s.size := by
  induction ts generalizing s with
  | nil => exact Nat.le_refl _
  | cons t ts ih => exact Nat.le_trans (ih s.step) (size_step_le s)

theorem size_skip_lt (h : s.ahead = t :: rest) : (s.skip [t]).size < s.size :=
  size_step_of_pos (by simp [State.size, h])

theorem State.next_of_ahead (h : s.ahead = t :: rest) : s.next = t := by
  rw [State.next, h]
  rfl

theorem out_advance_skip (h : s.ahead = t :: rest) : out advance s = (.ok t, s.skip [t]) := by
  rw [out_advance, State.next_of_ahead h]
  rfl

theorem out_accept_skip (h : s.ahead = t :: rest) :
    out (accept t.kind) s = (.ok true, s.skip [t]) := by
  rw [out_accept, State.next_of_ahead h, if_pos (beq_self_eq_true _)]
  rfl

theorem out_accept_of_ne {k : Token.Kind} (h : s.next.kind ≠ k) :
    out (accept k) s = (.ok false, s) := by
  rw [out_accept, if_neg (by simpa using h)]

theorem out_expectSymbol_skip {k : Symbol} {expected : String} (h : s.ahead = t :: rest)
    (hk : t.kind = .symbol k) : out (expectSymbol k expected) s = (.ok (), s.skip [t]) := by
  unfold expectSymbol
  rw [← hk, out_bind_of_ok (out_accept_skip h)]
  rfl

/-! ### Reading operands -/

variable {p : Parser Expression} {e : Expression} {name : String} {s₁ : State} {u : Token}
  {behind : List Token}

def atom? : Token.Kind → Option Expression
  | .number x => some (.number x)
  | .text s => some (.text s)
  | .symbol .dot => some .missing
  | .macroName name => some (.macroRef name)
  | _ => none

theorem out_primary_atom (h : s.ahead = t :: rest) (hl : atom? t.kind = some e) :
    out (primary p) s = (.ok e, s.skip [t]) := by
  unfold primary
  rw [out_bind_of_ok (out_peek s), State.next_of_ahead h]
  unfold atom? at hl
  split at hl <;> cases hl
  all_goals
    rename_i hk
    simp only [hk]
    rw [out_bind_of_ok (out_advance_skip h)]
    rfl

theorem out_primary_paren (h : s.ahead = t :: rest) (hk : t.kind = .symbol .leftParen)
    (he : out p (s.skip [t]) = (.ok e, s₁)) (hu : s₁.ahead = u :: behind)
    (hclose : u.kind = .symbol .rightParen) : out (primary p) s = (.ok e, s₁.skip [u]) := by
  unfold primary
  rw [out_bind_of_ok (out_peek s), State.next_of_ahead h]
  simp only [hk]
  rw [out_bind_of_ok (out_advance_skip h), out_bind_of_ok he,
    out_bind_of_ok (out_expectSymbol_skip hu hclose)]
  rfl

theorem out_primary_name (h : s.ahead = t :: rest) (hn : t.name? = some name) :
    out (primary p) s = out (nameSuffix p name) (s.skip [t]) := by
  unfold primary
  rw [out_bind_of_ok (out_peek s), State.next_of_ahead h]
  split
  case h_6 =>
    simp only [hn]
    rw [out_bind_of_ok (out_advance_skip h)]
  all_goals
    rename_i hk
    simp [Token.name?, hk, Token.Kind.isSoft] at hn

theorem out_nameSuffix_ref (h : closing? s.next.kind = none) :
    out (nameSuffix p name) s = (.ok (.ref name), s) := by
  unfold nameSuffix
  rw [out_bind_of_ok (out_peek s)]
  split
  case h_4 => rfl
  all_goals
    rename_i hk
    simp [hk, closing?] at h

theorem out_nameSuffix_element (h : s.ahead = t :: rest) (hk : t.kind = .symbol .leftBracket)
    (he : out p (s.skip [t]) = (.ok e, s₁)) (hu : s₁.ahead = u :: behind)
    (hclose : u.kind = .symbol .rightBracket) :
    out (nameSuffix p name) s = (.ok (.element name e), s₁.skip [u]) := by
  have hsub : out (subscript p) s = (.ok e, s₁.skip [u]) := by
    unfold subscript
    rw [out_bind_of_ok (out_advance_skip h)]
    simp only [hk, closing?]
    rw [out_bind_of_ok he, out_bind_of_ok (out_expectSymbol_skip hu hclose)]
    rfl
  unfold nameSuffix
  rw [out_bind_of_ok (out_peek s), State.next_of_ahead h]
  simp only [hk]
  rw [out_bind_of_ok hsub]
  rfl

theorem out_nameSuffix_call {args : List Expression} (h : s.ahead = t :: rest)
    (hk : t.kind = .symbol .leftParen) (ha : s.arrays.contains (Text.upper name) = false)
    (hargs : out (arguments p) (s.skip [t]) = (.ok args, s₁)) :
    out (nameSuffix p name) s = (.ok (.call name args), s₁) := by
  have harray : out (isArray name) s = (.ok false, s) := by
    rw [← ha]
    rfl
  unfold nameSuffix
  rw [out_bind_of_ok (out_peek s), State.next_of_ahead h]
  simp only [hk]
  rw [out_bind_of_ok harray]
  simp only [Bool.false_eq_true, if_false]
  rw [out_bind_of_ok (out_advance_skip h), out_bind_of_ok hargs]
  rfl

theorem out_unary_primary {m : Nat} (h : unaryOp? s.next.kind = none) :
    out (unary p (m + 1)) s = out (primary p) s := by
  unfold unary
  rw [out_bind_of_ok (out_peek s), h]

theorem out_unary_name {m : Nat} (h : s.ahead = t :: rest) (hn : t.name? = some name) :
    out (unary p (m + 1)) s = out (nameSuffix p name) (s.skip [t]) := by
  have hop : unaryOp? t.kind = none := by
    unfold unaryOp?
    split
    case h_4 => rfl
    all_goals
      rename_i hk
      simp [Token.name?, hk, Token.Kind.isSoft, Keyword.isSoft] at hn
  rw [out_unary_primary (by rwa [State.next_of_ahead h]), out_primary_name h hn]

theorem out_unary_op {op : UnaryOp} {m : Nat} (h : s.ahead = t :: rest)
    (hop : unaryOp? t.kind = some op) (he : out (unary p m) (s.skip [t]) = (.ok e, s₁)) :
    out (unary p (m + 1)) s = (.ok (applyUnary op e), s₁) := by
  rw [unary, out_bind_of_ok (out_peek s), State.next_of_ahead h, hop]
  dsimp only
  rw [out_bind_of_ok (out_advance_skip h), out_bind_of_ok he]
  rfl

/-! ### Reading operations -/

def operationPass (depth strength : Nat) (left : Expression) :
    Parser (Pass Expression Expression) := do
  match binaryOp? (← peek).kind with
  | none => return .done left
  | some op =>
    if op.precedence < strength then return .done left
    else
      let _ ← advance
      return .again (.binary op left (← operation depth (rightStrength op)))

theorem out_operation {d k : Nat} (h : out (unary (operation d 1) (s.size + 1)) s = (.ok e, s₁)) :
    out (operation (d + 1) k) s = out (repeatUpTo (operationPass d k) (s₁.size + 1) e) s₁ := by
  change out (unary (operation d 1) (s.size + 1) >>= fun first =>
    repeated first (operationPass d k)) s = _
  rw [out_bind_of_ok h]
  rfl

theorem out_operationPass_stop {d k n : Nat}
    (h : ∀ op, binaryOp? s.next.kind = some op → op.precedence < k) :
    out (repeatUpTo (operationPass d k) (n + 1) e) s = (.ok e, s) := by
  have hpass : out (operationPass d k e) s = (.ok (.done e), s) := by
    unfold operationPass
    rw [out_bind_of_ok (out_peek s)]
    cases hop : binaryOp? s.next.kind with
    | none => rfl
    | some op =>
      dsimp only
      rw [if_pos (h op hop)]
      rfl
  rw [repeatUpTo, out_bind_of_ok hpass]
  rfl

theorem out_operationPass_binary {op : BinaryOp} {left right : Expression} {d k n : Nat}
    (h : s.ahead = t :: rest) (hop : binaryOp? t.kind = some op) (hk : k ≤ op.precedence)
    (hr : out (operation d (rightStrength op)) (s.skip [t]) = (.ok right, s₁)) :
    out (repeatUpTo (operationPass d k) (n + 1) left) s =
      out (repeatUpTo (operationPass d k) n (.binary op left right)) s₁ := by
  have hpass : out (operationPass d k left) s = (.ok (.again (.binary op left right)), s₁) := by
    unfold operationPass
    rw [out_bind_of_ok (out_peek s), State.next_of_ahead h, hop]
    dsimp only
    rw [if_neg (Nat.not_lt.mpr hk), out_bind_of_ok (out_advance_skip h), out_bind_of_ok hr]
    rfl
  rw [repeatUpTo, out_bind_of_ok hpass]

structure Ahead (arrays : List String) (kinds : List Token.Kind) (ts rest : List Token)
    (s : State) : Prop where
  arrays : s.arrays = arrays
  ahead : s.ahead = ts ++ rest
  kinds : ts.map Token.reading = kinds

namespace Ahead

variable {arrays : List String} {k : Token.Kind} {ks ls : List Token.Kind}

theorem append (h : Ahead arrays (ks ++ ls) ts rest s) : ∃ us vs, ts = us ++ vs ∧
    Ahead arrays ks us (vs ++ rest) s ∧ Ahead arrays ls vs rest (s.skip us) := by
  obtain ⟨us, vs, rfl, hus, hvs⟩ := List.map_eq_append_iff.mp h.kinds
  have hahead : s.ahead = us ++ (vs ++ rest) := by rw [h.ahead, List.append_assoc]
  refine ⟨us, vs, rfl, ⟨h.arrays, hahead, hus⟩, ?_, State.ahead_skip hahead, hvs⟩
  rw [State.arrays_skip, h.arrays]

theorem cons (h : Ahead arrays (k :: ks) ts rest s) : ∃ t us, ts = t :: us ∧ t.reading = k ∧
    s.ahead = t :: (us ++ rest) ∧ Ahead arrays ks us rest (s.skip [t]) := by
  obtain ⟨t, us, rfl, ht, hus⟩ := List.map_eq_cons_iff.mp h.kinds
  have hahead : s.ahead = [t] ++ (us ++ rest) := h.ahead
  refine ⟨t, us, rfl, ht, hahead, ?_, State.ahead_skip hahead, hus⟩
  rw [State.arrays_skip, h.arrays]

theorem single (h : Ahead arrays [k] ts rest s) : ∃ t, ts = [t] ∧ t.reading = k ∧
    s.ahead = t :: rest := by
  obtain ⟨t, us, rfl, ht, hahead, hnil⟩ := h.cons
  obtain rfl := List.map_eq_nil_iff.mp hnil.kinds
  exact ⟨t, rfl, ht, hahead⟩

end Ahead

/-- An operator at this place is no part of an expression of the strength before it. -/
structure Follows (strength : Nat) (s : State) : Prop where
  noBracket : closing? s.next.kind = none
  weaker : ∀ q, binaryOp? s.next.kind = some q → ∀ op, strength ≤ op.precedence →
    q.precedence < rightStrength op

/-- The loop over operators of the strength ends here. -/
structure Stops (strength : Nat) (s : State) : Prop where
  noBracket : closing? s.next.kind = none
  weaker : ∀ q, binaryOp? s.next.kind = some q → q.precedence < strength

/-- The tokens that cannot go on with an expression. -/
def endsExpression : Token.Kind → Bool
  | .symbol .semicolon | .symbol .rightParen | .symbol .rightBracket | .symbol .rightBrace
  | .symbol .comma | .keyword .THEN | .keyword .TO | .keyword .BY | .endOfInput => true
  | _ => false

theorem stops_of_endsExpression {k : Nat} (h : endsExpression s.next.kind = true) : Stops k s := by
  unfold endsExpression at h
  split at h
  case h_10 => cases h
  all_goals
    rename_i hk
    constructor <;> simp [hk, closing?, binaryOp?]

theorem le_rightStrength (op : BinaryOp) : op.precedence ≤ rightStrength op := by
  unfold rightStrength
  split <;> omega

theorem Stops.follows {k : Nat} (h : Stops k s) : Follows k s := by
  refine ⟨h.noBracket, fun q hq op hop => ?_⟩
  have hlt := h.weaker q hq
  have hle := le_rightStrength op
  omega

variable {arrays : List String}

def ReadsOperand (arrays : List String) (e : Expression) : Prop :=
  ∀ ⦃d m : Nat⦄ ⦃s : State⦄ ⦃ts rest : List Token⦄,
    Ahead arrays (e.kinds operandStrength) ts rest s → closing? (s.skip ts).next.kind = none →
    s.size ≤ d → s.size < m → out (unary (operation d 1) m) s = (.ok e, s.skip ts)

/-- An expression is read back as the left operand of whatever operator follows. -/
def ReadsOperation (arrays : List String) (e : Expression) : Prop :=
  ∀ ⦃j k d : Nat⦄ ⦃s : State⦄ ⦃ts rest : List Token⦄, k ≤ j → Ahead arrays (e.kinds j) ts rest s →
    Follows j (s.skip ts) → s.size ≤ d → ∃ n, (s.skip ts).size < n ∧
      out (operation (d + 1) k) s = out (repeatUpTo (operationPass d k) n e) (s.skip ts)

theorem ReadsOperation.read {d k : Nat} (h : ReadsOperation arrays e)
    (ha : Ahead arrays (e.kinds k) ts rest s) (hs : Stops k (s.skip ts)) (hd : s.size < d) :
    out (operation d k) s = (.ok e, s.skip ts) := by
  obtain ⟨d, rfl⟩ : ∃ d', d = d' + 1 := ⟨d - 1, by omega⟩
  obtain ⟨n, hn, hout⟩ := h (d := d) (Nat.le_refl k) ha hs.follows (by omega)
  obtain ⟨n, rfl⟩ : ∃ n', n = n' + 1 := ⟨n - 1, by omega⟩
  rw [hout, out_operationPass_stop hs.weaker]

theorem ReadsOperand.operation {j k d : Nat} (h : ReadsOperand arrays e)
    (ha : Ahead arrays (e.kinds operandStrength) ts rest s) (hs : Follows j (s.skip ts))
    (hd : s.size ≤ d) : ∃ n, (s.skip ts).size < n ∧
      out (operation (d + 1) k) s = out (repeatUpTo (operationPass d k) n e) (s.skip ts) :=
  ⟨_, Nat.lt_succ_self _, out_operation (h ha hs.noBracket hd (Nat.lt_succ_self _))⟩

/-! ### Reading back -/

structure ReadsBack (arrays : List String) (e : Expression) : Prop where
  operand : ReadsOperand arrays e
  operation : ReadsOperation arrays e

/-- What is written alike at every place needs to be read as an operand only. -/
theorem ReadsOperand.readsBack (h : ReadsOperand arrays e)
    (hk : ∀ j, e.kinds j = e.kinds operandStrength) : ReadsBack arrays e where
  operand := h
  operation _ _ _ _ _ _ _ ha hs hd := h.operation (hk _ ▸ ha) hs hd

theorem readsOperand_atom {k : Token.Kind} (hk : e.kinds operandStrength = [k])
    (hl : atom? k = some e) : ReadsOperand arrays e := by
  intro d m s ts rest ha _ _ hm
  rw [hk] at ha
  obtain ⟨t, rfl, ht, hahead⟩ := ha.single
  obtain rfl := Token.kind_of_reading ht fun name hname => by simp [hname, atom?] at hl
  obtain ⟨m, rfl⟩ : ∃ m', m = m' + 1 := ⟨m - 1, by omega⟩
  have hop : unaryOp? t.kind = none := by
    unfold atom? at hl
    split at hl <;> simp_all [unaryOp?]
  rw [out_unary_primary (by rwa [State.next_of_ahead hahead]), out_primary_atom hahead hl]

theorem binaryOp?_kind (op : BinaryOp) : binaryOp? op.kind = some op := by
  cases op <;> rfl

theorem closing?_kind (op : BinaryOp) : closing? op.kind = none := by
  cases op <;> rfl

theorem kind_ne_name (op : BinaryOp) (name : String) : op.kind ≠ .name name := by
  cases op <;> exact nofun

theorem unaryOp?_kind (op : UnaryOp) : unaryOp? op.kind = some op := by
  cases op <;> rfl

/-- An operator behind a left operand of its own does not go into it. -/
theorem precedence_lt_rightStrength {op op' : BinaryOp} (h : op.leftStrength ≤ op'.precedence) :
    op.precedence < rightStrength op' := by
  revert h
  cases op <;> cases op' <;> decide

theorem le_leftStrength (op : BinaryOp) : op.precedence ≤ op.leftStrength := by
  unfold BinaryOp.leftStrength
  split <;> omega

theorem precedence_pos (op : BinaryOp) : 1 ≤ op.precedence := by
  cases op <;> decide

theorem precedence_lt_operandStrength (op : BinaryOp) : op.precedence < operandStrength := by
  cases op <;> decide

theorem exists_read_binary {op : BinaryOp} {left right : Expression} {j k d : Nat}
    (hl : ReadsOperation arrays left) (hr : ReadsOperation arrays right) (hkj : k ≤ j)
    (hj : j ≤ op.precedence) (ha : Ahead arrays
      (left.kinds op.leftStrength ++ op.kind :: right.kinds (rightStrength op)) ts rest s)
    (hs : Follows j (s.skip ts)) (hd : s.size ≤ d) : ∃ n, (s.skip ts).size < n ∧
      out (operation (d + 1) k) s =
        out (repeatUpTo (operationPass d k) n (.binary op left right)) (s.skip ts) := by
  obtain ⟨us, vs, rfl, hleft, hvs⟩ := ha.append
  obtain ⟨t, ws, rfl, ht, hahead, hright⟩ := hvs.cons
  have hkind : t.kind = op.kind := Token.kind_of_reading ht (kind_ne_name op)
  have hnext : (s.skip us).next.kind = op.kind := by rw [State.next_of_ahead hahead, hkind]
  have hfollows : Follows op.leftStrength (s.skip us) := by
    refine ⟨by rw [hnext, closing?_kind], fun q hq op' hop' => ?_⟩
    rw [hnext, binaryOp?_kind] at hq
    cases hq
    exact precedence_lt_rightStrength hop'
  have hle := le_leftStrength op
  obtain ⟨n, hn, hout⟩ := hl (d := d) (k := k) (by omega) hleft hfollows hd
  have hskip : s.skip (us ++ t :: ws) = ((s.skip us).skip [t]).skip ws := State.skip_append ..
  have hlt := size_skip_lt hahead
  have hle₁ := size_skip_le s us
  have hle₂ := size_skip_le ((s.skip us).skip [t]) ws
  rw [hskip] at hs ⊢
  have hread := hr.read (d := d) hright ⟨hs.noBracket, fun q hq => hs.weaker q hq op hj⟩ (by omega)
  obtain ⟨n, rfl⟩ : ∃ n', n = n' + 1 := ⟨n - 1, by omega⟩
  refine ⟨n, by omega, ?_⟩
  rw [hout, out_operationPass_binary hahead (by rw [hkind, binaryOp?_kind]) (by omega) hread]

theorem kinds_binary_of_lt {op : BinaryOp} {j : Nat} (h : op.precedence < j)
    (left right : Expression) : (Expression.binary op left right).kinds j =
      .symbol .leftParen :: ((left.kinds op.leftStrength ++
        op.kind :: right.kinds (rightStrength op)) ++ [.symbol .rightParen]) := by
  rw [Expression.kinds]
  exact if_pos h

theorem readsOperand_binary (op : BinaryOp) {left right : Expression}
    (hl : ReadsOperation arrays left) (hr : ReadsOperation arrays right) :
    ReadsOperand arrays (.binary op left right) := by
  intro d m s ts rest ha _ hd hm
  rw [kinds_binary_of_lt (precedence_lt_operandStrength op)] at ha
  obtain ⟨t, vs, rfl, ht, hahead, hvs⟩ := ha.cons
  obtain ⟨us, ws, rfl, hinner, hws⟩ := hvs.append
  obtain ⟨u, rfl, hu, hclose⟩ := hws.single
  have hopen := Token.kind_of_reading ht (by simp)
  have hend := Token.kind_of_reading hu (by simp)
  have hstops : Stops 1 ((s.skip [t]).skip us) := by
    apply stops_of_endsExpression
    rw [State.next_of_ahead hclose, hend]
    rfl
  have hlt := size_skip_lt hahead
  obtain ⟨d, rfl⟩ : ∃ d', d = d' + 1 := ⟨d - 1, by omega⟩
  obtain ⟨m, rfl⟩ : ∃ m', m = m' + 1 := ⟨m - 1, by omega⟩
  obtain ⟨n, hn, hread⟩ := exists_read_binary hl hr (Nat.le_refl 1) (precedence_pos op) hinner
    hstops.follows (d := d) (by omega)
  obtain ⟨n, rfl⟩ : ∃ n', n = n' + 1 := ⟨n - 1, by omega⟩
  rw [out_operationPass_stop hstops.weaker] at hread
  rw [out_unary_primary (by rw [State.next_of_ahead hahead, hopen]; rfl),
    out_primary_paren hahead hopen hread hclose hend, ← State.skip_append, ← State.skip_append]
  rfl

theorem readsBack_binary {left right : Expression} (op : BinaryOp)
    (hl : ReadsOperation arrays left) (hr : ReadsOperation arrays right) :
    ReadsBack arrays (.binary op left right) := by
  have hoperand := readsOperand_binary op hl hr
  refine ⟨hoperand, fun j k d s ts rest hkj ha hs hd => ?_⟩
  by_cases hj : op.precedence < j
  · rw [kinds_binary_of_lt hj, ← kinds_binary_of_lt (precedence_lt_operandStrength op)] at ha
    exact hoperand.operation ha hs hd
  · rw [Expression.kinds, if_neg hj] at ha
    exact exists_read_binary hl hr hkj (Nat.not_lt.mp hj) ha hs hd

theorem readsOperand_ref (name : String) : ReadsOperand arrays (.ref name) := by
  intro d m s ts rest ha hb _ hm
  rw [Expression.kinds] at ha
  obtain ⟨t, rfl, ht, hahead⟩ := ha.single
  obtain ⟨m, rfl⟩ : ∃ m', m = m' + 1 := ⟨m - 1, by omega⟩
  rw [out_unary_name hahead (Token.name?_of_reading ht), out_nameSuffix_ref hb]

theorem readsOperand_number (x : Float) : ReadsOperand arrays (.number x) := by
  intro d m s ts rest ha hb hd hm
  by_cases hx : Number.isNegative x
  · rw [Expression.kinds, if_pos hx] at ha
    obtain ⟨t, us, rfl, ht, hahead, hus⟩ := ha.cons
    obtain ⟨u, rfl, hu, hahead'⟩ := hus.single
    have hminus := Token.kind_of_reading ht (by simp)
    have hnumber := Token.kind_of_reading hu (by simp)
    have hlt := size_skip_lt hahead
    have hlt' := size_skip_lt hahead'
    obtain ⟨m, rfl⟩ : ∃ m', m = m' + 2 := ⟨m - 2, by omega⟩
    have hread : out (unary (operation d 1) (m + 1)) (s.skip [t]) =
        (.ok (.number (-x)), (s.skip [t]).skip [u]) := by
      rw [out_unary_primary (by rw [State.next_of_ahead hahead', hnumber]; rfl),
        out_primary_atom hahead' (by rw [hnumber]; rfl)]
    rw [out_unary_op hahead (by rw [hminus]; rfl) hread, applyUnary, neg_neg_number]
    rfl
  · exact readsOperand_atom (by rw [Expression.kinds, if_neg hx]) rfl ha hb hd hm

theorem readsOperand_unary {op : UnaryOp} (hop : op = .neg → ∀ x, e ≠ .number x)
    (he : ReadsOperand arrays e) : ReadsOperand arrays (.unary op e) := by
  intro d m s ts rest ha hb hd hm
  rw [Expression.kinds] at ha
  obtain ⟨t, us, rfl, ht, hahead, hus⟩ := ha.cons
  have hkind := Token.kind_of_reading ht (by cases op <;> exact nofun)
  have hlt := size_skip_lt hahead
  obtain ⟨m, rfl⟩ : ∃ m', m = m' + 1 := ⟨m - 1, by omega⟩
  have hread := he (d := d) (m := m) hus hb (by omega) (by omega)
  have happly : applyUnary op e = .unary op e := by
    unfold applyUnary
    split
    · exact absurd rfl (hop rfl _)
    · rfl
  rw [out_unary_op hahead (by rw [hkind, unaryOp?_kind]) hread, happly]
  rfl

theorem readsOperand_element {array : String} {index : Expression}
    (hi : ReadsOperation arrays index) : ReadsOperand arrays (.element array index) := by
  intro d m s ts rest ha _ hd hm
  rw [Expression.kinds] at ha
  obtain ⟨t, vs, rfl, ht, hahead, hvs⟩ := ha.cons
  obtain ⟨u, ws, rfl, hu, hahead', hws⟩ := hvs.cons
  obtain ⟨us, xs, rfl, hindex, hxs⟩ := hws.append
  obtain ⟨v, rfl, hv, hclose⟩ := hxs.single
  have hopen := Token.kind_of_reading hu (by simp)
  have hend := Token.kind_of_reading hv (by simp)
  have hlt := size_skip_lt hahead
  have hlt' := size_skip_lt hahead'
  have hread := hi.read (d := d) hindex (stops_of_endsExpression (by
    rw [State.next_of_ahead hclose, hend]; rfl)) (by omega)
  obtain ⟨m, rfl⟩ : ∃ m', m = m' + 1 := ⟨m - 1, by omega⟩
  rw [out_unary_name hahead (Token.name?_of_reading ht),
    out_nameSuffix_element hahead' hopen hread hclose hend, ← State.skip_append]
  rfl

/-! ### Reading calls -/

def argumentPass (p : Parser Expression) (args : List Expression) :
    Parser (Pass (List Expression) (List Expression)) := do
  let args := args ++ [← p]
  if ← accept (.symbol .comma) then return .again args
  else
    expectSymbol .rightParen ")"
    return .done args

theorem out_arguments_nil (h : s.ahead = t :: rest) (hk : t.kind = .symbol .rightParen) :
    out (arguments p) s = (.ok [], s.skip [t]) := by
  unfold arguments
  rw [← hk, out_bind_of_ok (out_accept_skip h)]
  rfl

theorem out_arguments (hk : s.next.kind ≠ .symbol .rightParen)
    (hlist : out atVariableList s = (.ok false, s)) :
    out (arguments p) s = out (repeatUpTo (argumentPass p) (s.size + 1) []) s := by
  unfold arguments
  rw [out_bind_of_ok (out_accept_of_ne hk)]
  simp only [Bool.false_eq_true, if_false]
  rw [out_bind_of_ok hlist]
  rfl

theorem out_argumentPass_last {args : List Expression} {n : Nat} (he : out p s = (.ok e, s₁))
    (hu : s₁.ahead = u :: behind) (hk : u.kind = .symbol .rightParen) :
    out (repeatUpTo (argumentPass p) (n + 1) args) s = (.ok (args ++ [e]), s₁.skip [u]) := by
  have hpass : out (argumentPass p args) s = (.ok (.done (args ++ [e])), s₁.skip [u]) := by
    unfold argumentPass
    rw [out_bind_of_ok he, out_bind_of_ok (out_accept_of_ne (by simp [State.next_of_ahead hu, hk]))]
    simp only [Bool.false_eq_true, if_false]
    rw [out_bind_of_ok (out_expectSymbol_skip hu hk)]
    rfl
  rw [repeatUpTo, out_bind_of_ok hpass]
  rfl

theorem out_argumentPass_comma {args : List Expression} {n : Nat} (he : out p s = (.ok e, s₁))
    (hu : s₁.ahead = u :: behind) (hk : u.kind = .symbol .comma) :
    out (repeatUpTo (argumentPass p) (n + 1) args) s =
      out (repeatUpTo (argumentPass p) n (args ++ [e])) (s₁.skip [u]) := by
  have hpass : out (argumentPass p args) s = (.ok (.again (args ++ [e])), s₁.skip [u]) := by
    unfold argumentPass
    rw [out_bind_of_ok he, ← hk, out_bind_of_ok (out_accept_skip hu)]
    rfl
  rw [repeatUpTo, out_bind_of_ok hpass]

theorem argumentKinds_cons (arg arg' : Expression) (args : List Expression) :
    argumentKinds (arg :: arg' :: args) =
      arg.kinds 1 ++ .symbol .comma :: argumentKinds (arg' :: args) := by
  rw [argumentKinds]
  exact nofun

theorem out_argument_loop {args : List Expression} (hargs : ∀ a ∈ args, ReadsOperation arrays a)
    (hne : args ≠ []) {d n : Nat} {before : List Expression}
    (ha : Ahead arrays (argumentKinds args ++ [.symbol .rightParen]) ts rest s) (hd : s.size < d)
    (hn : s.size < n) : out (repeatUpTo (argumentPass (operation d 1)) n before) s =
      (.ok (before ++ args), s.skip ts) := by
  induction args generalizing n before s ts with
  | nil => exact absurd rfl hne
  | cons arg args ih =>
    obtain ⟨n, rfl⟩ : ∃ n', n = n' + 1 := ⟨n - 1, by omega⟩
    have harg := hargs arg List.mem_cons_self
    cases args with
    | nil =>
      rw [argumentKinds] at ha
      obtain ⟨us, vs, rfl, hfirst, hvs⟩ := ha.append
      obtain ⟨u, rfl, hu, hclose⟩ := hvs.single
      have hend := Token.kind_of_reading hu (by simp)
      have hread := harg.read hfirst (stops_of_endsExpression (by
        rw [State.next_of_ahead hclose, hend]; rfl)) hd
      rw [out_argumentPass_last hread hclose hend, ← State.skip_append]
    | cons arg' args =>
      rw [argumentKinds_cons, List.append_assoc, List.cons_append] at ha
      obtain ⟨us, vs, rfl, hfirst, hvs⟩ := ha.append
      obtain ⟨u, ws, rfl, hu, hcomma, hws⟩ := hvs.cons
      have hkind := Token.kind_of_reading hu (by simp)
      have hread := harg.read hfirst (stops_of_endsExpression (by
        rw [State.next_of_ahead hcomma, hkind]; rfl)) hd
      have hle := size_skip_le s us
      have hlt := size_skip_lt hcomma
      rw [out_argumentPass_comma hread hcomma hkind, ih (fun a ha => hargs a (.tail _ ha)) (by simp)
        hws (by omega) (by omega), List.append_assoc, ← State.skip_append, ← State.skip_append]
      rfl

/-- The first two kinds of an expression and what follows it: neither do they close a call nor are
they two names. -/
def Leads (ks : List Token.Kind) : Prop :=
  ∃ k k' more, ks = k :: k' :: more ∧ k ≠ .symbol .rightParen ∧
    ∀ name name', k = .name name → k' ≠ .name name'

theorem leads_cons {k k' : Token.Kind} (more : List Token.Kind) (hk : k ≠ .symbol .rightParen)
    (hn : (∀ name, k ≠ .name name) ∨ ∀ name, k' ≠ .name name) : Leads (k :: k' :: more) :=
  ⟨k, k', more, rfl, hk, fun name name' h h' => hn.elim (· name h) (· name' h')⟩

theorem leads_kinds (e : Expression) (j : Nat) {k : Token.Kind} (hk : ∀ name, k ≠ .name name)
    (more : List Token.Kind) : Leads (e.kinds j ++ k :: more) := by
  have hlead {k' : Token.Kind} (ks : List Token.Kind) (hne : k' ≠ .symbol .rightParen)
      (hn : ∀ name, k' ≠ .name name) : Leads (k' :: (ks ++ k :: more)) := by
    cases ks with
    | nil => exact leads_cons _ hne (.inl hn)
    | cons l ks => exact leads_cons _ hne (.inl hn)
  match e with
  | .number x =>
    rw [Expression.kinds]
    split
    · exact hlead [_] (by simp) (by simp)
    · exact hlead [] (by simp) (by simp)
  | .text s => exact hlead [] (by simp) (by simp)
  | .missing => exact hlead [] (by simp) (by simp)
  | .ref name => exact leads_cons _ (by simp) (.inr hk)
  | .macroRef name => exact hlead [] (by simp) (by simp)
  | .binary op left right =>
    rw [Expression.kinds]
    split
    · exact hlead _ (by simp) (by simp)
    · have hleft := leads_kinds left op.leftStrength (kind_ne_name op)
        (right.kinds (rightStrength op) ++ k :: more)
      rwa [List.append_assoc, List.cons_append]
  | .unary op operand =>
    cases op <;> exact hlead _ (by simp [UnaryOp.kind]) (by simp [UnaryOp.kind])
  | .call function args => exact leads_cons _ (by simp) (.inr (by simp))
  | .element array index => exact leads_cons _ (by simp) (.inr (by simp))

theorem leads_argumentKinds (arg : Expression) (args : List Expression) :
    Leads (argumentKinds (arg :: args) ++ [.symbol .rightParen]) := by
  cases args with
  | nil =>
    rw [argumentKinds]
    exact leads_kinds arg 1 (by simp) []
  | cons arg' args =>
    rw [argumentKinds_cons, List.append_assoc]
    exact leads_kinds arg 1 (by simp) _

theorem out_atVariableList {ks : List Token.Kind} (ha : Ahead arrays ks ts rest s)
    (hl : Leads ks) : out atVariableList s = (.ok false, s) := by
  obtain ⟨k, k', more, rfl, -, hnames⟩ := hl
  obtain ⟨t, us, rfl, rfl, hahead, hus⟩ := ha.cons
  obtain ⟨u, vs, rfl, rfl, -, -⟩ := hus.cons
  unfold atVariableList
  rw [out_bind_of_ok (out_peek s), State.next_of_ahead hahead]
  split
  · rename_i word hword
    have hfirst : t.reading = .name word := by simp [Token.reading, Token.name?, hword]
    have hsecond : u.name? = none := by
      cases hname : u.name? with
      | none => rfl
      | some name => exact absurd (by simp [Token.reading, hname]) (hnames word name hfirst)
    have hnext : s.second = u := by
      rw [State.second, hahead]
      rfl
    rw [out_bind_of_ok (out_peekNext s), hnext, hsecond, Option.isSome_none, Bool.and_false]
    rfl
  · rfl

theorem next_ne_rightParen {ks : List Token.Kind} (ha : Ahead arrays ks ts rest s)
    (hl : Leads ks) : s.next.kind ≠ .symbol .rightParen := by
  obtain ⟨k, k', more, rfl, hk, -⟩ := hl
  obtain ⟨t, us, rfl, rfl, hahead, -⟩ := ha.cons
  rw [State.next_of_ahead hahead]
  intro hkind
  exact hk (by simp [Token.reading, Token.name?, hkind, Token.Kind.isSoft])

theorem readsOperand_call {function : String} {args : List Expression}
    (hf : arrays.contains (Text.upper function) = false)
    (hargs : ∀ a ∈ args, ReadsOperation arrays a) :
    ReadsOperand arrays (.call function args) := by
  intro d m s ts rest ha _ hd hm
  rw [Expression.kinds] at ha
  obtain ⟨t, vs, rfl, ht, hahead, hvs⟩ := ha.cons
  obtain ⟨u, ws, rfl, hu, hahead', hws⟩ := hvs.cons
  have hopen := Token.kind_of_reading hu (by simp)
  have hlt := size_skip_lt hahead
  have hlt' := size_skip_lt hahead'
  have hread : out (arguments (operation d 1)) ((s.skip [t]).skip [u]) =
      (.ok args, ((s.skip [t]).skip [u]).skip ws) := by
    cases args with
    | nil =>
      rw [argumentKinds] at hws
      obtain ⟨v, rfl, hv, hclose⟩ := hws.single
      exact out_arguments_nil hclose (Token.kind_of_reading hv (by simp))
    | cons arg args =>
      have hleads := leads_argumentKinds arg args
      rw [out_arguments (next_ne_rightParen hws hleads) (out_atVariableList hws hleads),
        out_argument_loop hargs (by simp) hws (by omega) (Nat.lt_succ_self _), List.nil_append]
  obtain ⟨m, rfl⟩ : ∃ m', m = m' + 1 := ⟨m - 1, by omega⟩
  rw [out_unary_name hahead (Token.name?_of_reading ht),
    out_nameSuffix_call hahead' hopen (by rwa [State.arrays_skip, ha.arrays]) hread]
  rfl

/-- What a text can denote is read back from its text. -/
theorem readsBack_of_regular (h : Regular arrays e) : ReadsBack arrays e := by
  induction h with
  | @number x _ =>
    refine (readsOperand_number x).readsBack fun j => ?_
    rw [Expression.kinds, Expression.kinds]
  | text s => exact (readsOperand_atom rfl rfl).readsBack fun _ => rfl
  | missing => exact (readsOperand_atom rfl rfl).readsBack fun _ => rfl
  | ref name => exact (readsOperand_ref name).readsBack fun _ => rfl
  | macroRef name => exact (readsOperand_atom rfl rfl).readsBack fun _ => rfl
  | binary op _ _ ihl ihr => exact readsBack_binary op ihl.operation ihr.operation
  | unary hop _ ih => exact (readsOperand_unary hop ih.operand).readsBack fun _ => rfl
  | call hf _ ih =>
    exact (readsOperand_call hf fun a ha => (ih a ha).operation).readsBack fun _ => rfl
  | element array _ ih => exact (readsOperand_element ih.operation).readsBack fun _ => rfl

theorem out_expression (h : Regular s.arrays e) (hahead : s.ahead = ts ++ rest)
    (hkinds : ts.map Token.reading = e.kinds 1) (he : s.eof.kind = .endOfInput)
    (hend : ∀ t ∈ rest.head?, endsExpression t.kind = true) :
    out expression s = (.ok e, { s with ahead := rest, last := ts.getLastD s.last }) := by
  have hstops : Stops 1 (s.skip ts) := by
    apply stops_of_endsExpression
    rw [State.skip_eq hahead, State.next]
    cases rest with
    | nil =>
      change endsExpression s.eof.kind = true
      rw [he]
      rfl
    | cons t rest => exact hend t rfl
  have hread := (readsBack_of_regular h).operation.read ⟨rfl, hahead, hkinds⟩ hstops
    (Nat.lt_succ_self s.size)
  unfold expression
  rw [← State.skip_eq hahead, out_bind_of_ok (out_get s)]
  exact hread

/-- Tokens without the missing number denote expressions that have a text. -/
theorem regular_of_out_expression {s' : State} (he : s.eof.kind = .endOfInput)
    (hs : NumbersPresent s.ahead) (h : out expression s = (.ok e, s')) : Regular s.arrays e := by
  let c : Frame := ⟨none, [], fun _ => True, s.size, false, false, true⟩
  have hready : c.Ready s :=
    ⟨he, Nat.le_refl _, fun _ _ => trivial, (fun hc => nomatch hc), (fun hc => nomatch hc),
      fun _ => hs⟩
  have hran := framed_expression (c := c) (Nat.zero_le _) hready
  rw [h] at hran
  exact (hran.ok e rfl).regular rfl

end Parser

open StepLang.Parser

/-- A regular expression is read back from its tokens, up to the first token that cannot continue
it, and an expression read from scanned tokens is always regular. -/
theorem expression_inverts_printing :
    (∀ (s : State) (e : Expression) (ts rest : List Token), s.eof.kind = .endOfInput →
      Regular s.arrays e → s.ahead = ts ++ rest → ts.map Token.reading = e.kinds 1 →
      (∀ t ∈ rest.head?, endsExpression t.kind = true) →
      out expression s = (.ok e, { s with ahead := rest, last := ts.getLastD s.last })) ∧
    ∀ (source : String) (tokens : List Token) (s s' : State) (e : Expression),
      Token.scan source = .ok tokens → s.eof.kind = .endOfInput → s.ahead ⊆ tokens →
      out expression s = (.ok e, s') → Regular s.arrays e := by
  constructor
  · intro s e ts rest he hregular hahead hkinds hend
    exact out_expression hregular hahead hkinds he hend
  · intro source tokens s s' e hscan he hsub hout
    exact regular_of_out_expression he (fun t ht => Token.present_scan hscan t (hsub ht)) hout

/-- An operation on a call, `-(a + 1) ** max(of, v[-2])`. -/
def nested : Expression :=
  .binary .pow (.unary .neg (.binary .add (.ref "a") (.number 1)))
    (.call "max" [.ref "of", .element "v" (.number (-2))])

def nestedTokens : List Token :=
  [⟨.symbol .minus, "-", ⟨1, 1⟩⟩, ⟨.symbol .leftParen, "(", ⟨1, 2⟩⟩, ⟨.name "a", "a", ⟨1, 3⟩⟩,
    ⟨.symbol .plus, "+", ⟨1, 5⟩⟩, ⟨.number 1, "1", ⟨1, 7⟩⟩, ⟨.symbol .rightParen, ")", ⟨1, 8⟩⟩,
    ⟨.symbol .starStar, "**", ⟨1, 10⟩⟩, ⟨.keyword .MAX, "max", ⟨1, 13⟩⟩,
    ⟨.symbol .leftParen, "(", ⟨1, 16⟩⟩, ⟨.name "of", "of", ⟨1, 17⟩⟩, ⟨.symbol .comma, ",", ⟨1, 19⟩⟩,
    ⟨.name "v", "v", ⟨1, 21⟩⟩, ⟨.symbol .leftBracket, "[", ⟨1, 22⟩⟩, ⟨.symbol .minus, "-", ⟨1, 23⟩⟩,
    ⟨.number 2, "2", ⟨1, 24⟩⟩, ⟨.symbol .rightBracket, "]", ⟨1, 25⟩⟩,
    ⟨.symbol .rightParen, ")", ⟨1, 26⟩⟩, ⟨.symbol .semicolon, ";", ⟨1, 27⟩⟩]

def beforeNested : State :=
  { ahead := nestedTokens, eof := ⟨.endOfInput, "", ⟨1, 28⟩⟩, last := ⟨.endOfInput, "", ⟨1, 28⟩⟩ }

theorem regular_nested : Regular [] nested := by
  refine .binary .pow (.unary (fun _ _ h => nomatch h) ?_) (.call rfl ?_)
  · exact .binary .add (.ref "a") (.number (by decide +kernel))
  · intro arg harg
    rcases List.mem_pair.mp harg with rfl | rfl
    · exact .ref "of"
    · exact .element "v" (.number (by decide +kernel))

theorem expression_inverts_printing_nested :
    Token.scan "-(a + 1) ** max(of, v[-2]);" =
        .ok (nestedTokens ++ [⟨.endOfInput, "", ⟨1, 28⟩⟩]) ∧
      out expression beforeNested = (.ok nested, { beforeNested with
        ahead := [⟨.symbol .semicolon, ";", ⟨1, 27⟩⟩]
        last := ⟨.symbol .rightParen, ")", ⟨1, 26⟩⟩ }) ∧
      Regular [] nested := by
  have hscan : Token.scan "-(a + 1) ** max(of, v[-2]);" =
      .ok (nestedTokens ++ [⟨.endOfInput, "", ⟨1, 28⟩⟩]) := by decide +kernel
  have hread := expression_inverts_printing.1 beforeNested nested nestedTokens.dropLast
    [⟨.symbol .semicolon, ";", ⟨1, 27⟩⟩] rfl regular_nested rfl (by decide +kernel) (by simp; rfl)
  exact ⟨hscan, hread, expression_inverts_printing.2 _ _ beforeNested _ nested hscan rfl
    (List.subset_append_left _ _) hread⟩

end StepLang
