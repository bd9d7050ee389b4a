import InfixCalculator.Conversion

/-!
# Kinds of tokens

- what the kind of a token says about it: an operand, an operator, or one of the two parentheses;
- `Token.operator?` is the operator that a token stands for, and `Known` says of tokens that each operator among them
  is one of the seven;
- `Token.posted` is what the conversion puts out for an operand or an operator, `Token.replaced` the word that it
  reports;
- `lefts` and `rights` count parentheses, `operands` and `operators` count the rest.
-/

namespace InfixCalculator

namespace Token

/-- The token closes a group. -/
def isRightParen (t : Token) : Bool :=
  match t.kind with
  | .rightParen => true
  | _ => false

/-- The token opens or closes a group. -/
def isParen (t : Token) : Bool :=
  t.isLeftParen || t.isRightParen

/-- The token is a word without a value. -/
def isTerm (t : Token) : Bool :=
  match t.kind with
  | .term => true
  | _ => false

/-- The token is a number. -/
def isNumber (t : Token) : Bool :=
  match t.kind with
  | .number _ => true
  | _ => false

/-- The token stands where a value does: a number, a constant, or a word that can be replaced by one. -/
def isOperand (t : Token) : Bool :=
  match t.kind with
  | .number _ | .constant _ | .term => true
  | _ => false

/-- The operator that the token stands for. -/
def operator? (t : Token) : Option Operator :=
  if t.isOperator then Operator.ofSymbol? t.text else none

/-- What the conversion puts out for an operand or an operator: a constant becomes the number that it is, a word
becomes zero, and everything else stays as it is. -/
def posted (t : Token) : Token :=
  match t.kind with
  | .constant x => ofNumber x none t.position
  | .term => ofNumber 0 (some "0") t.position
  | _ => t

/-- The word that the conversion reports for a token, if it replaces one. -/
def replaced (t : Token) : List Diagnostic :=
  match t.kind with
  | .term => [⟨t.text, t.position⟩]
  | _ => []

/-- The report of the token as a word without a value. -/
def diagnostic (t : Token) : Diagnostic :=
  ⟨t.text, t.position⟩

/-! ## Kinds exclude each other -/

theorem isOperator_iff {t : Token} : t.isOperator = true ↔ t.kind = .operator := by
  unfold isOperator; split <;> simp_all

theorem isLeftParen_iff {t : Token} : t.isLeftParen = true ↔ t.kind = .leftParen := by
  unfold isLeftParen; split <;> simp_all

theorem isRightParen_iff {t : Token} : t.isRightParen = true ↔ t.kind = .rightParen := by
  unfold isRightParen; split <;> simp_all

theorem isTerm_iff {t : Token} : t.isTerm = true ↔ t.kind = .term := by
  unfold isTerm; split <;> simp_all

/-- Every token is of exactly one of four sorts. -/
theorem sort_cases (t : Token) :
    (t.isOperand = true ∧ t.isOperator = false ∧ t.isLeftParen = false ∧ t.isRightParen = false) ∨
      (t.isOperand = false ∧ t.isOperator = true ∧ t.isLeftParen = false ∧ t.isRightParen = false) ∨
      (t.isOperand = false ∧ t.isOperator = false ∧ t.isLeftParen = true ∧ t.isRightParen = false) ∨
      (t.isOperand = false ∧ t.isOperator = false ∧ t.isLeftParen = false ∧ t.isRightParen = true) := by
  cases h : t.kind <;> simp [isOperand, isOperator, isLeftParen, isRightParen, h]

theorem of_isOperand {t : Token} (h : t.isOperand = true) :
    t.isOperator = false ∧ t.isLeftParen = false ∧ t.isRightParen = false := by
  rcases t.sort_cases with hs | hs | hs | hs <;> simp_all

theorem of_isOperator {t : Token} (h : t.isOperator = true) :
    t.isOperand = false ∧ t.isLeftParen = false ∧ t.isRightParen = false := by
  rcases t.sort_cases with hs | hs | hs | hs <;> simp_all

theorem of_isLeftParen {t : Token} (h : t.isLeftParen = true) :
    t.isOperand = false ∧ t.isOperator = false ∧ t.isRightParen = false := by
  rcases t.sort_cases with hs | hs | hs | hs <;> simp_all

theorem of_isRightParen {t : Token} (h : t.isRightParen = true) :
    t.isOperand = false ∧ t.isOperator = false ∧ t.isLeftParen = false := by
  rcases t.sort_cases with hs | hs | hs | hs <;> simp_all

theorem isParen_iff {t : Token} : t.isParen = true ↔ ¬t.isOperand = true ∧ ¬t.isOperator = true := by
  rcases t.sort_cases with hs | hs | hs | hs <;> simp [isParen, hs]

theorem isOperand_of_isNumber {t : Token} (h : t.isNumber = true) : t.isOperand = true := by
  cases hk : t.kind <;> simp_all [isNumber, isOperand]

theorem operator?_eq_some_iff {t : Token} {op : Operator} :
    t.operator? = some op ↔ t.kind = .operator ∧ t.text = op.symbol := by
  unfold operator?
  split
  · rename_i h
    rw [Operator.ofSymbol?_eq_some_iff]
    exact ⟨fun he => ⟨isOperator_iff.mp h, he.symm⟩, fun he => he.2.symm⟩
  · rename_i h
    exact ⟨fun he => by simp at he, fun he => absurd (isOperator_iff.mpr he.1) h⟩

theorem isOperator_of_operator? {t : Token} {op : Operator} (h : t.operator? = some op) : t.isOperator = true :=
  isOperator_iff.mpr (operator?_eq_some_iff.mp h).1

theorem isLeftParen_of_operator? {t : Token} {op : Operator} (h : t.operator? = some op) : t.isLeftParen = false := by
  simp [isLeftParen, (operator?_eq_some_iff.mp h).1]

theorem operator?_eq_none {t : Token} (h : t.isOperator = false) : t.operator? = none := by
  simp [operator?, h]

theorem posted_of_operator {t : Token} (h : t.isOperator = true) : t.posted = t := by
  simp [posted, isOperator_iff.mp h]

theorem replaced_of_isTerm_eq_false {t : Token} (h : t.isTerm = false) : t.replaced = [] := by
  cases hk : t.kind <;> simp_all [replaced, isTerm]

theorem replaced_of_isTerm {t : Token} (h : t.isTerm = true) : t.replaced = [t.diagnostic] := by
  simp only [replaced, isTerm_iff.mp h, diagnostic]

/-- What is put out is put out as it is. -/
theorem posted_posted (t : Token) : t.posted.posted = t.posted := by
  cases h : t.kind <;> simp [posted, ofNumber, h]

/-- An operand is put out as a number. -/
theorem isNumber_posted {t : Token} (h : t.isOperand = true) : t.posted.isNumber = true := by
  cases hk : t.kind <;> simp_all [isOperand, posted, isNumber, ofNumber]

end Token

/-! ## Lists of tokens -/

/-- Every operator among the tokens is one of the seven. -/
def Known (ts : List Token) : Prop :=
  ∀ t ∈ ts, t.isOperator = true → ∃ op, t.operator? = some op

instance (ts : List Token) : Decidable (Known ts) :=
  decidable_of_iff (∀ t ∈ ts, t.isOperator = true → t.operator?.isSome = true) (by simp [Known, Option.isSome_iff_exists])

/-- The number of left parentheses. -/
def lefts (ts : List Token) : Nat :=
  ts.countP Token.isLeftParen

/-- The number of right parentheses. -/
def rights (ts : List Token) : Nat :=
  ts.countP Token.isRightParen

/-- The number of operands. -/
def operands (ts : List Token) : Nat :=
  ts.countP Token.isOperand

/-- The number of operators. -/
def operators (ts : List Token) : Nat :=
  ts.countP Token.isOperator

theorem Known.tail {t : Token} {ts : List Token} (h : Known (t :: ts)) : Known ts :=
  fun s hs => h s (List.mem_cons_of_mem _ hs)

theorem known_append {xs ys : List Token} : Known (xs ++ ys) ↔ Known xs ∧ Known ys := by
  simp only [Known, List.mem_append]
  exact ⟨fun h => ⟨fun t ht => h t (Or.inl ht), fun t ht => h t (Or.inr ht)⟩,
    fun h t ht => ht.elim (h.1 t) (h.2 t)⟩

@[simp] theorem lefts_append (xs ys : List Token) : lefts (xs ++ ys) = lefts xs + lefts ys :=
  List.countP_append

@[simp] theorem rights_append (xs ys : List Token) : rights (xs ++ ys) = rights xs + rights ys :=
  List.countP_append

@[simp] theorem operands_append (xs ys : List Token) : operands (xs ++ ys) = operands xs + operands ys :=
  List.countP_append

@[simp] theorem operators_append (xs ys : List Token) : operators (xs ++ ys) = operators xs + operators ys :=
  List.countP_append

@[simp] theorem lefts_nil : lefts [] = 0 := rfl

@[simp] theorem rights_nil : rights [] = 0 := rfl

@[simp] theorem operands_nil : operands [] = 0 := rfl

@[simp] theorem operators_nil : operators [] = 0 := rfl

@[simp] theorem lefts_cons (t : Token) (ts : List Token) :
    lefts (t :: ts) = lefts ts + if t.isLeftParen = true then 1 else 0 :=
  List.countP_cons

@[simp] theorem rights_cons (t : Token) (ts : List Token) :
    rights (t :: ts) = rights ts + if t.isRightParen = true then 1 else 0 :=
  List.countP_cons

@[simp] theorem operands_cons (t : Token) (ts : List Token) :
    operands (t :: ts) = operands ts + if t.isOperand = true then 1 else 0 :=
  List.countP_cons

@[simp] theorem operators_cons (t : Token) (ts : List Token) :
    operators (t :: ts) = operators ts + if t.isOperator = true then 1 else 0 :=
  List.countP_cons

/-- The words replaced are the words without a value, in order. -/
theorem flatMap_replaced (ts : List Token) :
    ts.flatMap Token.replaced = (ts.filter Token.isTerm).map Token.diagnostic := by
  induction ts with
  | nil => rfl
  | cons t ts ih =>
    cases ht : t.isTerm with
    | true => simp [ih, ht, Token.replaced_of_isTerm ht]
    | false => simp [ih, ht, Token.replaced_of_isTerm_eq_false ht]

theorem lefts_eq_zero_iff {ts : List Token} : lefts ts = 0 ↔ ∀ t ∈ ts, t.isLeftParen = false := by
  simp [lefts, List.countP_eq_zero]

end InfixCalculator
