/-!
# Operators

The seven binary operators, each with its symbol and its binding level: the smaller the level, the tighter it binds.

* `ofSymbol?` finds the operator of a symbol; `ofSymbol?_eq_some_iff`: it is the one with exactly that symbol.
* `yields?` says whether an operator that waits on the left is applied before one that comes in on the right.
-/

namespace InfixCalculator

/-- The binary operators. -/
inductive Operator where
  | sqrt
  | power
  | times
  | divide
  | modulo
  | plus
  | minus
  deriving DecidableEq

namespace Operator

/-- All operators, the tightest first. -/
def all : List Operator :=
  [sqrt, power, times, divide, modulo, plus, minus]

/-- The symbol in an expression. -/
def symbol : Operator → String
  | sqrt => "SQRT"
  | power => "POWER"
  | times => "*"
  | divide => "/"
  | modulo => "%"
  | plus => "+"
  | minus => "-"

/-- The binding level: a smaller level binds tighter. -/
def level : Operator → Nat
  | sqrt => 1
  | power => 2
  | times => 3
  | divide => 3
  | modulo => 3
  | plus => 4
  | minus => 4

/-- The name of the arithmetic function. -/
def functionName : Operator → String
  | sqrt => "sqrt"
  | power => "power"
  | times => "mul"
  | divide => "div"
  | modulo => "mod"
  | plus => "add"
  | minus => "sub"

/-- The operator whose symbol is a single character. -/
def ofChar? : Char → Option Operator
  | '*' => some times
  | '/' => some divide
  | '%' => some modulo
  | '+' => some plus
  | '-' => some minus
  | _ => none

/-- The operator with the symbol. -/
def ofSymbol? (s : String) : Option Operator :=
  all.find? fun op => op.symbol == s

/-- The operator with the function name. -/
def ofFunctionName? (s : String) : Option Operator :=
  all.find? fun op => op.functionName == s

/-- An operator waiting on the left is applied before the one coming in, unless the latter binds tighter: operators of
one level group to the left. -/
def yields (incoming waiting : Operator) : Bool :=
  waiting.level ≤ incoming.level

/-- A symbol that belongs to no operator. -/
structure Unknown where
  symbol : String
  deriving DecidableEq

/-- The operator of the symbol, or the symbol as the fault. -/
def find (s : String) : Except Unknown Operator :=
  match ofSymbol? s with
  | some op => .ok op
  | none => .error ⟨s⟩

/-- The comparison of two symbols; the one coming in is looked up first. -/
def symbolYields (incoming waiting : String) : Except Unknown Bool := do
  let incoming ← find incoming
  let waiting ← find waiting
  return incoming.yields waiting

/-! ## Small facts -/

theorem mem_all (op : Operator) : op ∈ all := by
  cases op <;> decide

theorem symbol_injective {op op' : Operator} (h : op.symbol = op'.symbol) : op = op' := by
  cases op <;> cases op' <;> first | rfl | exact absurd h (by decide)

/-- The operator found for a symbol is the one with exactly that symbol. -/
theorem ofSymbol?_eq_some_iff {s : String} {op : Operator} : ofSymbol? s = some op ↔ op.symbol = s := by
  constructor
  · intro h
    simpa using List.find?_some h
  · intro h
    cases hf : ofSymbol? s with
    | none =>
      have := List.find?_eq_none.1 hf op (mem_all op)
      simp [h] at this
    | some op' =>
      have h' : op'.symbol = s := by simpa using List.find?_some hf
      rw [symbol_injective (h'.trans h.symm)]

/-- The operators of one character are those with that character as their symbol. -/
theorem ofChar?_eq_some_iff {c : Char} {op : Operator} : ofChar? c = some op ↔ op.symbol = String.singleton c := by
  constructor
  · intro h
    unfold ofChar? at h
    split at h <;> simp_all <;> subst h <;> rfl
  · intro h
    cases op
    all_goals
      have hc := congrArg String.toList h
      simp [symbol] at hc
      try subst hc; rfl

end Operator

end InfixCalculator
