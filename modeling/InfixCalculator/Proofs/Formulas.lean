import InfixCalculator.Proofs.Literals
import InfixCalculator.Proofs.Relocation
import InfixCalculator.Proofs.Stages

/-!
# Well-formed expressions have their values

- `Formula k` is a derivation of the infix grammar from the symbols of a text, at level `k`; level `4` is that of whole
  expressions;
- `Spelling ss cs`: the characters `cs` write the symbols `ss`, with any number of spaces before, between and after
  them, but at least one between neighbouring words;
- `scan_spelling`: the tokens of a spelling are those of its symbols;
- `calculation_of_formula`: in every spelling and under all options, a formula is calculated without a fault, without
  a word replaced, and to its value.
-/

namespace InfixCalculator

/-- A symbol of an expression. -/
inductive Symbol where
  | literal (l : Literal)
  | constant (n : ConstantName)
  | operator (op : Operator)
  | leftParen
  | rightParen

namespace Symbol

/-- The characters of a symbol. -/
def text : Symbol → List Char
  | literal l => l.text
  | constant n => n.letters
  | operator op => op.symbol.toList
  | leftParen => ['(']
  | rightParen => [')']

/-- Literals, constants and the operators with a name are words; two words in a row need a space between them. -/
def isWord : Symbol → Bool
  | literal _ | constant _ | operator .power | operator .sqrt => true
  | _ => false

/-- What the token of a symbol is. -/
def kind : Symbol → TokenKind
  | literal l => .number l.value
  | constant n => .constant n.value
  | operator _ => .operator
  | leftParen => .leftParen
  | rightParen => .rightParen

/-- The token of a symbol, apart from its position. -/
def token (s : Symbol) : Token :=
  { kind := s.kind, text := String.ofList s.text }

end Symbol

/-- A derivation of the infix grammar: operands and groups at level zero, and above them the operators of each level,
grouping to the left. -/
inductive Formula : Nat → Type where
  | literal (l : Literal) : Formula 0
  | constant (n : ConstantName) : Formula 0
  | group (f : Formula 4) : Formula 0
  | lift {k : Nat} (f : Formula k) : Formula (k + 1)
  | apply {k : Nat} (op : Operator) (h : op ∈ operatorsAt (k + 1)) (left : Formula (k + 1)) (right : Formula k) :
      Formula (k + 1)

namespace Formula

/-- The symbols of a formula, from left to right. -/
def symbols : {k : Nat} → Formula k → List Symbol
  | _, literal l => [.literal l]
  | _, constant n => [.constant n]
  | _, group f => .leftParen :: f.symbols ++ [.rightParen]
  | _, lift f => f.symbols
  | _, apply op _ l r => l.symbols ++ .operator op :: r.symbols

/-- The value of a formula. -/
def value : {k : Nat} → Formula k → Float
  | _, literal l => l.value
  | _, constant n => n.value
  | _, group f => f.value
  | _, lift f => f.value
  | _, apply op _ l r => op.apply l.value r.value

end Formula

/-- The characters write the symbols, with spaces around them. -/
inductive Spelling : List Symbol → List Char → Prop
  | nil (n : Nat) : Spelling [] (List.replicate n ' ')
  | cons (n : Nat) (s : Symbol) {ss : List Symbol} {cs : List Char} (h : Spelling ss cs)
      (hgap : s.isWord = true → ∀ s' ∈ ss.head?, s'.isWord = true → cs.head? = some ' ') :
      Spelling (s :: ss) (List.replicate n ' ' ++ (s.text ++ cs))

/-! ## Tokens of a spelling -/

theorem Symbol.kindOf_word {s : Symbol} (h : s.isWord = true) : kindOf s.text = s.kind := by
  cases s with
  | literal l => exact kindOf_text l
  | constant n => exact n.kindOf_letters
  | operator op => cases op <;> rfl
  | leftParen | rightParen => cases h

theorem Symbol.isDelimiter_of_mem_word {s : Symbol} (h : s.isWord = true) {c : Char} (hc : c ∈ s.text) :
    isDelimiter c = false := by
  cases s with
  | literal l => exact l.isDelimiter_of_mem_text hc
  | constant n => exact n.isDelimiter_of_mem_letters hc
  | operator op =>
    have hall : ∀ op : Operator, (Symbol.operator op).isWord = true →
        op.symbol.toList.all (fun c => !isDelimiter c) = true := by
      intro op
      cases op <;> decide
    simpa using List.all_eq_true.mp (hall op h) c hc
  | leftParen | rightParen => cases h

theorem Symbol.text_ne_nil (s : Symbol) : s.text ≠ [] := by
  cases s with
  | literal l =>
    obtain ⟨c, cs, h, -⟩ := l.exists_text_eq_cons
    simp [text, h]
  | constant n => exact n.letters_ne_nil
  | operator op => cases op <;> decide
  | leftParen | rightParen => simp [text]

/-- A symbol that is no word is a delimiter with its token. -/
theorem Symbol.exists_delimiter {s : Symbol} (h : s.isWord = false) :
    ∃ c, s.text = [c] ∧ isDelimiter c = true ∧
      ∀ p, (delimiterTokens p c).map Token.unplaced = [s.token] := by
  cases s with
  | literal l => cases h
  | constant n => cases h
  | leftParen => exact ⟨'(', rfl, by decide, fun _ => rfl⟩
  | rightParen => exact ⟨')', rfl, by decide, fun _ => rfl⟩
  | operator op =>
    cases op with
    | sqrt | power => cases h
    | times => exact ⟨'*', rfl, by decide, fun _ => rfl⟩
    | divide => exact ⟨'/', rfl, by decide, fun _ => rfl⟩
    | modulo => exact ⟨'%', rfl, by decide, fun _ => rfl⟩
    | plus => exact ⟨'+', rfl, by decide, fun _ => rfl⟩
    | minus => exact ⟨'-', rfl, by decide, fun _ => rfl⟩

/-- After a word a spelling goes on with a delimiter, or ends. -/
theorem Spelling.head_isDelimiter {ss : List Symbol} {cs : List Char} (h : Spelling ss cs)
    (hgap : ∀ s ∈ ss.head?, s.isWord = true → cs.head? = some ' ') : ∀ c ∈ cs.head?, isDelimiter c = true := by
  cases h with
  | nil n =>
    intro c hc
    cases n with
    | zero => simp at hc
    | succ n =>
      obtain rfl : ' ' = c := by simpa [List.replicate_succ] using hc
      decide
  | cons n s h' _ =>
    cases hs : s.isWord with
    | true =>
      intro c hc
      rw [hgap s (by simp) hs, Option.mem_def, Option.some.injEq] at hc
      subst hc
      decide
    | false =>
      obtain ⟨d, htext, hd, -⟩ := Symbol.exists_delimiter hs
      intro c hc
      cases n with
      | zero =>
        obtain rfl : d = c := by simpa [htext] using hc
        exact hd
      | succ n =>
        obtain rfl : ' ' = c := by simpa [List.replicate_succ] using hc
        decide

/-- The tokens of a spelling are the tokens of its symbols. -/
theorem scan_spelling {ss : List Symbol} {cs : List Char} (h : Spelling ss cs) (p : Nat) :
    (scan p [] cs).map Token.unplaced = ss.map Symbol.token := by
  induction h generalizing p with
  | nil n =>
    have hs := scan_spaces p n []
    rw [List.append_nil] at hs
    rw [hs]
    rfl
  | @cons n s ss cs h hgap ih =>
    rw [scan_spaces, List.map_cons]
    cases hs : s.isWord with
    | true =>
      rw [scan_word s.text_ne_nil (fun c hc => Symbol.isDelimiter_of_mem_word hs hc)
        (h.head_isDelimiter (hgap hs)), List.map_cons, ih]
      congr 1
      show Token.mk (kindOf s.text) _ none none = _
      rw [Symbol.kindOf_word hs]
      rfl
    | false =>
      obtain ⟨c, htext, hc, htoken⟩ := Symbol.exists_delimiter hs
      rw [htext, List.singleton_append, scan_cons_delimiter hc, List.map_append, List.map_append, htoken, ih]
      rfl

/-! ## Derivations -/

theorem Symbol.isTerm_token (s : Symbol) : s.token.isTerm = false := by
  cases s <;> rfl

/-- A formula is an expression of its level, with its value. -/
theorem Formula.derives {k : Nat} (f : Formula k) :
    ∃ e, Derives k (f.symbols.map Symbol.token) e ∧ e.value = f.value := by
  induction f with
  | literal l => exact ⟨_, .operand rfl, rfl⟩
  | constant n => exact ⟨_, .operand rfl, rfl⟩
  | group f ih =>
    obtain ⟨e, hd, hv⟩ := ih
    rw [symbols, List.map_append, List.map_cons]
    exact ⟨e, .group rfl rfl hd, hv⟩
  | lift f ih =>
    obtain ⟨e, hd, hv⟩ := ih
    exact ⟨e, .lift hd, hv⟩
  | apply op h l r ihl ihr =>
    obtain ⟨el, hdl, hvl⟩ := ihl
    obtain ⟨er, hdr, hvr⟩ := ihr
    have hm : (Symbol.operator op).token.operator? = some op :=
      Token.operator?_eq_some_iff.mpr ⟨rfl, by simp [Symbol.token, Symbol.text]⟩
    rw [symbols, List.map_append, List.map_cons]
    exact ⟨.node op _ el er, .node hm h hdl hdr, by rw [Tree.value, value, hvl, hvr]⟩

/-- The tokens of a spelled formula are an expression of its level, with its value, and all words in it have values. -/
theorem Formula.derives_tokenize {k : Nat} (f : Formula k) {s : String} (h : Spelling f.symbols s.toList) :
    ∃ e, Derives k (tokenize s) e ∧ e.value = f.value ∧ ∀ t ∈ tokenize s, t.isTerm = false := by
  obtain ⟨e, hd, hv⟩ := f.derives
  have htok : (tokenize s).map Token.unplaced = f.symbols.map Symbol.token := scan_spelling h 0
  have hunplaced : (f.symbols.map Symbol.token).map Token.unplaced = f.symbols.map Symbol.token := by
    rw [List.map_map]
    rfl
  obtain ⟨e', hd', hv'⟩ := hd.of_unplaced (htok.trans hunplaced.symm)
  refine ⟨e', hd', hv'.trans hv, fun t ht => ?_⟩
  have hm : t.unplaced ∈ f.symbols.map Symbol.token := htok ▸ List.mem_map_of_mem ht
  obtain ⟨sym, -, hsym⟩ := List.mem_map.mp hm
  have hterm := sym.isTerm_token
  rwa [hsym] at hterm

/-! ## Calculation -/

/-- An expression whose tokens are one of the grammar, all of its words having values, is calculated to the value of
its tree. -/
theorem ofExpression_derives {k : Nat} {s : String} {e : Tree} (h : Derives k (tokenize s) e)
    (ht : ∀ t ∈ tokenize s, t.isTerm = false) (policy : Policy) (allowPartial : Bool) :
    Calculation.ofExpression ⟨.ok policy, allowPartial⟩ s = .ok ⟨s, tokenize s, ⟨e.postorder, []⟩, e.value⟩ := by
  have hbal : isBalanced s = true := isBalanced_iff.mpr h.lefts_eq_rights
  have hconv := Conversion.convert_derives h fun t hm => (Or.inr (ht t hm) : policy.Accepts t)
  rw [h.replaced_eq_nil ht] at hconv
  have heval := Evaluation.evaluate_postorder h allowPartial
  rw [Calculation.ofExpression_balanced hbal rfl, hconv]
  simp [Except.bind, heval, Except.map]

/-- However it is spelled and whatever the options, a well-formed expression has a calculation, in which no word is
replaced and the result is the value of the formula. -/
theorem calculation_of_formula (f : Formula 4) {s : String} (h : Spelling f.symbols s.toList) (policy : Policy)
    (allowPartial : Bool) :
    ∃ c, Calculation.ofExpression ⟨.ok policy, allowPartial⟩ s = .ok c ∧ c.diagnostics = [] ∧ c.result = f.value := by
  obtain ⟨e, hd, hv, hterm⟩ := f.derives_tokenize h
  exact ⟨_, ofExpression_derives hd hterm policy allowPartial, rfl, hv⟩

/-- The formula of `4 * 5 POWER 8 SQRT (9 - 7) % pI POWER 10 + .5e1`. -/
def rootFormula : Formula 4 :=
  .apply .plus (by decide)
    (.lift (.apply .modulo (by decide)
      (.apply .times (by decide)
        (.lift (.lift (.lift (.literal (.ofDigits ['4'] (by decide) (by decide))))))
        (.apply .power (by decide)
          (.lift (.lift (.literal (.ofDigits ['5'] (by decide) (by decide)))))
          (.apply .sqrt (by decide) (.lift (.literal (.ofDigits ['8'] (by decide) (by decide))))
            (.group (.apply .minus (by decide)
              (.lift (.lift (.lift (.lift (.literal (.ofDigits ['9'] (by decide) (by decide)))))))
              (.lift (.lift (.lift (.literal (.ofDigits ['7'] (by decide) (by decide)))))))))))
      (.apply .power (by decide) (.lift (.lift (.constant ⟨['p', 'I'], by decide⟩)))
        (.lift (.literal (.ofDigits ['1', '0'] (by decide) (by decide)))))))
    (.lift (.lift (.lift (.literal ⟨[], some ['5'], some ('e', ['1']), by simp, by simp [Number.isDigit], by simp,
      by simp [Number.isDigit], by simp⟩))))

/-- A power stands between a product and a root, a remainder between a product and a power. -/
theorem calculation_of_rootFormula :
    Spelling rootFormula.symbols " 4*5 POWER 8 SQRT(9 -7)%pI POWER 10+.5e1  ".toList ∧
      ∃ c, Calculation.ofExpression ⟨.ok .raise, false⟩ " 4*5 POWER 8 SQRT(9 -7)%pI POWER 10+.5e1  " = .ok c ∧
        c.diagnostics = [] ∧ c.result = rootFormula.value := by
  have hend : Spelling [.operator .power, .literal (.ofDigits ['1', '0'] (by decide) (by decide)), .operator .plus,
      .literal ⟨[], some ['5'], some ('e', ['1']), by simp, by simp [Number.isDigit], by simp,
        by simp [Number.isDigit], by simp⟩] " POWER 10+.5e1  ".toList :=
    .cons 1 _ (.cons 1 _ (.cons 0 _ (.cons 0 _ (.nil 2) (by decide)) (by decide)) (by decide)) (by decide)
  have h : Spelling rootFormula.symbols " 4*5 POWER 8 SQRT(9 -7)%pI POWER 10+.5e1  ".toList :=
    .cons 1 _ (.cons 0 _ (.cons 0 _ (.cons 1 _ (.cons 1 _ (.cons 1 _ (.cons 0 _ (.cons 0 _ (.cons 1 _ (.cons 0 _
      (.cons 0 _ (.cons 0 _ (.cons 0 _ hend (by decide)) (by decide)) (by decide)) (by decide)) (by decide))
        (by decide)) (by decide)) (by decide)) (by decide)) (by decide)) (by decide)) (by decide)) (by decide)
  exact ⟨h, calculation_of_formula rootFormula h .raise false⟩

end InfixCalculator
