import InfixCalculator.Proofs.Grammar
import InfixCalculator.Proofs.Scanning

/-!
# Positions do not matter

A change of positions is a function `f` that says for each position which one stands in its place.

- `run_relocate`, `convertFrom_relocate`: the conversion of tokens at other positions is the conversion of the tokens,
  with its output, its reports and its failure at the other positions;
- `run_relocate` of the evaluation: positions have no part in it;
- `scan_shift`: the tokens of a text that stands further to the right are its tokens at positions shifted;
- `Derives.relocate`, `Derives.of_unplaced`: the grammar does not see positions.
-/

namespace InfixCalculator

variable (f : Option Nat → Option Nat)

/-- The token at another position. -/
def Token.relocate (t : Token) : Token :=
  { t with position := f t.position }

/-- The token without its position. -/
def Token.unplaced (t : Token) : Token :=
  t.relocate fun _ => none

/-- The word at another position. -/
def Diagnostic.relocate (d : Diagnostic) : Diagnostic :=
  { d with position := f d.position }

/-- The output at other positions. -/
def Postfix.relocate (a : Postfix) : Postfix :=
  ⟨a.tokens.map (Token.relocate f), a.diagnostics.map (Diagnostic.relocate f)⟩

/-- The failure at another position. -/
def Failure.relocate : Failure → Failure
  | .unmatched paren p => .unmatched paren (f p)
  | .unparseable token p => .unparseable token (f p)
  | e => e

/-- The fault at another position. -/
def Fault.relocate : Fault → Fault
  | .failure e => .failure (e.relocate f)
  | e => e

/-- The tree at other positions. -/
def Tree.relocate : Tree → Tree
  | .leaf t => .leaf (t.relocate f)
  | .node op mark l r => .node op (mark.relocate f) l.relocate r.relocate

/-! ## Tokens and trees -/

namespace Token

variable (t : Token)

@[simp] theorem kind_relocate : (t.relocate f).kind = t.kind := rfl

@[simp] theorem text_relocate : (t.relocate f).text = t.text := rfl

theorem kind_of_unplaced {s t : Token} (h : s.unplaced = t.unplaced) : s.kind = t.kind :=
  have hk : s.unplaced.kind = t.unplaced.kind := by rw [h]
  hk

theorem text_of_unplaced {s t : Token} (h : s.unplaced = t.unplaced) : s.text = t.text :=
  have ht : s.unplaced.text = t.unplaced.text := by rw [h]
  ht

end Token

theorem Conversion.keeps_relocate : Keeps (Token.relocate f) :=
  ⟨fun _ => rfl, fun _ _ => rfl⟩

theorem lefts_relocate (ts : List Token) : lefts (ts.map (Token.relocate f)) = lefts ts :=
  (Conversion.keeps_relocate f).lefts ts

theorem rights_relocate (ts : List Token) : rights (ts.map (Token.relocate f)) = rights ts :=
  (Conversion.keeps_relocate f).rights ts

theorem Tree.value_relocate (e : Tree) : (e.relocate f).value = e.value := by
  induction e with
  | leaf t => rfl
  | node op mark l r ihl ihr => rw [Tree.relocate, Tree.value, Tree.value, ihl, ihr]

/-- The grammar does not see a change of positions. -/
theorem Derives.relocate {k : Nat} {ts : List Token} {e : Tree} (h : Derives k ts e) :
    Derives k (ts.map (Token.relocate f)) (e.relocate f) := by
  induction h with
  | operand h => exact .operand h
  | group hl hr _ ih =>
    rw [List.map_append, List.map_cons]
    exact .group hl hr ih
  | lift _ ih => exact .lift ih
  | node hm hop _ _ ihl ihr =>
    rw [List.map_append, List.map_cons]
    exact .node hm hop ihl ihr

/-- Tokens that differ from those of an expression in their positions only are an expression with the same value. -/
theorem Derives.of_unplaced {k : Nat} {ts ts' : List Token} {e : Tree} (h : Derives k ts e)
    (ht : ts'.map Token.unplaced = ts.map Token.unplaced) : ∃ e', Derives k ts' e' ∧ e'.value = e.value := by
  induction h generalizing ts' with
  | @operand t h =>
    obtain ⟨s, rfl, hs⟩ := List.map_eq_singleton_iff.mp ht
    have hk := Token.kind_of_unplaced hs
    refine ⟨.leaf s, .operand ?_, ?_⟩
    · rw [← h, Token.isOperand, Token.isOperand, hk]
    · rw [Tree.value, Tree.value, Token.amount, Token.amount, hk]
  | @group l r ts e hl hr _ ih =>
    rw [List.map_append, List.map_cons] at ht
    obtain ⟨xs, ys, rfl, hxs, hys⟩ := List.map_eq_append_iff.mp ht
    obtain ⟨l', ts', rfl, hl', hts'⟩ := List.map_eq_cons_iff.mp hxs
    obtain ⟨r', rfl, hr'⟩ := List.map_eq_singleton_iff.mp hys
    obtain ⟨e', hd, hv⟩ := ih hts'
    refine ⟨e', .group ?_ ?_ hd, hv⟩
    · rw [Token.isLeftParen_iff] at hl ⊢
      exact (Token.kind_of_unplaced hl').trans hl
    · rw [Token.isRightParen_iff] at hr ⊢
      exact (Token.kind_of_unplaced hr').trans hr
  | lift _ ih =>
    obtain ⟨e', hd, hv⟩ := ih ht
    exact ⟨e', .lift hd, hv⟩
  | @node k op mark ls rs l r hm hop _ _ ihl ihr =>
    rw [List.map_append, List.map_cons] at ht
    obtain ⟨ls', rest, rfl, hls, hrest⟩ := List.map_eq_append_iff.mp ht
    obtain ⟨mark', rs', rfl, hmark, hrs⟩ := List.map_eq_cons_iff.mp hrest
    obtain ⟨l', hdl, hvl⟩ := ihl hls
    obtain ⟨r', hdr, hvr⟩ := ihr hrs
    have hm' : mark'.operator? = some op := by
      rw [Token.operator?_eq_some_iff] at hm ⊢
      exact ⟨(Token.kind_of_unplaced hmark).trans hm.1, (Token.text_of_unplaced hmark).trans hm.2⟩
    exact ⟨.node op mark' l' r', .node hm' hop hdl hdr, by rw [Tree.value, Tree.value, hvl, hvr]⟩

/-! ## Scanning -/

theorem runTokens_shift {p : Nat} {run : List Char} (h : run.length ≤ p) (n : Nat) :
    runTokens (p + n) run = (runTokens p run).map (Token.relocate (Option.map (· + n))) := by
  cases run with
  | nil => rfl
  | cons c rest =>
    have hp : p + n - (c :: rest).length = p - (c :: rest).length + n := by omega
    rw [runTokens, runTokens, hp]
    · rfl
    · simp
    · simp

theorem delimiterTokens_shift (p n : Nat) (c : Char) :
    delimiterTokens (p + n) c = (delimiterTokens p c).map (Token.relocate (Option.map (· + n))) := by
  unfold delimiterTokens
  split
  · rfl
  · split
    · rfl
    · split <;> rfl

/-- The tokens of a text further to the right are its tokens at positions shifted. -/
theorem scan_shift {p : Nat} {run : List Char} (h : run.length ≤ p) (n : Nat) (cs : List Char) :
    scan (p + n) run cs = (scan p run cs).map (Token.relocate (Option.map (· + n))) := by
  induction cs generalizing p run with
  | nil => exact runTokens_shift h n
  | cons c cs ih =>
    have hp : p + n + 1 = p + 1 + n := by omega
    by_cases hc : isDelimiter c = true
    · rw [scan_cons_delimiter hc, scan_cons_delimiter hc, runTokens_shift h, delimiterTokens_shift, hp,
        ih (Nat.zero_le _), List.map_append, List.map_append]
    · rw [scan_cons_other (by simpa using hc), scan_cons_other (by simpa using hc), hp, ih (by simpa using h)]

/-- The tokens of a text, wherever it stands, are its tokens but for their positions. -/
theorem scan_eq_tokenize (p : Nat) (e : String) :
    scan p [] e.toList = (tokenize e).map (Token.relocate (Option.map (· + p))) := by
  rw [tokenize, ← scan_shift (Nat.le_refl 0), Nat.zero_add]

/-! ## Conversion -/

namespace Conversion

/-- The output of a step and what waits after it, at other positions. -/
def relocated (r : Postfix × List Token) : Postfix × List Token :=
  (r.1.relocate f, r.2.map (Token.relocate f))

theorem step_relocate (policy : Policy) (w : List Token) (t : Token) :
    step policy (w.map (Token.relocate f)) (t.relocate f) =
      ((step policy w t).map (relocated f)).mapError (Fault.relocate f) := by
  cases h : t.kind with
  | leftParen =>
    simp only [step, Token.kind_relocate, h]
    rfl
  | rightParen =>
    simp only [step, Token.kind_relocate, h, (keeps_relocate f).closed?]
    cases closed? w <;> rfl
  | operator =>
    simp only [step, Token.kind_relocate, Token.text_relocate, h, (keeps_relocate f).released]
    cases released t.text w <;> rfl
  | constant x | number x =>
    simp only [step, Token.kind_relocate, h]
    rfl
  | term => cases policy <;> simp [step, h] <;> rfl

/-- A run at other positions. -/
def Run.relocate (r : Run) : Run :=
  ⟨r.output.relocate f, (r.ending.map (List.map (Token.relocate f))).mapError (Fault.relocate f)⟩

theorem relocate_append (a b : Postfix) : (a ++ b).relocate f = a.relocate f ++ b.relocate f := by
  simp [Postfix.relocate, Postfix.tokens_append, Postfix.diagnostics_append]

theorem finish_relocate (w : List Token) :
    finish (w.map (Token.relocate f)) = ((finish w).map (Postfix.relocate f)).mapError (Fault.relocate f) := by
  rw [finish, finish, (keeps_relocate f).find_leftParen]
  cases w.find? Token.isLeftParen <;> rfl

/-- Tokens at other positions, as a change that shows in a conversion. -/
def relocation : Change where
  tokens := Token.relocate f
  waiting := List.map (Token.relocate f)
  output := Postfix.relocate f
  fault := Fault.relocate f
  output_empty := rfl
  output_append := relocate_append f

theorem run_relocate (policy : Policy) (w ts : List Token) :
    run policy (w.map (Token.relocate f)) (ts.map (Token.relocate f)) = (run policy w ts).relocate f := by
  have hstep : ∀ w, ∀ t ∈ ts, step policy (w.map (Token.relocate f)) (t.relocate f) =
      (relocation f).step (step policy w t) := fun w t _ => step_relocate f policy w t
  exact (relocation f).run_eq hstep w

/-- The conversion of tokens at other positions. -/
theorem convertFrom_relocate (policy : Policy) (w ts : List Token) :
    convertFrom policy (w.map (Token.relocate f)) (ts.map (Token.relocate f)) =
      ((convertFrom policy w ts).map (Postfix.relocate f)).mapError (Fault.relocate f) := by
  have hstep : ∀ w, ∀ t ∈ ts, step policy (w.map (Token.relocate f)) (t.relocate f) =
      (relocation f).step (step policy w t) := fun w t _ => step_relocate f policy w t
  exact (relocation f).convertFrom_eq hstep (finish_relocate f) w

end Conversion

/-! ## Evaluation -/

theorem Evaluation.run_relocate (stack : List Float) (ts : List Token) :
    run stack (ts.map (Token.relocate f)) = run stack ts :=
  run_map (g := Token.relocate f) (fun _ _ => rfl) stack ts

end InfixCalculator
