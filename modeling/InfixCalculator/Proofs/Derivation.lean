import InfixCalculator.Proofs.Forest

/-!
# The tree of an expression

The conversion of an expression lists its tree, and from the list the tree can be built again; so there is one tree only.

- `Tree.leaves` are the operands of a tree from left to right, and `Derives.leaves_eq`: those of the expression are those
  of its tree;
- `Tree.posted` is the tree with its leaves as they are put out; with the leaves themselves it determines the tree
  (`Tree.eq_of_posted`);
- `Derives.unique`: an expression has one tree;
- `convert_derivation`: an expression is converted to the postorder of its tree, with a report of each leaf without a
  value.
-/

namespace InfixCalculator

namespace Tree

/-- The leaves, from left to right. -/
def leaves : Tree → List Token
  | leaf t => [t]
  | node _ _ l r => l.leaves ++ r.leaves

/-- The tree with its leaves as they are put out. -/
def posted : Tree → Tree
  | leaf t => leaf t.posted
  | node op mark l r => node op mark l.posted r.posted

/-- The words replaced are the leaves without a value. -/
theorem replaced_eq (e : Tree) : e.replaced = (e.leaves.filter Token.isTerm).map Token.diagnostic := by
  rw [← flatMap_replaced]
  induction e with
  | leaf t => simp [replaced, leaves]
  | node op mark l r ihl ihr => simp [replaced, leaves, ihl, ihr]

theorem postorder_posted (e : Tree) : e.posted.postorder = e.postorder := by
  induction e with
  | leaf t => simp [posted, postorder, Token.posted_posted]
  | node op mark l r ihl ihr => simp [posted, postorder, ihl, ihr]

theorem leaves_posted (e : Tree) : e.posted.leaves = e.leaves.map Token.posted := by
  induction e with
  | leaf t => rfl
  | node op mark l r ihl ihr => simp [posted, leaves, ihl, ihr]

theorem length_leaves_of_posted {e e' : Tree} (h : e.posted = e'.posted) : e.leaves.length = e'.leaves.length := by
  have hlen := congrArg (fun e : Tree => e.leaves.length) h
  simpa only [leaves_posted, List.length_map] using hlen

/-- A tree is determined by its leaves and by the tree in which they are put out. -/
theorem eq_of_posted {e e' : Tree} (h : e.posted = e'.posted) (hl : e.leaves = e'.leaves) : e = e' := by
  induction e generalizing e' with
  | leaf t =>
    cases e' with
    | leaf t' => exact congrArg leaf (List.head_eq_of_cons_eq hl)
    | node op' mark' l' r' => cases h
  | node op mark l r ihl ihr =>
    cases e' with
    | leaf t' => cases h
    | node op' mark' l' r' =>
      obtain ⟨rfl, rfl, hpl, hpr⟩ := Tree.node.inj h
      obtain ⟨hll, hlr⟩ := List.append_inj hl (length_leaves_of_posted hpl)
      rw [ihl hpl hll, ihr hpr hlr]

end Tree

namespace Derives

variable {k k' : Nat} {ts : List Token} {e e' : Tree}

/-- The leaves of the tree are the operands of the expression. -/
theorem leaves_eq (h : Derives k ts e) : e.leaves = ts.filter Token.isOperand := by
  induction h with
  | operand h => simp [Tree.leaves, h]
  | group hl hr _ ih => simp [ih, Token.of_isLeftParen hl, Token.of_isRightParen hr]
  | lift _ ih => exact ih
  | node hm _ _ _ ihl ihr => simp [Tree.leaves, ihl, ihr, Token.of_isOperator (Token.isOperator_of_operator? hm)]

theorem sound_posted (h : Derives k ts e) : e.posted.Sound := by
  induction h with
  | operand h => exact Token.isNumber_posted h
  | group _ _ _ ih => exact ih
  | lift _ ih => exact ih
  | node hm _ _ _ ihl ihr => exact ⟨hm, ihl, ihr⟩

/-- What is put out for an expression lists one tree. -/
theorem lists_postorder (h : Derives k ts e) : Tree.Lists [e.posted] e.postorder := by
  constructor
  · exact List.forall_mem_singleton.mpr h.sound_posted
  · rw [List.flatMap_singleton, Tree.postorder_posted]

/-- Under the policy to replace words, every expression is converted. -/
theorem converted (h : Derives k ts e) : Conversion.convert .recover ts = .ok ⟨e.postorder, e.replaced⟩ :=
  Conversion.convert_derives h fun _ _ => Or.inl rfl

/-- An expression has one tree, whatever its level. -/
theorem unique (h : Derives k ts e) (h' : Derives k' ts e') : e = e' := by
  have hpost : e.postorder = e'.postorder :=
    congrArg Postfix.tokens (Except.ok.inj (h.converted.symm.trans h'.converted))
  -- the output does not tell a constant from a number, so the leaves are compared on their own
  have hone : [e.posted] = [e'.posted] := h.lists_postorder.unique (hpost ▸ h'.lists_postorder)
  exact Tree.eq_of_posted (List.head_eq_of_cons_eq hone) (h.leaves_eq.trans h'.leaves_eq.symm)

end Derives

namespace Conversion

/-- An expression is converted to the postorder of its tree, of which there is one only, and the leaves without a value
are reported from left to right. -/
theorem convert_derivation {ts : List Token} {e : Tree} (h : Derives 4 ts e) :
    convert .recover ts = .ok ⟨e.postorder, (e.leaves.filter Token.isTerm).map Token.diagnostic⟩ ∧
      e.leaves = ts.filter Token.isOperand ∧ ∀ e', Derives 4 ts e' → e' = e := by
  refine ⟨?_, h.leaves_eq, fun e' h' => h'.unique h⟩
  rw [h.converted, e.replaced_eq]

/-- The tree of `2 SQRT (x + PI)`; some of its tokens have no position. -/
def rootOfSum : Tree :=
  .node .sqrt (.ofOperator .sqrt (some 2)) (.leaf (.ofNumber 2 (some "2.0") none))
    (.node .plus (.ofOperator .plus none) (.leaf ⟨.term, "x", some 8, none⟩) (.leaf ⟨.constant 3.14, "PI", none, none⟩))

/-- The tokens of the tree, with the parentheses. -/
def rootOfSumTokens : List Token :=
  [.ofNumber 2 (some "2.0") none] ++ .ofOperator .sqrt (some 2) ::
    (⟨.leftParen, "(", some 7, none⟩ ::
      ([⟨.term, "x", some 8, none⟩] ++ .ofOperator .plus none :: [⟨.constant 3.14, "PI", none, none⟩]) ++
      [⟨.rightParen, ")", none, none⟩])

/-- The word is put out as zero and reported, and the constant is put out as the number that it is. -/
theorem convert_derivation_rootOfSum :
    Derives 4 rootOfSumTokens rootOfSum ∧
      convert .recover rootOfSumTokens =
        .ok ⟨[.ofNumber 2 (some "2.0") none, .ofNumber 0 (some "0") (some 8), .ofNumber 3.14 none none,
          .ofOperator .plus none, .ofOperator .sqrt (some 2)], [⟨"x", some 8⟩]⟩ := by
  have hsum : Derives 4 _ _ := .node (show (Token.ofOperator .plus none).operator? = some .plus by decide) (by decide)
    (.lift (.lift (.lift (.lift (.operand (t := ⟨.term, "x", some 8, none⟩) rfl)))))
    (.lift (.lift (.lift (.operand (t := ⟨.constant 3.14, "PI", none, none⟩) rfl))))
  have h : Derives 4 rootOfSumTokens rootOfSum :=
    .lift (.lift (.lift (.node (by decide) (by decide) (.lift (.operand rfl)) (.group rfl rfl hsum))))
  exact ⟨h, (convert_derivation h).1⟩

end Conversion

end InfixCalculator
