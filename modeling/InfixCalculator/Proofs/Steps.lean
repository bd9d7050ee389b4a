import InfixCalculator.Evaluation
import InfixCalculator.Proofs.Tokens

/-!
# Steps and runs

Of the conversion:

- `Moves policy w t r` lists what one token can do while `w` waits, with the condition of each case, and `step_moves`
  says that a step does just that;
- `step_stacked`, `run_stacked`: only known operators and left parentheses wait, in every run;
- a run over two lists is a run over the first followed by one over the second (`run_append`), and a run that has
  been stopped stays so (`run_append_error`);
- `convertFrom` is the conversion from any state on;
- `Change` is a change of tokens that shows in the whole conversion, and `Change.run_eq`, `Change.convertFrom_eq`: what
  goes through every step goes through runs and conversions; `Keeps` says of a change that kinds and operators stay,
  which is all that decides what leaves the waiting tokens.

Of the evaluation:

- `step_number`, `step_operator`, `step_operator_short`: what a token does to the values on the stack;
- `run_append`: a run over two lists is a run over the first and then one over the second.
-/

namespace InfixCalculator

namespace Postfix

@[simp] theorem append_empty (a : Postfix) : a ++ ({} : Postfix) = a := by
  cases a
  show Postfix.mk _ _ = _
  simp

theorem append_assoc (a b c : Postfix) : a ++ b ++ c = a ++ (b ++ c) := by
  show Postfix.mk _ _ = Postfix.mk _ _
  simp [tokens_append, diagnostics_append]

@[simp] theorem mk_append (xs ys : List Token) (ds es : List Diagnostic) :
    Postfix.mk xs ds ++ Postfix.mk ys es = ⟨xs ++ ys, ds ++ es⟩ := rfl

end Postfix

/-- The policy lets the token through: it is no word without a value, or such words are replaced. -/
def Policy.Accepts (policy : Policy) (t : Token) : Prop :=
  policy = .recover ∨ t.isTerm = false

namespace Conversion

/-! ## What leaves the waiting tokens -/

/-- A waiting token leaves before an incoming operator: it is an operator that does not bind more loosely. -/
def leaves (op : Operator) (t : Token) : Bool :=
  match t.operator? with
  | some waiting => op.yields waiting
  | none => false

/-- Only left parentheses and known operators are among the waiting tokens. -/
def Stacked (w : List Token) : Prop :=
  ∀ t ∈ w, t.isLeftParen = true ∨ ∃ op, t.operator? = some op

theorem Stacked.of_append {xs ys : List Token} (h : Stacked (xs ++ ys)) : Stacked xs ∧ Stacked ys :=
  ⟨fun t ht => h t (List.mem_append_left _ ht), fun t ht => h t (List.mem_append_right _ ht)⟩

theorem leaves_of_operator? {op waiting : Operator} {t : Token} (h : t.operator? = some waiting) :
    leaves op t = decide (waiting.level ≤ op.level) := by
  simp [leaves, h, Operator.yields]

theorem leaves_eq_false {op : Operator} {t : Token} (h : t.isOperator = false) : leaves op t = false := by
  simp [leaves, Token.operator?_eq_none h]

theorem isLeftParen_of_leaves {op : Operator} {t : Token} (h : leaves op t = true) : t.isLeftParen = false := by
  cases hs : t.operator? with
  | none => simp [leaves, hs] at h
  | some waiting => exact Token.isLeftParen_of_operator? hs

theorem find_symbol {s : String} {op : Operator} (h : s = op.symbol) : Operator.find s = .ok op := by
  simp [Operator.find, Operator.ofSymbol?_eq_some_iff.mpr h.symm]

theorem symbolYields_eq {s s' : String} {op op' : Operator} (h : s = op.symbol) (h' : s' = op'.symbol) :
    Operator.symbolYields s s' = .ok (op.yields op') := by
  unfold Operator.symbolYields
  rw [find_symbol h, find_symbol h']
  rfl

/-- The operators that leave are the longest run on top that does. -/
theorem released_eq {s : String} {op : Operator} (h : s = op.symbol) {w : List Token} (hw : Stacked w) :
    released s w = .ok (w.takeWhile (leaves op), w.dropWhile (leaves op)) := by
  induction w with
  | nil => rfl
  | cons t rest ih =>
    have hr : Stacked rest := fun x hx => hw x (List.mem_cons_of_mem _ hx)
    unfold released
    rcases hw t List.mem_cons_self with hl | ⟨waiting, ht⟩
    · have ho := (Token.of_isLeftParen hl).2.1
      simp [ho, leaves_eq_false ho]
    · have hyields := symbolYields_eq h (Token.operator?_eq_some_iff.mp ht).2
      rw [if_pos (Token.isOperator_of_operator? ht), hyields]
      have hleaves : leaves op t = op.yields waiting := by simp [leaves, ht]
      cases hy : op.yields waiting with
      | false => simp [hleaves, hy]
      | true => simp [hleaves, hy, ih hr]

/-- The latest left parenthesis ends what a right one releases. -/
theorem closed?_append {gone kept : List Token} {l : Token} (hg : ∀ s ∈ gone, s.isLeftParen = false)
    (hl : l.isLeftParen = true) : closed? (gone ++ l :: kept) = some (gone, kept) := by
  induction gone with
  | nil => simp [closed?, hl]
  | cons t rest ih =>
    have hr := ih fun s hs => hg s (List.mem_cons_of_mem _ hs)
    simp [closed?, hg t List.mem_cons_self, hr]

theorem closed?_eq_none {w : List Token} (hw : ∀ s ∈ w, s.isLeftParen = false) : closed? w = none := by
  induction w with
  | nil => rfl
  | cons t rest ih =>
    have hr := ih fun s hs => hw s (List.mem_cons_of_mem _ hs)
    simp [closed?, hw t List.mem_cons_self, hr]

/-- Either no left parenthesis waits, or there is a latest one. -/
theorem exists_latest (w : List Token) :
    (∀ s ∈ w, s.isLeftParen = false) ∨
      ∃ gone l kept, w = gone ++ l :: kept ∧ (∀ s ∈ gone, s.isLeftParen = false) ∧ l.isLeftParen = true := by
  induction w with
  | nil => exact Or.inl (by simp)
  | cons t rest ih =>
    cases ht : t.isLeftParen with
    | true => exact Or.inr ⟨[], t, rest, rfl, by simp, ht⟩
    | false =>
      rcases ih with hr | ⟨gone, l, kept, rfl, hg, hl⟩
      · exact Or.inl (List.forall_mem_cons.mpr ⟨ht, hr⟩)
      · exact Or.inr ⟨t :: gone, l, kept, rfl, List.forall_mem_cons.mpr ⟨ht, hg⟩, hl⟩

/-! ## One step -/

/-- What a token can do while tokens wait, with the condition of each case. -/
inductive Moves (policy : Policy) (w : List Token) (t : Token) : Except Fault (Postfix × List Token) → Prop
  | opens (h : t.isLeftParen = true) : Moves policy w t (.ok ({}, t :: w))
  | closes {gone kept : List Token} {l : Token} (h : t.isRightParen = true) (hw : w = gone ++ l :: kept)
      (hg : ∀ s ∈ gone, s.isLeftParen = false) (hl : l.isLeftParen = true) :
      Moves policy w t (.ok (⟨gone, []⟩, kept))
  | unmatched (h : t.isRightParen = true) (hw : ∀ s ∈ w, s.isLeftParen = false) :
      Moves policy w t (.error (.failure (.unmatched .right t.position)))
  | operator {op : Operator} (h : t.operator? = some op) :
      Moves policy w t (.ok (⟨w.takeWhile (leaves op), []⟩, t :: w.dropWhile (leaves op)))
  | operand (h : t.isOperand = true) (ha : policy.Accepts t) :
      Moves policy w t (.ok (⟨[t.posted], t.replaced⟩, w))
  | refused (h : t.isTerm = true) (hp : policy = .raise) :
      Moves policy w t (.error (.failure (.unparseable t.text t.position)))

theorem step_leftParen {t : Token} (h : t.isLeftParen = true) (policy : Policy) (w : List Token) :
    step policy w t = .ok ({}, t :: w) := by
  simp [step, Token.isLeftParen_iff.mp h]

theorem step_rightParen {t l : Token} (h : t.isRightParen = true) (policy : Policy) {gone kept : List Token}
    (hg : ∀ s ∈ gone, s.isLeftParen = false) (hl : l.isLeftParen = true) :
    step policy (gone ++ l :: kept) t = .ok (⟨gone, []⟩, kept) := by
  simp [step, Token.isRightParen_iff.mp h, closed?_append hg hl]

theorem step_operator {t : Token} {op : Operator} (h : t.operator? = some op) (policy : Policy) {w : List Token}
    (hw : Stacked w) :
    step policy w t = .ok (⟨w.takeWhile (leaves op), []⟩, t :: w.dropWhile (leaves op)) := by
  obtain ⟨hk, hs⟩ := Token.operator?_eq_some_iff.mp h
  simp [step, hk, released_eq hs hw]

theorem step_operand {t : Token} (h : t.isOperand = true) {policy : Policy} (ha : policy.Accepts t)
    (w : List Token) : step policy w t = .ok (⟨[t.posted], t.replaced⟩, w) := by
  cases hk : t.kind with
  | number x => simp [step, hk, Token.posted, Token.replaced]
  | constant x => simp [step, hk, Token.posted, Token.replaced]
  | term =>
    rcases ha with rfl | ha
    · simp [step, hk, Token.posted, Token.replaced, substitute]
    · simp [Token.isTerm, hk] at ha
  | operator | leftParen | rightParen => simp [Token.isOperand, hk] at h

theorem step_moves (policy : Policy) {w : List Token} (hw : Stacked w) {t : Token}
    (ht : t.isOperator = true → ∃ op, t.operator? = some op) : Moves policy w t (step policy w t) := by
  rcases t.sort_cases with hs | hs | hs | hs
  · by_cases ha : policy.Accepts t
    · rw [step_operand hs.1 ha]
      exact .operand hs.1 ha
    · have hterm : t.isTerm = true := by simpa using fun h => ha (Or.inr h)
      have hp : policy = .raise := by
        cases policy with
        | recover => exact absurd (Or.inl rfl) ha
        | raise => rfl
      simp only [step, Token.isTerm_iff.mp hterm, hp]
      exact .refused hterm rfl
  · obtain ⟨op, hop⟩ := ht hs.2.1
    rw [step_operator hop policy hw]
    exact .operator hop
  · rw [step_leftParen hs.2.2.1]
    exact .opens hs.2.2.1
  · rcases exists_latest w with hnone | ⟨gone, l, kept, rfl, hg, hl⟩
    · simp only [step, Token.isRightParen_iff.mp hs.2.2.2, closed?_eq_none hnone]
      exact .unmatched hs.2.2.2 hnone
    · rw [step_rightParen hs.2.2.2 policy hg hl]
      exact .closes hs.2.2.2 rfl hg hl

/-- A step leaves only left parentheses and known operators waiting. -/
theorem step_stacked {policy : Policy} {w w' : List Token} {t : Token} {out : Postfix} (hw : Stacked w)
    (ht : t.isOperator = true → ∃ op, t.operator? = some op) (h : step policy w t = .ok (out, w')) : Stacked w' := by
  have hm := step_moves policy hw ht
  rw [h] at hm
  cases hm with
  | opens hl => exact List.forall_mem_cons.mpr ⟨Or.inl hl, hw⟩
  | closes _ he _ _ =>
    subst he
    exact fun s hs => hw s (by simp [hs])
  | operator hop =>
    exact List.forall_mem_cons.mpr ⟨Or.inr ⟨_, hop⟩, fun s hs => hw s ((List.dropWhile_sublist _).subset hs)⟩
  | operand _ _ => exact hw

/-! ## Runs -/

theorem run_cons {policy : Policy} {w w' : List Token} {t : Token} {out : Postfix}
    (h : step policy w t = .ok (out, w')) (ts : List Token) :
    run policy w (t :: ts) = ⟨out ++ (run policy w' ts).output, (run policy w' ts).ending⟩ := by
  simp [run, h]

theorem run_cons_error {policy : Policy} {w : List Token} {t : Token} {e : Fault}
    (h : step policy w t = .error e) (ts : List Token) : run policy w (t :: ts) = ⟨{}, .error e⟩ := by
  simp [run, h]

theorem run_singleton {policy : Policy} {w w' : List Token} {t : Token} {out : Postfix}
    (h : step policy w t = .ok (out, w')) : run policy w [t] = ⟨out, .ok w'⟩ := by
  rw [run_cons h]
  simp [run]

/-- A run goes on from where the run over the first tokens ended. -/
theorem run_append {policy : Policy} {w w' : List Token} {xs : List Token} {out : Postfix}
    (h : run policy w xs = ⟨out, .ok w'⟩) (ys : List Token) :
    run policy w (xs ++ ys) = ⟨out ++ (run policy w' ys).output, (run policy w' ys).ending⟩ := by
  induction xs generalizing w out with
  | nil =>
    simp only [run, Run.mk.injEq, Except.ok.injEq] at h
    obtain ⟨rfl, rfl⟩ := h
    rfl
  | cons t ts ih =>
    cases hs : step policy w t with
    | error e => simp [run_cons_error hs] at h
    | ok r =>
      obtain ⟨out₁, w₁⟩ := r
      rw [run_cons hs, Run.mk.injEq] at h
      obtain ⟨rfl, he⟩ := h
      rw [List.cons_append, run_cons hs, ih (by rw [← he]), Postfix.append_assoc]

/-- A run that has been stopped stays so. -/
theorem run_append_error {policy : Policy} {w : List Token} {xs : List Token} {out : Postfix} {e : Fault}
    (h : run policy w xs = ⟨out, .error e⟩) (ys : List Token) : run policy w (xs ++ ys) = ⟨out, .error e⟩ := by
  induction xs generalizing w out with
  | nil => simp [run] at h
  | cons t ts ih =>
    cases hs : step policy w t with
    | error e' =>
      rw [run_cons_error hs] at h
      rw [List.cons_append, run_cons_error hs, h]
    | ok r =>
      obtain ⟨out₁, w₁⟩ := r
      rw [run_cons hs, Run.mk.injEq] at h
      obtain ⟨rfl, he⟩ := h
      rw [List.cons_append, run_cons hs, ih (by rw [← he])]

/-- In every run only left parentheses and known operators wait. -/
theorem run_stacked {policy : Policy} {ts : List Token} (ht : Known ts) {w w' : List Token} {out : Postfix}
    (hw : Stacked w) (h : run policy w ts = ⟨out, .ok w'⟩) : Stacked w' := by
  induction ts generalizing w out with
  | nil =>
    simp only [run, Run.mk.injEq, Except.ok.injEq] at h
    exact h.2 ▸ hw
  | cons t ts ih =>
    cases hs : step policy w t with
    | error e => simp [run_cons_error hs] at h
    | ok r =>
      obtain ⟨out₁, w₁⟩ := r
      rw [run_cons hs, Run.mk.injEq] at h
      exact ih ht.tail (step_stacked hw (ht t List.mem_cons_self) hs) (by rw [← h.2])

/-! ## The whole conversion -/

/-- The conversion of tokens while others wait. -/
def convertFrom (policy : Policy) (w ts : List Token) : Except Fault Postfix :=
  match (run policy w ts).ending with
  | .error e => .error e
  | .ok w' => (finish w').map ((run policy w ts).output ++ ·)

theorem convert_eq_convertFrom (policy : Policy) (ts : List Token) : convert policy ts = convertFrom policy [] ts := rfl

/-- What still waits in the end is put out, if no left parenthesis is among it. -/
theorem convert_of_run {policy : Policy} {ts w : List Token} {out : Postfix} (h : run policy [] ts = ⟨out, .ok w⟩)
    (hw : ∀ t ∈ w, t.isLeftParen = false) : convert policy ts = .ok (out ++ ⟨w, []⟩) := by
  have hfind : w.find? Token.isLeftParen = none := by simpa [List.find?_eq_none] using hw
  simp only [convert, h, finish, hfind, Except.map]

/-- What waits in the end can be put out if no left parenthesis is among it. -/
theorem finish_eq_ok_iff {w : List Token} {out : Postfix} :
    finish w = .ok out ↔ (∀ t ∈ w, t.isLeftParen = false) ∧ out = ⟨w, []⟩ := by
  cases hf : w.find? Token.isLeftParen with
  | none =>
    have hnone : ∀ t ∈ w, t.isLeftParen = false := by simpa [List.find?_eq_none] using hf
    simp only [finish, hf]
    exact ⟨fun h => ⟨hnone, (Except.ok.inj h).symm⟩, fun h => congrArg Except.ok h.2.symm⟩
  | some t =>
    have ht : t ∈ w ∧ t.isLeftParen = true := ⟨List.mem_of_find?_eq_some hf, List.find?_some hf⟩
    simp only [finish, hf]
    refine iff_of_false (fun h => by cases h) fun h => ?_
    rw [h.1 t ht.1] at ht
    cases ht.2

/-- A conversion is done when the run comes to its end and no left parenthesis waits there. -/
theorem convertFrom_eq_ok_iff {policy : Policy} {w ts : List Token} {out : Postfix} :
    convertFrom policy w ts = .ok out ↔ ∃ before w', run policy w ts = ⟨before, .ok w'⟩ ∧
      (∀ t ∈ w', t.isLeftParen = false) ∧ out = before ++ ⟨w', []⟩ := by
  unfold convertFrom
  rcases run policy w ts with ⟨before, _ | w'⟩
  · simp
  · constructor
    · intro h
      cases hf : finish w' with
      | error e => simp [hf, Except.map] at h
      | ok rest =>
        obtain ⟨hnone, rfl⟩ := finish_eq_ok_iff.mp hf
        simp only [hf, Except.map, Except.ok.injEq] at h
        exact ⟨before, w', rfl, hnone, h.symm⟩
    · rintro ⟨before', v, hr, hnone, rfl⟩
      obtain ⟨rfl, hv⟩ := Run.mk.inj hr
      obtain rfl := Except.ok.inj hv
      simp only [finish_eq_ok_iff.mpr ⟨hnone, rfl⟩, Except.map]

/-- What a run over the first tokens puts out stands before what comes of the others. -/
theorem convertFrom_append {policy : Policy} {w w' xs : List Token} {out : Postfix}
    (h : run policy w xs = ⟨out, .ok w'⟩) (ys : List Token) :
    convertFrom policy w (xs ++ ys) = (convertFrom policy w' ys).map (out ++ ·) := by
  simp only [convertFrom, run_append h]
  cases (run policy w' ys).ending with
  | error e => rfl
  | ok w'' =>
    show (finish w'').map _ = ((finish w'').map _).map _
    cases finish w'' with
    | error e => rfl
    | ok rest => simp [Except.map, Postfix.append_assoc]

theorem convertFrom_append_error {policy : Policy} {w xs : List Token} {out : Postfix} {e : Fault}
    (h : run policy w xs = ⟨out, .error e⟩) (ys : List Token) : convertFrom policy w (xs ++ ys) = .error e := by
  unfold convertFrom
  rw [run_append_error h]

/-! ## Changed tokens -/

/-- A change of tokens as it shows in a conversion: in what waits, in what is put out, and in the fault. -/
structure Change where
  tokens : Token → Token
  waiting : List Token → List Token
  output : Postfix → Postfix
  fault : Fault → Fault
  output_empty : output {} = {}
  output_append : ∀ a b, output (a ++ b) = output a ++ output b

namespace Change

variable (c : Change) {policy policy' : Policy}

/-- What comes of a step after the change. -/
def step (r : Except Fault (Postfix × List Token)) : Except Fault (Postfix × List Token) :=
  (r.map fun r => (c.output r.1, c.waiting r.2)).mapError c.fault

/-- What comes of a run after the change. -/
def run (r : Run) : Run :=
  ⟨c.output r.output, (r.ending.map c.waiting).mapError c.fault⟩

/-- What comes of a conversion after the change. -/
def convert (r : Except Fault Postfix) : Except Fault Postfix :=
  (r.map c.output).mapError c.fault

/-- A change that goes through every step goes through a run. -/
theorem run_eq {ts : List Token} (hstep : ∀ w, ∀ t ∈ ts, Conversion.step policy' (c.waiting w) (c.tokens t) =
    c.step (Conversion.step policy w t)) (w : List Token) :
    Conversion.run policy' (c.waiting w) (ts.map c.tokens) = c.run (Conversion.run policy w ts) := by
  induction ts generalizing w with
  | nil =>
    rw [List.map_nil, Conversion.run, Conversion.run, Change.run, c.output_empty]
    rfl
  | cons t ts ih =>
    have hs := hstep w t List.mem_cons_self
    rw [List.map_cons]
    cases hst : Conversion.step policy w t with
    | error e =>
      rw [hst] at hs
      rw [run_cons_error hs, run_cons_error hst, Change.run, c.output_empty]
      rfl
    | ok r =>
      obtain ⟨out, w'⟩ := r
      rw [hst] at hs
      rw [run_cons hs, run_cons hst, ih fun w s hs => hstep w s (List.mem_cons_of_mem _ hs)]
      simp only [Change.run, c.output_append]

/-- A change that goes through every step and the end goes through a conversion. -/
theorem convertFrom_eq {ts : List Token} (hstep : ∀ w, ∀ t ∈ ts, Conversion.step policy' (c.waiting w) (c.tokens t) =
    c.step (Conversion.step policy w t)) (hfinish : ∀ w, finish (c.waiting w) = c.convert (finish w)) (w : List Token) :
    convertFrom policy' (c.waiting w) (ts.map c.tokens) = c.convert (convertFrom policy w ts) := by
  unfold convertFrom
  rw [c.run_eq hstep]
  cases he : (Conversion.run policy w ts).ending with
  | error e =>
    simp only [Change.run, he]
    rfl
  | ok w' =>
    simp only [Change.run, he]
    show (finish (c.waiting w')).map _ = _
    rw [hfinish]
    cases finish w' with
    | error e => rfl
    | ok out => exact congrArg Except.ok (c.output_append _ _).symm

end Change

/-- A change of tokens that keeps their kinds, and the texts of operators. -/
structure Keeps (g : Token → Token) : Prop where
  kind : ∀ t, (g t).kind = t.kind
  text : ∀ t, t.isOperator = true → (g t).text = t.text

namespace Keeps

variable {g : Token → Token} (h : Keeps g)

include h

theorem isLeftParen (t : Token) : (g t).isLeftParen = t.isLeftParen := by
  rw [Token.isLeftParen, Token.isLeftParen, h.kind]

theorem isRightParen (t : Token) : (g t).isRightParen = t.isRightParen := by
  rw [Token.isRightParen, Token.isRightParen, h.kind]

theorem isOperator (t : Token) : (g t).isOperator = t.isOperator := by
  rw [Token.isOperator, Token.isOperator, h.kind]

/-- What is released is told by kinds and operators. -/
theorem released (s : String) (w : List Token) :
    Conversion.released s (w.map g) = (Conversion.released s w).map fun r => (r.1.map g, r.2.map g) := by
  induction w with
  | nil => rfl
  | cons t rest ih =>
    rw [List.map_cons, Conversion.released, Conversion.released, h.isOperator]
    split
    · next ho =>
      rw [h.text t ho, ih]
      cases Operator.symbolYields s t.text with
      | error u => rfl
      | ok b =>
        cases b with
        | false => rfl
        | true => cases Conversion.released s rest <;> rfl
    · rfl

theorem closed? (w : List Token) :
    Conversion.closed? (w.map g) = (Conversion.closed? w).map fun r => (r.1.map g, r.2.map g) := by
  induction w with
  | nil => rfl
  | cons t rest ih =>
    rw [List.map_cons, Conversion.closed?, Conversion.closed?, h.isLeftParen, ih]
    split
    · rfl
    · cases Conversion.closed? rest <;> rfl

theorem find_leftParen (w : List Token) :
    (w.map g).find? Token.isLeftParen = (w.find? Token.isLeftParen).map g := by
  rw [List.find?_map, show Token.isLeftParen ∘ g = Token.isLeftParen from funext h.isLeftParen]

theorem lefts (ts : List Token) : InfixCalculator.lefts (ts.map g) = InfixCalculator.lefts ts := by
  rw [InfixCalculator.lefts, List.countP_map, show Token.isLeftParen ∘ g = Token.isLeftParen from funext h.isLeftParen]
  rfl

theorem rights (ts : List Token) : InfixCalculator.rights (ts.map g) = InfixCalculator.rights ts := by
  rw [InfixCalculator.rights, List.countP_map,
    show Token.isRightParen ∘ g = Token.isRightParen from funext h.isRightParen]
  rfl

end Keeps

end Conversion

/-! ## Evaluation -/

namespace Evaluation

theorem step_number {t : Token} (h : t.isNumber = true) (stack : List Float) :
    ∃ x, step stack t = .ok (x :: stack) := by
  cases hk : t.kind <;> simp_all [Token.isNumber, step]

theorem step_operator {t : Token} {op : Operator} (h : t.operator? = some op) (x y : Float) (stack : List Float) :
    step (y :: x :: stack) t = .ok (op.apply x y :: stack) := by
  obtain ⟨hk, ht⟩ := Token.operator?_eq_some_iff.mp h
  simp [step, hk, Conversion.find_symbol ht]

/-- An operator fails on fewer than two values. -/
theorem step_operator_short {t : Token} (h : t.isOperator = true) {stack : List Float} (hs : stack.length < 2) :
    step stack t = .error (.failure (.underflow t.text stack.length)) := by
  match stack, hs with
  | [], _ | [_], _ => simp [step, Token.isOperator_iff.mp h]

theorem run_cons {t : Token} {stack stack' : List Float} (h : step stack t = .ok stack') (ts : List Token) :
    run stack (t :: ts) = run stack' ts := by
  simp [run, h]

/-- A change of tokens that no step sees is not seen by a run. -/
theorem run_map {g : Token → Token} (h : ∀ stack t, step stack (g t) = step stack t) (stack : List Float)
    (ts : List Token) : run stack (ts.map g) = run stack ts := by
  induction ts generalizing stack with
  | nil => rfl
  | cons t ts ih =>
    rw [List.map_cons, run, run, h]
    cases step stack t with
    | error e => rfl
    | ok stack' => exact ih stack'

theorem run_append (stack : List Float) (xs ys : List Token) :
    run stack (xs ++ ys) = (run stack xs).bind fun stack' => run stack' ys := by
  induction xs generalizing stack with
  | nil => rfl
  | cons t xs ih =>
    rw [List.cons_append, run, run]
    cases step stack t with
    | error e => rfl
    | ok stack' => exact ih stack'

end Evaluation

end InfixCalculator
