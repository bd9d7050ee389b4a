import InfixCalculator.Proofs.Output
import InfixCalculator.Proofs.Stages

/-!
# Whatever stands in parentheses

No step of a conversion looks past a left parenthesis that waits, so what is converted by itself is converted the same
in parentheses, whatever it is and whatever stands around it.

- `step_frame`, `run_frame`: below a left parenthesis anything may wait;
- `run_group`: in parentheses, a list of tokens puts out what it is converted to, and what waits stays;
- `convert_group`: a group stands for its conversion as a number stands for itself.
-/

namespace InfixCalculator.Conversion

variable {policy : Policy} {v v' w pre mid post ts : List Token} {t l r x : Token} {out m : Postfix}

/-! ## Below a left parenthesis -/

/-- An incoming operator compares itself with nothing below a left parenthesis. -/
theorem released_frame (hl : l.isLeftParen = true) (s : String) {gone kept : List Token}
    (h : released s v = .ok (gone, kept)) (w : List Token) :
    released s (v ++ l :: w) = .ok (gone, kept ++ l :: w) := by
  induction v generalizing gone kept with
  | nil =>
    obtain ⟨rfl, rfl⟩ := Prod.mk.inj (Except.ok.inj h)
    simp [released, Token.of_isLeftParen hl]
  | cons u rest ih =>
    unfold released at h
    rw [List.cons_append, released]
    split at h
    · next ho =>
      rw [if_pos ho]
      cases hy : Operator.symbolYields s u.text with
      | error e => simp [hy] at h
      | ok b =>
        cases b with
        | false =>
          simp only [hy, Except.ok.injEq, Prod.mk.injEq] at h ⊢
          obtain ⟨rfl, rfl⟩ := h
          exact ⟨rfl, rfl⟩
        | true =>
          cases hr : released s rest with
          | error e => simp [hy, hr] at h
          | ok p =>
            simp only [hy, hr, Except.ok.injEq, Prod.mk.injEq] at h
            obtain ⟨rfl, rfl⟩ := h
            simp only [ih hr]
    · next ho =>
      obtain ⟨rfl, rfl⟩ := Prod.mk.inj (Except.ok.inj h)
      rw [if_neg ho]
      rfl

/-- A right parenthesis that finds its partner looks no further. -/
theorem closed?_frame {gone kept : List Token} (h : closed? v = some (gone, kept)) (w : List Token) :
    closed? (v ++ w) = some (gone, kept ++ w) := by
  rcases exists_latest v with hnone | ⟨gone', k, kept', rfl, hg, hk⟩
  · rw [closed?_eq_none hnone] at h
    cases h
  · rw [closed?_append hg hk] at h
    obtain ⟨rfl, rfl⟩ := Prod.mk.inj (Option.some.inj h)
    rw [List.append_assoc, List.cons_append, closed?_append hg hk]

/-- A step that can be done is done in the same way when more waits below a left parenthesis. -/
theorem step_frame (hl : l.isLeftParen = true) (h : step policy v t = .ok (out, v')) (w : List Token) :
    step policy (v ++ l :: w) t = .ok (out, v' ++ l :: w) := by
  unfold step at h ⊢
  cases hk : t.kind with
  | leftParen =>
    simp only [hk, Except.ok.injEq, Prod.mk.injEq] at h ⊢
    obtain ⟨rfl, rfl⟩ := h
    exact ⟨rfl, rfl⟩
  | rightParen =>
    cases hc : closed? v with
    | none => simp [hk, hc] at h
    | some p =>
      simp only [hk, hc, Except.ok.injEq, Prod.mk.injEq] at h
      obtain ⟨rfl, rfl⟩ := h
      simp only [closed?_frame hc]
  | operator =>
    cases hr : released t.text v with
    | error e => simp [hk, hr] at h
    | ok p =>
      simp only [hk, hr, Except.ok.injEq, Prod.mk.injEq] at h
      obtain ⟨rfl, rfl⟩ := h
      simp only [released_frame hl _ hr, List.cons_append]
  | number y | constant y =>
    simp only [hk, Except.ok.injEq, Prod.mk.injEq] at h ⊢
    obtain ⟨rfl, rfl⟩ := h
    exact ⟨rfl, rfl⟩
  | term =>
    cases policy with
    | raise => simp [hk] at h
    | recover =>
      simp only [hk, Except.ok.injEq, Prod.mk.injEq] at h ⊢
      obtain ⟨rfl, rfl⟩ := h
      exact ⟨rfl, rfl⟩

theorem run_frame (hl : l.isLeftParen = true) (h : run policy v ts = ⟨out, .ok v'⟩) (w : List Token) :
    run policy (v ++ l :: w) ts = ⟨out, .ok (v' ++ l :: w)⟩ := by
  induction ts generalizing v out with
  | nil =>
    obtain ⟨rfl, hv⟩ := Run.mk.inj h
    obtain rfl := Except.ok.inj hv
    rfl
  | cons t ts ih =>
    cases hs : step policy v t with
    | error e => simp [run_cons_error hs] at h
    | ok p =>
      obtain ⟨out₁, v₁⟩ := p
      rw [run_cons hs, Run.mk.injEq] at h
      obtain ⟨rfl, he⟩ := h
      have hrest := ih (show run policy v₁ ts = ⟨_, .ok v'⟩ by rw [← he])
      rw [run_cons (step_frame hl hs w), hrest]

/-! ## A group -/

/-- In parentheses, tokens put out what they are converted to, and nothing that waits is touched. -/
theorem run_group (hl : l.isLeftParen = true) (hr : r.isRightParen = true) (hm : convert policy mid = .ok m)
    (w : List Token) : run policy w ([l] ++ mid ++ [r]) = ⟨m, .ok w⟩ := by
  obtain ⟨before, v, hrun, hnone, rfl⟩ := convertFrom_eq_ok_iff.mp hm
  have hopen : run policy w [l] = ⟨{}, .ok (l :: w)⟩ := run_singleton (step_leftParen hl policy w)
  have hinner : run policy (l :: w) mid = ⟨before, .ok (v ++ l :: w)⟩ := run_frame hl hrun w
  rw [List.append_assoc, run_append hopen, run_append hinner, run_singleton (step_rightParen hr policy hnone hl)]
  rfl

theorem run_number (hx : x.isNumber = true) (policy : Policy) (w : List Token) :
    run policy w [x] = ⟨⟨[x], []⟩, .ok w⟩ := by
  cases hk : x.kind with
  | number y => exact run_singleton (by simp only [step, hk])
  | operator | leftParen | rightParen | constant | term => simp [Token.isNumber, hk] at hx

/-- A conversion reports the words without a value that it has read. -/
theorem convertFrom_diagnostics (hk : Known ts) (hw : Stacked w) (h : convertFrom policy w ts = .ok out) :
    out.diagnostics = ts.flatMap Token.replaced := by
  obtain ⟨before, v, hrun, -, rfl⟩ := convertFrom_eq_ok_iff.mp h
  rw [Postfix.diagnostics_append, run_diagnostics hk hw hrun, List.append_nil]

/-- Everything that is put out waited before, or is posted for a token that was read. -/
theorem convertFrom_source (hk : Known ts) (hw : Stacked w) (h : convertFrom policy w ts = .ok out) :
    ∀ s ∈ out.tokens, (∃ t ∈ ts, s = t.posted) ∨ s ∈ w := by
  obtain ⟨before, v, hrun, -, rfl⟩ := convertFrom_eq_ok_iff.mp h
  exact run_source hk hw hrun

/-- What stands around tokens that put something out and leave what waits alone sees nothing of them: it is converted
to one output before and one after them, or it fails in one way. -/
theorem convert_around (policy : Policy) (hk : Known (pre ++ post)) :
    (∃ before after : List Token, (∀ s ∈ before ++ after, ∃ t ∈ pre ++ post, s = t.posted) ∧
        ∀ {ts out}, (∀ w, run policy w ts = ⟨out, .ok w⟩) →
          convert policy (pre ++ ts ++ post) = .ok ⟨before ++ out.tokens ++ after,
            pre.flatMap Token.replaced ++ out.diagnostics ++ post.flatMap Token.replaced⟩) ∨
      ∃ fault, ∀ {ts out}, (∀ w, run policy w ts = ⟨out, .ok w⟩) →
        convert policy (pre ++ ts ++ post) = .error fault := by
  obtain ⟨hpre, hpost⟩ := known_append.mp hk
  rcases hrun : run policy [] pre with ⟨before, fault | w⟩
  · refine Or.inr ⟨fault, fun _ => ?_⟩
    rw [List.append_assoc]
    exact convertFrom_append_error hrun _
  · have hw := run_stacked hpre stacked_nil hrun
    cases hrest : convertFrom policy w post with
    | error fault =>
      refine Or.inr ⟨fault, fun hts => ?_⟩
      rw [List.append_assoc, convert_eq_convertFrom, convertFrom_append hrun, convertFrom_append (hts w), hrest]
      rfl
    | ok after =>
      refine Or.inl ⟨before.tokens, after.tokens, fun s hs => ?_, fun hts => ?_⟩
      · have hsource := run_source hpre stacked_nil hrun
        have hposted : ∀ s ∈ before.tokens ++ w, ∃ t ∈ pre, s = t.posted := fun s hs =>
          (hsource s hs).resolve_right List.not_mem_nil
        have hleft : (∃ t ∈ pre, s = t.posted) → ∃ t ∈ pre ++ post, s = t.posted := fun ⟨t, ht, he⟩ =>
          ⟨t, List.mem_append_left _ ht, he⟩
        rcases List.mem_append.mp hs with hm | hm
        · exact hleft (hposted s (List.mem_append_left _ hm))
        · rcases convertFrom_source hpost hw hrest s hm with ⟨t, ht, he⟩ | hm
          · exact ⟨t, List.mem_append_right _ ht, he⟩
          · exact hleft (hposted s (List.mem_append_right _ hm))
      · rw [List.append_assoc, convert_eq_convertFrom, convertFrom_append hrun, convertFrom_append (hts w), hrest,
          ← run_diagnostics hpre stacked_nil hrun, ← convertFrom_diagnostics hpost hw hrest]
        simp only [Except.map, ← Postfix.append_assoc]
        rfl

/-- Tokens that can be converted stand in parentheses for what they are converted to, whatever they are and whatever
stands around them: as a number stands for itself in their place. -/
theorem convert_group (policy : Policy) (pre mid post : List Token) (l r x : Token) (m : Postfix)
    (hk : Known (pre ++ post)) (hl : l.isLeftParen = true) (hr : r.isRightParen = true) (hx : x.isNumber = true)
    (hm : convert policy mid = .ok m) :
    (∀ fault, convert policy (pre ++ ([l] ++ mid ++ [r]) ++ post) = .error fault ↔
        convert policy (pre ++ [x] ++ post) = .error fault) ∧
      (∀ out, convert policy (pre ++ [x] ++ post) = .ok out → ∃ before after,
        out = ⟨before ++ [x] ++ after, pre.flatMap Token.replaced ++ post.flatMap Token.replaced⟩ ∧
          ((∀ t ∈ pre ++ post, t.posted ≠ x) → x ∉ before ++ after) ∧
          convert policy (pre ++ ([l] ++ mid ++ [r]) ++ post) = .ok ⟨before ++ m.tokens ++ after,
            pre.flatMap Token.replaced ++ m.diagnostics ++ post.flatMap Token.replaced⟩) ∧
      convert policy ([l] ++ mid ++ [r]) = .ok m := by
  have hgroup := run_group hl hr hm
  have hnumber := run_number hx policy
  refine ⟨?_, ?_, ?_⟩
  · intro fault
    rcases convert_around policy hk with ⟨before, after, -, hout⟩ | ⟨fault, herror⟩
    · rw [hout hgroup, hout hnumber]
      constructor <;> intro h <;> cases h
    · rw [herror hgroup, herror hnumber]
  · intro out h
    rcases convert_around policy hk with ⟨before, after, hsource, hout⟩ | ⟨fault, herror⟩
    · obtain rfl := Except.ok.inj ((hout hnumber).symm.trans h)
      refine ⟨before, after, by simp, fun hfresh hmem => ?_, hout hgroup⟩
      obtain ⟨t, ht, he⟩ := hsource x hmem
      exact hfresh t ht he.symm
    · rw [herror hnumber] at h
      cases h
  · exact (convert_of_run (hgroup []) (by simp)).trans (congrArg Except.ok (Postfix.append_empty m))

/-- An operator and a word without a value, in parentheses within other parentheses. -/
theorem convert_group_dangling :
    Known (tokenize "(3 -" ++ tokenize ") * 2") ∧ ∃ m out before after,
      convert .recover (tokenize "+ y") = .ok m ∧
      convert .recover (tokenize "(3 -" ++ [.ofNumber 7 none none] ++ tokenize ") * 2") = .ok out ∧
      out.tokens = before ++ [.ofNumber 7 none none] ++ after ∧ .ofNumber 7 none none ∉ before ++ after ∧
      convert .recover (tokenize "(3 -" ++ ([⟨.leftParen, "(", none, none⟩] ++ tokenize "+ y" ++
        [⟨.rightParen, ")", none, none⟩]) ++ tokenize ") * 2") = .ok ⟨before ++ m.tokens ++ after, [⟨"y", some 2⟩]⟩ := by
  have hk := known_append.mpr ⟨known_tokenize "(3 -", known_tokenize ") * 2"⟩
  obtain ⟨m, hm, hreport⟩ : ∃ m, convert .recover (tokenize "+ y") = .ok m ∧ m.diagnostics = [⟨"y", some 2⟩] := by
    apply exists_ok_of_map
    decide +kernel
  obtain ⟨out, hout, -⟩ : ∃ out, convert .recover (tokenize "(3 -" ++ [.ofNumber 7 none none] ++ tokenize ") * 2") =
      .ok out ∧ out.diagnostics = [] := by
    apply exists_ok_of_map
    decide +kernel
  have hfresh : ∀ t ∈ tokenize "(3 -" ++ tokenize ") * 2", t.posted ≠ .ofNumber 7 none none := by
    intro t ht he
    have hp : ∀ t ∈ tokenize "(3 -" ++ tokenize ") * 2", t.posted.position ≠ none := by decide +kernel
    exact hp t ht (congrArg Token.position he)
  obtain ⟨-, hnumber, -⟩ := convert_group .recover _ _ _ ⟨.leftParen, "(", none, none⟩ ⟨.rightParen, ")", none, none⟩
    (.ofNumber 7 none none) m hk rfl rfl rfl hm
  obtain ⟨before, after, rfl, hx, hgroup⟩ := hnumber out hout
  exact ⟨hk, m, _, before, after, hm, hout, rfl, hx hfresh, by rw [hgroup, hreport]; rfl⟩

end InfixCalculator.Conversion
