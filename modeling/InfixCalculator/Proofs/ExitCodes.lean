import InfixCalculator.CommandLine.Run
import InfixCalculator.Proofs.Rows
import InfixCalculator.Proofs.Templates

/-!
# How runs of the command line end

A run can fail in order, with exit code one and a report, or end by a fault in the settings that nothing takes care of.
With settings that are in order (`Settings.InOrder`) the latter never happens. The condition under which a run succeeds
is carried along its stages by `Outcome.SucceedsIff`.

- `Batch.resultFile_snd`: a format in which every result can be written makes result files without a fault;
- `Batch.load_error_ne_columnKind`: a column that has a name is missing at worst;
- `runRows_succeedsIff`, `runFile_succeedsIff`, `runExpression_succeedsIff`: when the stages of a run succeed;
- `Settings.standard_inOrder` and `runArguments_standard`: the standard settings are in order, and how their runs end.
-/

namespace InfixCalculator

/-! ## Result files -/

namespace Batch

/-- Every result can be written in the format. -/
def ResultFormat.Writes (format : ResultFormat) : Prop :=
  ∀ x, ∃ cs, format.write x = .ok cs

variable {format : ResultFormat}

theorem Row.exists_cells (h : format.Writes) (row : Row) : ∃ cells, row.cells format = .ok cells := by
  rw [Row.cells, resultCell]
  split
  · exact ⟨_, rfl⟩
  · obtain ⟨cs, hcs⟩ := h row.result
    exact ⟨_, by rw [hcs]; rfl⟩

theorem exists_rowCells (h : format.Writes) (rows : List Row) : ∃ records, rowCells format rows = .ok records := by
  induction rows with
  | nil => exact ⟨[], rfl⟩
  | cons row rows ih =>
    obtain ⟨cells, hcells⟩ := row.exists_cells h
    obtain ⟨records, hrecords⟩ := ih
    exact ⟨cells :: records, by rw [rowCells, hcells, hrecords]; rfl⟩

/-- Nothing is wrong with a result in such a format. -/
theorem resultFile_snd (h : format.Writes) (rows : List Row) : (resultFile format rows).2 = none := by
  obtain ⟨records, hrecords⟩ := exists_rowCells h rows
  rw [resultFile, hrecords]

/-! ## Loading -/

theorem cells_error_ne_columnKind {name path kind : String} {table : Csv.Table} :
    cells (.text name) path table ≠ .error (.columnKind kind) := by
  rw [cells]
  split <;> simp

/-- A column that has a name is missing at worst. -/
theorem load_error_ne_columnKind {settings : Settings} {files : Files} {path name kind : String} {column : Json}
    (h : columnName settings column = .text name) :
    load settings files path column ≠ .error (.columnKind kind) := by
  rw [load, h]
  split
  · simp
  split
  · rw [ofTable]
    split
    · simp
    · exact cells_error_ne_columnKind
  · rw [ofText]
    split <;> simp

end Batch

/-! ## Settings in order -/

/-- Settings under which no run ends out of order. -/
structure Settings.InOrder (settings : Settings) : Prop where
  valid : settings.validate = .ok ()
  /-- The template can be filled. -/
  fills : settings.Fills
  /-- The column has a name. -/
  column : ∃ name, settings.expressionColumn = .text name
  /-- Every result can be written. -/
  format : ∃ format, Batch.ResultFormat.ofJson settings.floatFormat = .ok format ∧ format.Writes

/-- Settings that make sense name a policy. -/
theorem Settings.exists_policy {settings : Settings} (h : settings.validate = .ok ()) :
    ∃ policy, Policy.ofJson settings.onParseError = .ok policy := by
  cases hone : isOneOf ["recover", "raise"] settings.onParseError with
  | false =>
    rw [validate, hone] at h
    cases h
  | true =>
    cases hj : settings.onParseError with
    | text s =>
      rw [hj] at hone
      have hs : s = "recover" ∨ s = "raise" := by simpa [isOneOf] using hone
      rcases hs with rfl | rfl
      · exact ⟨.recover, rfl⟩
      · exact ⟨.raise, rfl⟩
    | null | bool b | integer n | real x | array items | object members =>
      rw [hj] at hone
      cases hone

/-- The format of results in the standard settings asks for ten digits. -/
theorem Settings.standard_floatFormat :
    Batch.ResultFormat.ofJson standard.floatFormat = .ok (.percent "%.10g".toList) :=
  rfl

theorem Settings.standard_inOrder : standard.InOrder where
  valid := by decide +kernel
  fills := standard_fills
  column := ⟨"expression", rfl⟩
  format := ⟨_, standard_floatFormat, fun _ => ⟨_, rfl⟩⟩

namespace CommandLine

/-! ## Outcomes -/

/-- The run succeeds just under a condition, and otherwise it fails in order and prints nothing. -/
structure Outcome.SucceedsIff (o : Outcome) (P : Prop) : Prop where
  done : P → o.ending = .ok 0
  failed : ¬P → o.ending = .ok 1 ∧ o.stdout = ""

namespace Outcome.SucceedsIff

variable {o : Outcome} {P Q : Prop}

theorem always (hzero : o.ending = .ok 0) (hp : P) : o.SucceedsIff P :=
  ⟨fun _ => hzero, fun hnot => absurd hp hnot⟩

theorem never (hone : o.ending = .ok 1) (hout : o.stdout = "") (hp : ¬P) : o.SucceedsIff P :=
  ⟨fun h => absurd h hp, fun _ => ⟨hone, hout⟩⟩

theorem of_iff (h : o.SucceedsIff P) (hpq : P ↔ Q) : o.SucceedsIff Q :=
  ⟨fun hq => h.done (hpq.mpr hq), fun hq => h.failed fun hp => hq (hpq.mp hp)⟩

theorem ending_eq_zero_iff (h : o.SucceedsIff P) : o.ending = .ok 0 ↔ P := by
  constructor
  · intro hzero
    by_contra hp
    rw [(h.failed hp).1] at hzero
    cases hzero
  · exact h.done

theorem exists_code (h : o.SucceedsIff P) :
    ∃ code, o.ending = .ok code ∧ (code = 0 ∨ code = 1) ∧ (code = 1 → o.stdout = "") := by
  by_cases hp : P
  · exact ⟨0, h.done hp, .inl rfl, by simp⟩
  · exact ⟨1, (h.failed hp).1, .inr rfl, fun _ => (h.failed hp).2⟩

end Outcome.SucceedsIff

/-! ## Stages of a run -/

variable {settings : Settings}

theorem saveRows_succeedsIff (h : settings.InOrder) (files : Files) (journal : Journal) (path : String)
    (rows : List Batch.Row) :
    (saveRows settings files journal path rows).SucceedsIff (files.refusal path = none) := by
  obtain ⟨format, hformat, hwrites⟩ := h.format
  rw [saveRows, hformat]
  cases hr : files.refusal path with
  | some e => exact .never rfl rfl (by simp)
  | none =>
    refine .always ?_ rfl
    simp only [Batch.resultFile_snd hwrites]

theorem runRows_succeedsIff (h : settings.InOrder) (files : Files) (args : Arguments) (journal : Journal)
    (rows : List Batch.Row) :
    (runRows settings files args journal rows).SucceedsIff
      (∀ out, args.outputPath? = some out → files.refusal out = none) := by
  rw [runRows]
  cases hout : args.outputPath? with
  | none => exact .always rfl (by simp)
  | some path => exact (saveRows_succeedsIff h files journal path rows).of_iff (by simp)

theorem exists_optionsOf (h : settings.validate = .ok ()) (args : Arguments) :
    ∃ policy allowPartial, optionsOf settings args = ⟨.ok policy, allowPartial⟩ := by
  obtain ⟨policy, hpolicy⟩ := Settings.exists_policy h
  rw [optionsOf, hpolicy]
  cases args.strict with
  | true => exact ⟨_, _, rfl⟩
  | false => exact ⟨_, _, rfl⟩

theorem exists_columnName (h : settings.InOrder) (args : Arguments) :
    ∃ name, Batch.columnName settings (columnOf args) = .text name := by
  rw [Batch.columnName]
  split
  next htrue =>
    rw [columnOf] at htrue ⊢
    cases hcolumn : args.column with
    | some name => exact ⟨name, rfl⟩
    | none =>
      rw [hcolumn] at htrue
      cases htrue
  next => exact h.column

/-- A run over the expressions of a file succeeds if they can be loaded and the results can be written where they are
to be saved; what comes of the expressions does not matter. -/
theorem runFile_succeedsIff (h : settings.InOrder) (files : Files) (args : Arguments) (path : String) :
    (runFile settings files args path).SucceedsIff
      ((∃ es, Batch.load settings files path (columnOf args) = .ok es) ∧
        ∀ out, args.outputPath? = some out → files.refusal out = none) := by
  rw [runFile]
  cases hload : Batch.load settings files path (columnOf args) with
  | error e =>
    obtain ⟨name, hname⟩ := exists_columnName h args
    -- only a column that cannot have a name would end the run out of order
    cases e with
    | columnKind kind => exact absurd hload (Batch.load_error_ne_columnKind hname)
    | file e | notText e | table e | missingColumn c p => exact .never rfl rfl (by simp)
  | ok es =>
    obtain ⟨policy, allowPartial, hoptions⟩ := exists_optionsOf h.valid args
    obtain ⟨rows, hrows, -⟩ := Batch.evaluate_policy policy allowPartial es
    simp only [hoptions, hrows]
    exact (runRows_succeedsIff h files args _ rows).of_iff (by simp)

theorem exists_showCalculation (h : settings.InOrder) (args : Arguments) (c : Calculation) :
    ∃ text more, showCalculation settings args c = .ok (text, more) ∧
      (if args.json then c.dump settings else c.line settings) = .ok text := by
  rw [showCalculation]
  cases args.json with
  | true =>
    obtain ⟨text, htext⟩ := c.exists_dump h.fills
    exact ⟨text, _, by rw [htext]; rfl, htext⟩
  | false =>
    obtain ⟨text, htext⟩ := c.exists_line h.fills
    exact ⟨text, _, by rw [htext]; rfl, htext⟩

/-- What a run over an expression that has a value prints. -/
theorem runExpression_ok (h : settings.InOrder) {args : Arguments} {e : String} {c : Calculation}
    (hc : Calculation.ofExpression (optionsOf settings args) e = .ok c) :
    (runExpression settings args e).ending = .ok 0 ∧
      ∃ text, (if args.json then c.dump settings else c.line settings) = .ok text ∧
        (runExpression settings args e).stdout = text ++ "\n" := by
  obtain ⟨text, more, hshow, htext⟩ := exists_showCalculation h args c
  rw [runExpression, hc]
  simp only [hshow]
  exact ⟨trivial, text, htext, rfl⟩

/-- A run over one expression succeeds if the expression has a value. -/
theorem runExpression_succeedsIff (h : settings.InOrder) (args : Arguments) (e : String) :
    (runExpression settings args e).SucceedsIff
      (∃ c, Calculation.ofExpression (optionsOf settings args) e = .ok c) := by
  cases hc : Calculation.ofExpression (optionsOf settings args) e with
  | ok c => exact .always (runExpression_ok h hc).1 ⟨c, rfl⟩
  | error fault =>
    obtain ⟨policy, allowPartial, hoptions⟩ := exists_optionsOf h.valid args
    obtain ⟨f, rfl⟩ := exists_failure (hoptions ▸ hc)
    rw [runExpression, hc]
    exact .never rfl rfl (by simp)

/-! ## The whole run -/

theorem runArguments_file (h : settings.validate = .ok ()) {files : Files} {args : Arguments} {path : String}
    (hfile : args.file? = some path) : runArguments settings files args = runFile settings files args path := by
  rw [runArguments, h, hfile]

theorem runArguments_expression (h : settings.validate = .ok ()) {files : Files} {args : Arguments} {e : String}
    (hfile : args.file? = none) (he : args.expression = some e) :
    runArguments settings files args = runExpression settings args e := by
  rw [runArguments, h, hfile, he]
  rfl

/-- The options of a run under the standard settings. -/
theorem optionsOf_standard (args : Arguments) :
    optionsOf Settings.standard args = ⟨.ok (if args.strict then .raise else .recover), !args.noPartial⟩ := by
  rw [optionsOf]
  cases args.strict <;> cases args.noPartial <;> rfl

/-- **How runs under the standard settings end**, whatever files there are, if an expression or a file is named.

- The exit code is zero or one, and when it is one nothing is printed.
- Without a file it is zero just when the expression has a value under the options that the arguments ask for. What is
  printed then is the calculation, as JSON or on a line.
- With a file it is zero just when its expressions can be loaded and the results can be written where they are to be
  saved. -/
theorem runArguments_standard (files : Files) (args : Arguments)
    (h : args.expression.isSome ∨ args.file?.isSome) :
    (∃ code, (runArguments Settings.standard files args).ending = .ok code ∧ (code = 0 ∨ code = 1) ∧
        (code = 1 → (runArguments Settings.standard files args).stdout = "")) ∧
      (∀ e, args.file? = none → args.expression = some e →
        ((runArguments Settings.standard files args).ending = .ok 0 ↔
            ∃ c, Calculation.ofExpression
              ⟨.ok (if args.strict then .raise else .recover), !args.noPartial⟩ e = .ok c) ∧
          ∀ c, Calculation.ofExpression
              ⟨.ok (if args.strict then .raise else .recover), !args.noPartial⟩ e = .ok c →
            ∃ text, (if args.json then c.dump Settings.standard else c.line Settings.standard) = .ok text ∧
              (runArguments Settings.standard files args).stdout = text ++ "\n") ∧
      ∀ path, args.file? = some path →
        ((runArguments Settings.standard files args).ending = .ok 0 ↔
          (∃ es, Batch.load Settings.standard files path (columnOf args) = .ok es) ∧
            ∀ out, args.outputPath? = some out → files.refusal out = none) := by
  have hs := Settings.standard_inOrder
  rw [← optionsOf_standard]
  cases hfile : args.file? with
  | some path =>
    rw [runArguments_file hs.valid hfile]
    have hrun := runFile_succeedsIff hs files args path
    refine ⟨hrun.exists_code, by simp, ?_⟩
    rintro _ ⟨⟩
    exact hrun.ending_eq_zero_iff
  | none =>
    rw [hfile] at h
    obtain ⟨e, he⟩ := Option.isSome_iff_exists.mp (h.resolve_right (by simp))
    rw [runArguments_expression hs.valid hfile he]
    have hrun := runExpression_succeedsIff hs args e
    refine ⟨hrun.exists_code, ?_, by simp⟩
    intro e' _ he'
    obtain rfl : e = e' := Option.some.inj (he.symm.trans he')
    exact ⟨hrun.ending_eq_zero_iff, fun c hc => (runExpression_ok hs hc).2⟩

/-- Files that all hold a left parenthesis, none of which can be written. -/
def loneParentheses : Files where
  read := fun _ => .ok [0x28]
  refusal := fun path => some (.missingFolder path)

/-- A word is replaced and its calculation printed. A parenthesis without a partner makes a run fail, but not as one of
the expressions of a file; there a path for the results that is refused does. -/
theorem runArguments_standard_loneParentheses :
    (∃ c text, Calculation.ofExpression ⟨.ok .recover, true⟩ "x" = .ok c ∧ c.dump Settings.standard = .ok text ∧
        (runArguments Settings.standard loneParentheses { expression := some "x", json := true }).ending = .ok 0 ∧
        (runArguments Settings.standard loneParentheses { expression := some "x", json := true }).stdout =
          text ++ "\n") ∧
      (runArguments Settings.standard loneParentheses { expression := some "(" }).ending = .ok 1 ∧
      (runArguments Settings.standard loneParentheses { expression := some "(" }).stdout = "" ∧
      (runArguments Settings.standard loneParentheses { file := some "list.txt" }).ending = .ok 0 ∧
      (runArguments Settings.standard loneParentheses
        { file := some "list.txt", outputPath := some "results.csv" }).ending ≠ .ok 0 := by
  have hload : Batch.load Settings.standard loneParentheses "list.txt" (columnOf {}) = .ok ["("] := by decide +kernel
  have himbalanced : Calculation.ofExpression ⟨.ok .recover, true⟩ "(" = .error (.failure .imbalanced) :=
    Calculation.ofExpression_imbalanced rfl
  obtain ⟨c, hc⟩ : ∃ c, Calculation.ofExpression ⟨.ok .recover, true⟩ "x" = .ok c := ⟨_, rfl⟩
  obtain ⟨-, hword, -⟩ := runArguments_standard loneParentheses { expression := some "x", json := true } (.inl rfl)
  obtain ⟨⟨code, hcode, hcodes, hout⟩, hparenthesis, -⟩ :=
    runArguments_standard loneParentheses { expression := some "(" } (.inl rfl)
  obtain ⟨-, -, hprinted⟩ := runArguments_standard loneParentheses { file := some "list.txt" } (.inr (by decide))
  obtain ⟨-, -, hsaved⟩ :=
    runArguments_standard loneParentheses { file := some "list.txt", outputPath := some "results.csv" }
      (.inr (by decide))
  obtain ⟨text, htext, hstdout⟩ := (hword "x" rfl rfl).2 c hc
  have hone : code = 1 := by
    rcases hcodes with rfl | hone
    · obtain ⟨c', hc'⟩ := (hparenthesis "(" rfl rfl).1.mp hcode
      cases himbalanced.symm.trans hc'
    · exact hone
  subst hone
  refine ⟨⟨c, text, hc, htext, (hword "x" rfl rfl).1.mpr ⟨c, hc⟩, hstdout⟩, hcode, hout rfl,
    (hprinted "list.txt" (by decide)).mpr ⟨⟨_, hload⟩, by simp [Arguments.outputPath?]⟩, ?_⟩
  intro hzero
  have hrefusal := ((hsaved "list.txt" (by decide)).mp hzero).2 "results.csv" (by decide)
  cases hrefusal

end CommandLine

end InfixCalculator
