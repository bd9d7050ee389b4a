import InfixCalculator.Proofs.ExitCodes
import InfixCalculator.Proofs.NumberTexts
import InfixCalculator.Proofs.Partition
import InfixCalculator.Proofs.Records

/-!
# Result files can be loaded

- `Failure.named?`: the text that the message of a failure quotes; what a calculation quotes comes from the expression
  (`Calculation.returnless_failure`);
- `Row.isRecord_cells`: the cells of the row of an expression have no carriage returns if the expression has none and
  the results are written without them;
- `runArguments_saved`: the file that a run saves is the written table of the rows of its expressions;
- `load_saved`: the expressions of such a file, as a table, are those of the run.
-/

namespace InfixCalculator

open Csv (Returnless)

variable {e : String} {ts : List Token} {t : Token} {f : Failure} {policy : Policy}

/-! ## Texts without carriage returns -/

theorem returnless_append {s s' : String} :
    Returnless (s ++ s').toList ↔ Returnless s.toList ∧ Returnless s'.toList := by
  simp [Returnless]

theorem returnless_intercalate {s : String} {ss : List String} (h : Returnless s.toList)
    (hss : ∀ s ∈ ss, Returnless s.toList) : Returnless (s.intercalate ss).toList := by
  induction ss with
  | nil => simp [Returnless]
  | cons s' ss ih =>
    obtain ⟨hs', hss⟩ := List.forall_mem_cons.mp hss
    rcases eq_or_ne ss [] with rfl | hne
    · rwa [String.intercalate_singleton]
    · rw [String.intercalate_cons_of_ne_nil hne, returnless_append, returnless_append]
      exact ⟨⟨hs', h⟩, ih hss⟩

theorem returnless_of_number {cs : List Char}
    (h : ∀ c ∈ cs, Json.isNumberChar c = true ∨ c ∈ Number.wordLetters) : Returnless cs :=
  fun hc => absurd (h _ hc) (by decide)

theorem returnless_wholeText (n : Nat) : Returnless (Number.wholeText n).toList := by
  rw [Number.wholeText, String.toList_ofList]
  exact returnless_of_number fun c hc => Or.inl (Number.numberText_digitsOf n c hc)

theorem returnless_positionText (p : Option Nat) : Returnless (positionText p).toList := by
  cases p with
  | none => exact (by decide : Returnless "None".toList)
  | some n => exact returnless_wholeText n

/-! ## Tokens -/

/-- The characters of a token are characters of the expression. -/
theorem text_subset (ht : t ∈ tokenize e) : t.text.toList ⊆ e.toList := by
  intro c hc
  have hflat : c ∈ (texts (tokenize e)).flatMap String.toList :=
    List.mem_flatMap.mpr ⟨t.text, List.mem_map_of_mem ht, hc⟩
  rw [show (texts (tokenize e)).flatMap String.toList = e.toList.filter (· ≠ ' ') from texts_scan 0 e.toList] at hflat
  exact List.mem_of_mem_filter hflat

theorem returnless_text (he : Returnless e.toList) (ht : t ∈ tokenize e) : Returnless t.text.toList :=
  fun hc => he (text_subset ht hc)

theorem returnless_posted (h : Returnless t.text.toList) : Returnless t.posted.text.toList := by
  unfold Token.posted
  split
  · exact returnless_of_number fun c => Number.mem_written
  · simp [Token.ofNumber, Returnless]
  · exact h

/-! ## Messages -/

/-- The text of the token that the message of a failure quotes. -/
def Failure.named? : Failure → Option String
  | unparseable token _ => some token
  | unexpected token => some token
  | underflow operator _ => some operator
  | imbalanced | unmatched _ _ | empty | malformed _ => none

theorem Diagnostic.returnless_message {d : Diagnostic} (h : Returnless d.token.toList) :
    Returnless d.message.toList := by
  unfold Diagnostic.message
  simp only [returnless_append]
  exact ⟨⟨⟨by decide, h⟩, by decide⟩, returnless_positionText _⟩

theorem Failure.returnless_message (h : ∀ s ∈ f.named?, Returnless s.toList) : Returnless f.message.toList := by
  have quoted : ∀ {before after token : String}, Returnless before.toList → Returnless token.toList →
      Returnless after.toList → Returnless (before ++ token ++ after).toList := by
    intro before after token hbefore htoken hafter
    rw [returnless_append, returnless_append]
    exact ⟨⟨hbefore, htoken⟩, hafter⟩
  unfold message
  split
  · decide
  · next paren position =>
    rw [returnless_append]
    exact ⟨quoted (by decide) (by cases paren <;> decide) (by decide), returnless_positionText _⟩
  · next token => exact quoted (by decide) (h token rfl) (by decide)
  · next token p => exact Diagnostic.returnless_message (h token rfl)
  · next token => exact quoted (by decide) (h token rfl) (by decide)
  · next operator available =>
    rw [returnless_append, returnless_append]
    exact ⟨⟨quoted (by decide) (h operator rfl) (by decide), returnless_wholeText _⟩, by decide⟩
  · decide
  · next remaining => exact quoted (by decide) (returnless_wholeText _) (by decide)

/-- A failure of a step names the token, if any. -/
theorem Conversion.named_of_step {w : List Token} (h : step policy w t = .error (.failure f)) :
    ∀ s ∈ f.named?, t.text = s := by
  intro s hs
  unfold step at h
  split at h
  · cases h
  · split at h
    · obtain rfl := Fault.failure.inj (Except.error.inj h)
      cases hs
    · cases h
  · split at h <;> cases h
  · cases h
  · cases h
  · split at h
    · obtain rfl := Fault.failure.inj (Except.error.inj h)
      exact Option.some.inj hs
    · cases h

theorem Conversion.named_of_run {w : List Token} (h : (run policy w ts).ending = .error (.failure f)) :
    ∀ s ∈ f.named?, ∃ t ∈ ts, t.text = s := by
  induction ts generalizing w with
  | nil => cases h
  | cons t ts ih =>
    rw [run] at h
    split at h
    next fault hstep =>
      obtain rfl : fault = .failure f := Except.error.inj h
      exact fun s hs => ⟨t, List.mem_cons_self, named_of_step hstep s hs⟩
    next =>
      intro s hs
      obtain ⟨t', ht', htext⟩ := ih h s hs
      exact ⟨t', List.mem_cons_of_mem t ht', htext⟩

theorem Conversion.named_of_convert (h : convert policy ts = .error (.failure f)) :
    ∀ s ∈ f.named?, ∃ t ∈ ts, t.text = s := by
  rw [convert] at h
  cases hr : (run policy [] ts).ending with
  | error fault =>
    simp only [hr] at h
    obtain rfl := Except.error.inj h
    exact named_of_run hr
  | ok w =>
    simp only [hr, finish] at h
    split at h
    · obtain rfl := Fault.failure.inj (Except.error.inj h)
      intro s hs
      cases hs
    · cases h

theorem Evaluation.named_of_step {stack : List Float} (h : step stack t = .error (.failure f)) :
    ∀ s ∈ f.named?, t.text = s := by
  intro s hs
  unfold step at h
  split at h
  · cases h
  · split at h
    · split at h <;> cases h
    · obtain rfl := Fault.failure.inj (Except.error.inj h)
      exact Option.some.inj hs
  · obtain rfl := Fault.failure.inj (Except.error.inj h)
    exact Option.some.inj hs

theorem Evaluation.named_of_run {stack : List Float} (h : run stack ts = .error (.failure f)) :
    ∀ s ∈ f.named?, ∃ t ∈ ts, t.text = s := by
  induction ts generalizing stack with
  | nil => cases h
  | cons t ts ih =>
    rw [run] at h
    split at h
    next =>
      intro s hs
      obtain ⟨t', ht', htext⟩ := ih h s hs
      exact ⟨t', List.mem_cons_of_mem t ht', htext⟩
    next fault hstep =>
      obtain rfl : fault = .failure f := Except.error.inj h
      exact fun s hs => ⟨t, List.mem_cons_self, named_of_step hstep s hs⟩

theorem Evaluation.named_of_evaluate {allowPartial : Bool} (h : evaluate allowPartial ts = .error (.failure f)) :
    ∀ s ∈ f.named?, ∃ t ∈ ts, t.text = s := by
  rw [evaluate] at h
  split at h
  next stack _ =>
    -- what is wrong with a final stack names no token
    have hnone : f.named? = none := by
      unfold top at h
      split at h
      · obtain rfl := Fault.failure.inj (Except.error.inj h)
        rfl
      · cases h
      · split at h
        · cases h
        · obtain rfl := Fault.failure.inj (Except.error.inj h)
          rfl
    rw [hnone]
    intro s hs
    cases hs
  next fault hrun =>
    obtain rfl := Except.error.inj h
    exact named_of_run hrun

/-- What the message of a failed calculation quotes is taken from the expression. -/
theorem Calculation.returnless_failure {allowPartial : Bool} (he : Returnless e.toList)
    (h : ofExpression ⟨.ok policy, allowPartial⟩ e = .error (.failure f)) : Returnless f.message.toList := by
  refine Failure.returnless_message fun s hs => ?_
  rw [ofExpression_eq_ofTokens] at h
  rcases (ofTokens_eq_error_iff rfl).mp h with ⟨-, hf⟩ | ⟨-, hconv⟩ | ⟨-, out, hconv, heval⟩
  · obtain rfl := Fault.failure.inj hf
    cases hs
  · obtain ⟨t, ht, rfl⟩ := Conversion.named_of_convert hconv s hs
    exact returnless_text he ht
  · obtain ⟨t, ht, rfl⟩ := Evaluation.named_of_evaluate heval s hs
    obtain ⟨t', ht', rfl⟩ := Conversion.convert_source (known_tokenize e) hconv t ht
    exact returnless_posted (returnless_text he ht')

/-! ## Rows -/

namespace Batch

variable {format : ResultFormat} {row : Row} {allowPartial : Bool} {cells : List (List Char)}

/-- Every result can be written in the format, and without a carriage return. -/
def ResultFormat.WritesReturnless (format : ResultFormat) : Prop :=
  ∀ x, ∃ cs, format.write x = .ok cs ∧ Returnless cs

theorem standard_write (x : Float) : (ResultFormat.percent "%.10g".toList).write x =
    .ok (Number.withinWidth .right ' ' 0 (if Number.isNegative x && !x.isNaN then ['-'] else [])
      (Number.Format.size ⟨.general, 10, false, false⟩ x) ++ []) :=
  rfl

theorem standard_writesReturnless : (ResultFormat.percent "%.10g".toList).WritesReturnless := by
  intro x
  refine ⟨_, standard_write x, returnless_of_number fun c hc => ?_⟩
  rw [List.append_nil, Number.withinWidth, Nat.zero_sub, List.replicate_zero, List.nil_append] at hc
  rcases List.mem_append.mp hc with hc | hc
  · left
    split at hc
    · rw [List.mem_singleton.mp hc]
      decide
    · cases hc
  · exact Number.Format.mem_size rfl hc

theorem returnless_resultCell (hformat : format.WritesReturnless) {x : Float} {cs : List Char}
    (h : resultCell format x = .ok cs) : Returnless cs := by
  rw [resultCell] at h
  split at h
  · obtain rfl := Except.ok.inj h
    exact List.not_mem_nil
  · obtain ⟨cs', hcs', hreturn⟩ := hformat x
    obtain rfl := Except.ok.inj (hcs'.symm.trans h)
    exact hreturn

/-- The texts of a row have no carriage return in them. -/
structure Row.Returnless (row : Row) : Prop where
  tokens : ∀ s ∈ row.tokens, Csv.Returnless s.toList
  rpn : ∀ s ∈ row.rpn, Csv.Returnless s.toList
  error : ∀ s ∈ row.error, Csv.Returnless s.toList

theorem Row.returnless_ofCalculation {c : Calculation} (he : Csv.Returnless e.toList)
    (h : Calculation.ofExpression ⟨.ok policy, allowPartial⟩ e = .ok c) : (ofCalculation c).Returnless := by
  obtain ⟨-, htokens, hdiagnostics, hrpn⟩ := Calculation.source h
  refine ⟨?_, ?_, ?_⟩
  · rintro s ⟨⟩
    refine returnless_intercalate (by decide) fun s hs => ?_
    obtain ⟨t, ht, rfl⟩ := List.mem_map.mp hs
    exact returnless_text he (htokens ▸ ht)
  · rintro s ⟨⟩
    refine returnless_intercalate (by decide) fun s hs => ?_
    obtain ⟨t, ht, rfl⟩ := List.mem_map.mp hs
    obtain ⟨t', ht', rfl⟩ := hrpn t ht
    exact returnless_posted (returnless_text he ht')
  · intro s hs
    simp only [ofCalculation, remarks, hdiagnostics] at hs
    split at hs
    · cases hs
    · obtain rfl := Option.some.inj hs
      refine returnless_intercalate (by decide) fun s hs => ?_
      obtain ⟨d, hd, rfl⟩ := List.mem_map.mp hs
      obtain ⟨t, ht, rfl⟩ := List.mem_map.mp hd
      exact Diagnostic.returnless_message (returnless_text he (List.mem_of_mem_filter ht))

theorem Row.returnless_ofFailure (he : Csv.Returnless e.toList)
    (h : Calculation.ofExpression ⟨.ok policy, allowPartial⟩ e = .error (.failure f)) :
    (ofFailure e f).Returnless where
  tokens := fun s hs => nomatch hs
  rpn := fun s hs => nomatch hs
  error := by
    rintro s ⟨⟩
    exact Calculation.returnless_failure he h

theorem Row.returnless_ofExpression (he : Csv.Returnless e.toList)
    (h : ofExpression ⟨.ok policy, allowPartial⟩ e = .ok row) : row.expression = e ∧ row.Returnless := by
  rw [ofExpression] at h
  split at h
  · next c hc =>
    obtain rfl := Except.ok.inj h
    exact ⟨(Calculation.source hc).1, returnless_ofCalculation he hc⟩
  · next f hf =>
    obtain rfl := Except.ok.inj h
    exact ⟨rfl, returnless_ofFailure he hf⟩
  · cases h

/-- The record of an expression: as many cells as there are columns, the first being the expression. -/
structure IsRecord (e : String) (cells : List (List Char)) : Prop where
  length : cells.length = columns.length
  expression : (cells[0]?).getD [] = e.toList
  returnless : ∀ f ∈ cells, Csv.Returnless f

theorem Row.isRecord_cells (hformat : format.WritesReturnless) (he : Csv.Returnless e.toList)
    (h : ofExpression ⟨.ok policy, allowPartial⟩ e = .ok row) (hcells : row.cells format = .ok cells) :
    IsRecord e cells := by
  obtain ⟨hexpression, hrow⟩ := returnless_ofExpression he h
  have hcell : ∀ s : Option String, (∀ s' ∈ s, Csv.Returnless s'.toList) → Csv.Returnless (s.getD "").toList := by
    intro s hs
    cases s with
    | none => exact (by decide : Csv.Returnless "".toList)
    | some s => exact hs s rfl
  rw [Row.cells] at hcells
  cases hresult : resultCell format row.result with
  | error fault =>
    rw [hresult] at hcells
    cases hcells
  | ok result =>
    rw [hresult] at hcells
    obtain rfl := Except.ok.inj hcells
    rw [hexpression]
    exact ⟨rfl, rfl, by simp [he, hcell _ hrow.tokens, hcell _ hrow.rpn, hcell _ hrow.error,
      returnless_resultCell hformat hresult]⟩

/-- The records of the rows of expressions. -/
theorem isRecord_rowCells (hformat : format.WritesReturnless) {es : List String} {rows : List Row}
    {records : List (List (List Char))} (hes : ∀ e ∈ es, Csv.Returnless e.toList)
    (hrows : List.Forall₂ (fun e row => Row.ofExpression ⟨.ok policy, allowPartial⟩ e = .ok row) es rows)
    (h : rowCells format rows = .ok records) : List.Forall₂ IsRecord es records := by
  induction hrows generalizing records with
  | nil =>
    obtain rfl := Except.ok.inj h
    exact .nil
  | @cons e row es rows hrow _ ih =>
    obtain ⟨he, hes⟩ := List.forall_mem_cons.mp hes
    cases hcells : row.cells format with
    | error fault =>
      rw [rowCells, hcells] at h
      cases h
    | ok cells =>
      cases hrest : rowCells format rows with
      | error fault =>
        rw [rowCells, hcells, hrest] at h
        cases h
      | ok rest =>
        rw [rowCells, hcells, hrest] at h
        obtain rfl := Except.ok.inj h
        exact .cons (Row.isRecord_cells hformat he hrow hcells) (ih hes hrest)

/-! ## Result files -/

/-- Records of expressions have a cell for each column, and the expressions in the first one. -/
theorem records_cells {es : List String} {records : List (List (List Char))} (h : List.Forall₂ IsRecord es records) :
    (∀ cells ∈ records, cells.length = columns.length ∧ ∀ f ∈ cells, Csv.Returnless f) ∧
      records.map (fun cells => (cells[0]?).getD []) = es.map String.toList := by
  induction h with
  | nil => exact ⟨fun _ h => absurd h List.not_mem_nil, rfl⟩
  | cons he _ ih =>
    refine ⟨List.forall_mem_cons.mpr ⟨⟨he.length, he.returnless⟩, ih.1⟩, ?_⟩
    rw [List.map_cons, List.map_cons, he.expression, ih.2]

/-- The expressions of a table of records are those of the records. -/
theorem ofTable_resultText {es : List String} {records : List (List (List Char))} (h : List.Forall₂ IsRecord es records)
    (path : String) : ofTable (.text "expression") path (Text.Utf8.encode (resultText records)) = .ok es := by
  obtain ⟨hcells, hfirst⟩ := records_cells h
  have hread : Csv.Table.read? (Text.Utf8.encode (resultText records)) =
      .ok ⟨columns.map String.toList, Csv.columnsOfRecords columns.length records⟩ := by
    refine Csv.read?_write (by decide) (by decide) (by decide) (fun cells h => (hcells cells h).1)
      (List.forall_mem_cons.mpr ⟨by decide, fun cells h => (hcells cells h).2⟩) ?_
    rintro b ⟨⟩
    decide
  rw [ofTable, hread]
  show Except.ok ((records.map fun cells => (cells[0]?).getD []).map String.ofList) = _
  rw [hfirst, List.map_map]
  simp

/-- The file of the rows of expressions has the expressions, if the format writes every result. -/
theorem ofTable_resultFile (hformat : format.WritesReturnless) {es : List String} {rows : List Row}
    (hes : ∀ e ∈ es, Csv.Returnless e.toList) (hrows : evaluate ⟨.ok policy, allowPartial⟩ es = .ok rows)
    (path : String) : ofTable (.text "expression") path (resultFile format rows).1 = .ok es := by
  obtain ⟨records, hrecords⟩ := exists_rowCells (fun x => (hformat x).imp fun _ h => h.1) rows
  rw [resultFile, hrecords]
  exact ofTable_resultText (isRecord_rowCells hformat hes (evaluate_eq_ok_iff.mp hrows) hrecords) path

end Batch

/-! ## Runs -/

namespace CommandLine

variable {settings : Settings} {files : Files} {args : Arguments} {path out : String} {bytes : List UInt8}

theorem saved_ofFault (journal : Journal) (fault : Fault) : (Outcome.ofFault journal fault).saved = none := by
  cases fault <;> rfl

theorem saved_ofFormatFault (journal : Journal) (fault : Batch.ResultFormat.Fault) :
    (Outcome.ofFormatFault journal fault).saved = none := by
  unfold Outcome.ofFormatFault
  split <;> rfl

/-- Rows are saved as the file of the rows. -/
theorem saveRows_saved {journal : Journal} {rows : List Batch.Row}
    (h : (saveRows settings files journal path rows).saved = some (out, bytes)) :
    ∃ format, Batch.ResultFormat.ofJson settings.floatFormat = .ok format ∧
      bytes = (Batch.resultFile format rows).1 := by
  rw [saveRows] at h
  cases hformat : Batch.ResultFormat.ofJson settings.floatFormat with
  | error fault =>
    simp only [hformat, saved_ofFormatFault] at h
    cases h
  | ok format =>
    simp only [hformat] at h
    split at h
    · cases h
    · exact ⟨format, rfl, (Prod.mk.inj (Option.some.inj h)).2.symm⟩

/-- What a run over a file saves is the file of the rows of its expressions. -/
theorem runArguments_saved {es : List String} (hfile : args.file? = some path)
    (hload : Batch.load settings files path (columnOf args) = .ok es)
    (h : (runArguments settings files args).saved = some (out, bytes)) :
    ∃ policy allowPartial rows format, Batch.evaluate ⟨.ok policy, allowPartial⟩ es = .ok rows ∧
      Batch.ResultFormat.ofJson settings.floatFormat = .ok format ∧ bytes = (Batch.resultFile format rows).1 := by
  cases hvalid : settings.validate with
  | error fault =>
    rw [runArguments, hvalid] at h
    cases h
  | ok _ =>
    obtain ⟨policy, allowPartial, hoptions⟩ := exists_optionsOf hvalid args
    rw [runArguments_file hvalid hfile, runFile] at h
    simp only [hload, hoptions] at h
    cases hrows : Batch.evaluate ⟨.ok policy, allowPartial⟩ es with
    | error fault =>
      simp only [hrows, saved_ofFault] at h
      cases h
    | ok rows =>
      simp only [hrows, runRows] at h
      split at h
      · cases h
      · obtain ⟨format, hformat, hbytes⟩ := saveRows_saved h
        exact ⟨policy, allowPartial, rows, format, hrows, hformat, hbytes⟩

/-- **Results can be fed back in.** What a run over a file saves under the name of a table has the expressions of the
run in its first column, whatever they are, as long as there are no carriage returns in them. -/
theorem load_saved {es : List String} (hformat : settings.floatFormat = Settings.standard.floatFormat)
    (hfile : args.file? = some path) (hload : Batch.load settings files path (columnOf args) = .ok es)
    (hes : ∀ e ∈ es, '\r' ∉ e.toList) (hsaved : (runArguments settings files args).saved = some (out, bytes))
    (hout : Batch.isTable out = true) {later : Files} (hread : later.read out = .ok bytes) :
    Batch.load settings later out (.text "expression") = .ok es := by
  obtain ⟨policy, allowPartial, rows, format, hrows, hof, rfl⟩ := runArguments_saved hfile hload hsaved
  rw [hformat, Settings.standard_floatFormat] at hof
  obtain rfl := Except.ok.inj hof
  rw [Batch.load, hread]
  simp only [hout, if_true]
  exact Batch.ofTable_resultFile Batch.standard_writesReturnless hes hrows out

/-- A table with a comma, quote marks, a line feed and braces in one of its expressions, nothing in another, and blanks
in front of the last. -/
def quotedSums : Files where
  read _ := .ok (Text.Utf8.encode "expression\n\"1, \"\"x\"\"\n+ \x7b2\x7d\"\n\"\"\n  (2\n".toList)
  refusal _ := none

theorem load_saved_quotedSums :
    ∃ bytes, (runArguments Settings.standard quotedSums
        { file := some "sums.csv", outputPath := some "results.csv" }).saved = some ("results.csv", bytes) ∧
      Batch.load Settings.standard ⟨fun _ => .ok bytes, fun _ => none⟩ "results.csv" (.text "expression") =
        .ok ["1, \"x\"\n+ \x7b2\x7d", "", "  (2"] := by
  have hload : Batch.load Settings.standard quotedSums "sums.csv"
      (columnOf { file := some "sums.csv", outputPath := some "results.csv" }) =
        .ok ["1, \"x\"\n+ \x7b2\x7d", "", "  (2"] := by
    decide +kernel
  have hpath : ((runArguments Settings.standard quotedSums
      { file := some "sums.csv", outputPath := some "results.csv" }).saved.map Prod.fst) = some "results.csv" := by
    decide +kernel
  obtain ⟨⟨out, bytes⟩, hsaved, rfl⟩ := Option.map_eq_some_iff.mp hpath
  exact ⟨bytes, hsaved, load_saved rfl (by decide +kernel) hload (by simp) hsaved (by decide +kernel) rfl⟩

end CommandLine

end InfixCalculator
