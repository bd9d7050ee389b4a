import InfixCalculator.Csv.Read
import InfixCalculator.Csv.Write
import InfixCalculator.Proofs.Encoding

/-!
# Reading undoes writing of comma-separated values

- `State.within`: the machine in the middle of a record, by what it has read of it; `Mode.Ends`: the modes in which a
  comma or a line feed ends a field;
- `linesFrom_writeField`, `linesFrom_start`: a written field is read as the field, also where a line begins, and with
  it blanks that could have been an empty line;
- `linesFrom_writeRecord`: a written record of two or more fields without carriage returns is read as one line, whatever
  follows;
- `columnNames_eq_self`: columns of which each has a name of its own are called by these names;
- `read?_write`: the columns of a table of such records are those of the records.
-/

namespace InfixCalculator.Csv

open Text

variable {b : UInt8} {bs ps : List UInt8} {field : Field} {fields : List Field} {mode : Mode} {st st' : State}
  {c : Char} {f : List Char} {n : Nat}

/-! ## Bytes of fields -/

/-- The byte belongs to a field outside quote marks. -/
def PlainByte (b : UInt8) : Prop :=
  markOf b = .other ∨ markOf b = .blank

theorem markOf_of_le (h : 0x80 ≤ b.toNat) : markOf b = .other := by
  have hne : ∀ k : UInt8, k.toNat < 0x80 → b ≠ k := by
    rintro k hk rfl
    omega
  simp [markOf, hne]

/-- The byte of a character of ASCII, or a byte without a meaning. -/
theorem of_mem_utf8EncodeChar (hb : b ∈ String.utf8EncodeChar c) :
    markOf b = .other ∨ c.toNat = b.toNat := by
  rcases Nat.lt_or_ge c.toNat 0x80 with hascii | hmore
  · rw [Utf8.utf8EncodeChar_ascii hascii, List.mem_singleton] at hb
    rw [hb, Utf8.toNat_ofNat (by omega)]
    exact Or.inr rfl
  · exact Or.inl (markOf_of_le (Utf8.le_of_mem_utf8EncodeChar hmore hb))

theorem eq_of_toNat_eq {d : Char} (h : c.toNat = d.toNat) : c = d := by
  rw [← Char.ofNat_toNat c, h, Char.ofNat_toNat]

theorem plainByte_of_mem (hc : needsQuotes c = false) (hr : c ≠ '\r') (hb : b ∈ String.utf8EncodeChar c) :
    PlainByte b := by
  rcases of_mem_utf8EncodeChar hb with hother | hascii
  · exact Or.inl hother
  · simp only [needsQuotes, Bool.or_eq_false_iff, decide_eq_false_iff_not] at hc
    have hne : ∀ (k : UInt8) (d : Char), d.toNat = k.toNat → c ≠ d → b ≠ k := by
      rintro k d hd hcd rfl
      exact hcd (eq_of_toNat_eq (hascii.trans hd.symm))
    rw [PlainByte, markOf, if_neg (hne 0x0A '\n' rfl hc.2), if_neg (hne 0x0D '\r' rfl hr),
      if_neg (hne 0x2C ',' rfl hc.1.1), if_neg (hne 0x22 '\x22' rfl hc.1.2)]
    split
    · exact Or.inr rfl
    · exact Or.inl rfl

theorem markOf_ne_quote (hc : c ≠ '\x22') (hb : b ∈ String.utf8EncodeChar c) : markOf b ≠ .quote := by
  rcases of_mem_utf8EncodeChar hb with hother | hascii
  · rw [hother]
    decide
  · have hne : b ≠ 0x22 := by
      rintro rfl
      exact hc (eq_of_toNat_eq hascii)
    simp only [markOf, if_neg hne]
    split_ifs <;> decide

/-! ## The machine in a record -/

/-- The machine with some bytes of a field, and the fields before it. -/
def State.within (mode : Mode) (field : Field) (fields : List Field) : State :=
  { mode := mode, field := field.reverse, record := fields.reverse }

/-- A comma or a line feed ends a field in this mode. -/
def Mode.Ends (mode : Mode) : Prop :=
  mode = .fieldStart ∨ mode = .plain ∨ mode = .markSeen

theorem push_within (mode mode' : Mode) (field : Field) (fields : List Field) (b : UInt8) :
    (State.within mode field fields).push mode' b = .within mode' (field ++ [b]) fields := by
  simp [State.push, State.within]

theorem line_within (mode : Mode) (field : Field) (fields : List Field) :
    (State.within mode field fields).line = .record (fields ++ [field]) := by
  simp [State.line, State.within]

theorem linesFrom_cons (h : st.step b = (st', [])) (n : Nat) (bs : List UInt8) :
    linesFrom st n (b :: bs) = linesFrom st' n bs := by
  rw [linesFrom, h]
  rfl

theorem linesFrom_comma (h : mode.Ends) (field : Field) (fields : List Field) (n : Nat) (bs : List UInt8) :
    linesFrom (.within mode field fields) n (0x2C :: bs) =
      linesFrom (.within .fieldStart [] (fields ++ [field])) n bs := by
  refine linesFrom_cons ?_ n bs
  have hend : (State.within mode field fields).endField = .within .fieldStart [] (fields ++ [field]) := by
    simp [State.endField, State.within]
  rw [← hend]
  rcases h with rfl | rfl | rfl <;> rfl

theorem linesFrom_lineFeed (h : mode.Ends) (field : Field) (fields : List Field) (n : Nat) (bs : List UInt8) :
    linesFrom (.within mode field fields) n (0x0A :: bs) =
      (.record (fields ++ [field]) :: (linesFrom {} (n + 1) bs).1, (linesFrom {} (n + 1) bs).2) := by
  rw [← line_within mode]
  rcases h with rfl | rfl | rfl <;> rfl

theorem linesFrom_plain (hmode : mode = .fieldStart ∨ mode = .plain) (hps : ∀ b ∈ ps, PlainByte b) (field : Field)
    (fields : List Field) (n : Nat) (bs : List UInt8) :
    linesFrom (.within mode field fields) n (ps ++ bs) =
      linesFrom (.within (if ps = [] then mode else .plain) (field ++ ps) fields) n bs := by
  induction ps generalizing mode field with
  | nil => rw [List.nil_append, List.append_nil, if_pos rfl]
  | cons b ps ih =>
    obtain ⟨hb, hps⟩ := List.forall_mem_cons.mp hps
    have hstep : (State.within mode field fields).step b = (.within .plain (field ++ [b]) fields, []) := by
      rw [← push_within mode]
      rcases hmode with rfl | rfl <;> rcases hb with hb | hb <;>
        simp [State.step, State.within, State.firstByte, State.plainByte, hb]
    rw [List.cons_append, linesFrom_cons hstep, ih (Or.inr rfl) hps, ite_self, if_neg (List.cons_ne_nil b ps),
      List.append_assoc, List.singleton_append]

theorem linesFrom_quoted (hps : ∀ b ∈ ps, markOf b ≠ .quote) (field : Field) (fields : List Field) (n : Nat)
    (bs : List UInt8) :
    linesFrom (.within .quoted field fields) n (ps ++ bs) = linesFrom (.within .quoted (field ++ ps) fields) n bs := by
  induction ps generalizing field with
  | nil => rw [List.nil_append, List.append_nil]
  | cons b ps ih =>
    obtain ⟨hb, hps⟩ := List.forall_mem_cons.mp hps
    have hstep : (State.within .quoted field fields).step b = (.within .quoted (field ++ [b]) fields, []) := by
      rw [← push_within .quoted]
      exact if_neg hb
    rw [List.cons_append, linesFrom_cons hstep, ih hps, List.append_assoc, List.singleton_append]

/-- Inside quote marks every character is kept, and two marks stand for one. -/
theorem linesFrom_doubleMarks (f : List Char) (field : Field) (fields : List Field) (n : Nat) (bs : List UInt8) :
    linesFrom (.within .quoted field fields) n (Utf8.encode (doubleMarks f) ++ bs) =
      linesFrom (.within .quoted (field ++ Utf8.encode f) fields) n bs := by
  induction f generalizing field with
  | nil => simp [doubleMarks, Utf8.encode]
  | cons c f ih =>
    have hsplit : Utf8.encode (doubleMarks (c :: f)) =
        Utf8.encode (if c = '\x22' then ['\x22', '\x22'] else [c]) ++ Utf8.encode (doubleMarks f) := by
      simp [doubleMarks, Utf8.encode]
    have hcons : Utf8.encode (c :: f) = String.utf8EncodeChar c ++ Utf8.encode f := List.flatMap_cons
    rw [hsplit, hcons, List.append_assoc, ← List.append_assoc field, ← ih]
    split
    case isTrue hc =>
      subst hc
      show linesFrom (.within .quoted field fields) n (0x22 :: 0x22 :: (Utf8.encode (doubleMarks f) ++ bs)) = _
      have hmark : (State.within .quoted field fields).step 0x22 = (.within .markSeen field fields, []) := rfl
      have hsecond : (State.within .markSeen field fields).step 0x22 =
          (.within .quoted (field ++ [0x22]) fields, []) := by
        rw [← push_within .markSeen]
        rfl
      rw [linesFrom_cons hmark, linesFrom_cons hsecond]
      rfl
    case isFalse hc =>
      have hone : Utf8.encode [c] = String.utf8EncodeChar c := by simp [Utf8.encode]
      rw [hone, linesFrom_quoted fun b hb => markOf_ne_quote hc hb]

/-! ## Written fields -/

/-- The field has no carriage return in it, which would be read as a line break. -/
def Returnless (f : List Char) : Prop :=
  '\r' ∉ f

instance (f : List Char) : Decidable (Returnless f) :=
  inferInstanceAs (Decidable ('\r' ∉ f))

theorem plainByte_of_writeField (hf : Returnless f) (h : f.any needsQuotes = false) :
    ∀ b ∈ Utf8.encode f, PlainByte b := by
  intro b hb
  obtain ⟨c, hc, hbc⟩ := List.mem_flatMap.mp hb
  exact plainByte_of_mem (by simpa using List.any_eq_false.mp h c hc) (fun hr => hf (hr ▸ hc)) hbc

/-- A written field is read as the field. -/
theorem linesFrom_writeField (hf : Returnless f) (fields : List Field) :
    ∃ mode : Mode, mode.Ends ∧ ∀ n bs, linesFrom (.within .fieldStart [] fields) n (Utf8.encode (writeField f) ++ bs) =
      linesFrom (.within mode (Utf8.encode f) fields) n bs := by
  unfold writeField
  split
  case isTrue =>
    have hquoted : Utf8.encode ('\x22' :: (doubleMarks f ++ ['\x22'])) =
        0x22 :: (Utf8.encode (doubleMarks f) ++ [0x22]) := by
      simp [Utf8.encode, show String.utf8EncodeChar '\x22' = [0x22] from rfl]
    refine ⟨.markSeen, Or.inr (Or.inr rfl), fun n bs => ?_⟩
    have hopen : (State.within .fieldStart [] fields).step 0x22 = (.within .quoted [] fields, []) := rfl
    have hclose : (State.within .quoted (Utf8.encode f) fields).step 0x22 =
        (.within .markSeen (Utf8.encode f) fields, []) := rfl
    rw [hquoted, List.cons_append, linesFrom_cons hopen, List.append_assoc, linesFrom_doubleMarks, List.nil_append,
      List.singleton_append, linesFrom_cons hclose]
  case isFalse h =>
    have hplain := plainByte_of_writeField hf (by simpa using h)
    refine ⟨if Utf8.encode f = [] then .fieldStart else .plain, ?_, fun n bs => ?_⟩
    · split
      · exact Or.inl rfl
      · exact Or.inr (Or.inl rfl)
    · rw [linesFrom_plain (Or.inl rfl) hplain, List.nil_append]

/-! ## The start of a line -/

theorem linesFrom_blanks (hmode : mode = .lineStart ∨ mode = .blanks) (hps : ∀ b ∈ ps, markOf b = .blank)
    (hne : ps ≠ []) (skipped : List UInt8) (n : Nat) (bs : List UInt8) :
    linesFrom (State.skip mode skipped) n (ps ++ bs) = linesFrom (State.skip .blanks (ps.reverse ++ skipped)) n bs := by
  induction ps generalizing mode skipped with
  | nil => exact absurd rfl hne
  | cons b ps ih =>
    obtain ⟨hb, hps⟩ := List.forall_mem_cons.mp hps
    have hstep : (State.skip mode skipped).step b = (State.skip .blanks (b :: skipped), []) := by
      rcases hmode with rfl | rfl <;> simp [State.step, State.skip, State.lineByte, State.blanksByte, hb]
    rw [List.cons_append, linesFrom_cons hstep]
    rcases eq_or_ne ps [] with rfl | hrest
    · rfl
    · rw [ih (Or.inr rfl) hps hrest, List.reverse_cons, List.append_assoc, List.singleton_append]

/-- Blanks that turn out to be no empty line are the front of a field. -/
theorem reclaim_blanks (hps : ∀ b ∈ ps, markOf b = .blank) (hne : ps ≠ []) (mode : Mode) (field : Field)
    (fields : List Field) :
    State.reclaim (.within mode field fields) ps = (.within .plain (field ++ ps) fields, []) := by
  induction ps generalizing mode field with
  | nil => exact absurd rfl hne
  | cons b ps ih =>
    obtain ⟨hb, hps⟩ := List.forall_mem_cons.mp hps
    cases ps with
    | nil => rw [State.reclaim, hb, ← push_within mode]
    | cons p ps =>
      have hfirst : State.reclaim (.within mode field fields) (b :: p :: ps) =
          State.reclaim ((State.within mode field fields).push .plain b) (p :: ps) := by
        simp only [State.reclaim, hb]
      rw [hfirst, push_within, ih hps (List.cons_ne_nil p ps), List.append_assoc, List.singleton_append]

/-- A byte that is neither blank nor a line break begins a field where a line begins, also after blanks. -/
theorem linesFrom_start_cons (hps : ∀ b ∈ ps, markOf b = .blank) (hb : markOf b = .other ∨ markOf b = .comma) (n : Nat)
    (bs : List UInt8) : linesFrom {} n (ps ++ b :: bs) = linesFrom (.within .fieldStart [] []) n (ps ++ b :: bs) := by
  rcases eq_or_ne ps [] with rfl | hne
  · have hstep : State.step {} b = (State.within .fieldStart [] []).step b := by
      rcases hb with hb | hb <;> simp [State.step, State.within, State.lineByte, hb]
    rw [List.nil_append, linesFrom, linesFrom, hstep]
  · have hstep : (State.skip .blanks (ps.reverse ++ [])).step b = (State.within .plain ps []).step b := by
      have hreclaim := reclaim_blanks hps hne .lineStart [] []
      rw [List.nil_append] at hreclaim
      have hbyte : (State.skip .blanks (ps.reverse ++ [])).step b = State.blanksByte (ps.reverse ++ []) b := rfl
      have hblanks : State.blanksByte ps.reverse b =
          (((State.reclaim {} ps).1.plainByte b).1,
            (State.reclaim {} ps).2 ++ ((State.reclaim {} ps).1.plainByte b).2) := by
        rcases hb with hb | hb <;> simp only [State.blanksByte, hb, List.reverse_reverse]
      rw [hbyte, List.append_nil, hblanks, show ({} : State) = .within .lineStart [] [] from rfl, hreclaim]
      rfl
    have hplain : ∀ b ∈ ps, PlainByte b := fun b hb => Or.inr (hps b hb)
    rw [show ({} : State) = State.skip .lineStart [] from rfl, linesFrom_blanks (Or.inl rfl) hps hne,
      linesFrom_plain (Or.inl rfl) hplain, if_neg hne, List.nil_append, linesFrom, linesFrom, hstep]

/-- The first of several fields is read where a line begins as it is read after a comma. -/
theorem linesFrom_start (hf : Returnless f) (n : Nat) (bs : List UInt8) :
    linesFrom {} n (Utf8.encode (writeField f) ++ 0x2C :: bs) =
      linesFrom (.within .fieldStart [] []) n (Utf8.encode (writeField f) ++ 0x2C :: bs) := by
  unfold writeField
  split
  case isTrue => rfl
  case isFalse h =>
    have hplain := plainByte_of_writeField hf (by simpa using h)
    generalize Utf8.encode f = ps at hplain
    -- the blanks at the front are split off, and what follows them is a byte of the field or the comma
    have hsplit := List.takeWhile_append_dropWhile (p := fun b => markOf b = .blank) (l := ps)
    have hblank : ∀ b ∈ ps.takeWhile (fun b => markOf b = .blank), markOf b = .blank := fun b hb => by
      simpa using List.mem_takeWhile_imp hb
    cases hrest : ps.dropWhile (fun b => markOf b = .blank) with
    | nil =>
      rw [hrest, List.append_nil] at hsplit
      rw [hsplit] at hblank
      exact linesFrom_start_cons hblank (Or.inr rfl) n bs
    | cons b rest =>
      have hb : markOf b ≠ .blank := by
        have := List.head_dropWhile_not (fun b => decide (markOf b = .blank)) (l := ps) (by simp [hrest])
        simpa [hrest] using this
      have hmem : b ∈ ps := by
        rw [← hsplit, hrest]
        exact List.mem_append_right _ List.mem_cons_self
      rw [← hsplit, hrest, List.append_assoc, List.cons_append]
      exact linesFrom_start_cons hblank (Or.inl ((hplain b hmem).resolve_right hb)) n _

/-! ## Written records -/

theorem encode_append (f g : List Char) : Utf8.encode (f ++ g) = Utf8.encode f ++ Utf8.encode g :=
  List.flatMap_append

theorem encode_writeRecord (f g : List Char) (fs : List (List Char)) (bs : List UInt8) :
    Utf8.encode (writeRecord (f :: g :: fs)) ++ bs =
      Utf8.encode (writeField f) ++ 0x2C :: (Utf8.encode (writeRecord (g :: fs)) ++ bs) := by
  rw [writeRecord, List.map_cons, List.map_cons, List.intercalate_cons_cons]
  simp only [encode_append, List.append_assoc, writeRecord, List.map_cons]
  rfl

/-- What remains of a written record after some of its fields is read as the others. -/
theorem linesFrom_writeFields {fs : List (List Char)} (hfs : ∀ f ∈ fs, Returnless f) (hne : fs ≠ [])
    (fields : List Field) (n : Nat) (bs : List UInt8) :
    linesFrom (.within .fieldStart [] fields) n (Utf8.encode (writeRecord fs) ++ bs) =
      (.record (fields ++ fs.map Utf8.encode) :: (linesFrom {} (n + 1) bs).1, (linesFrom {} (n + 1) bs).2) := by
  induction fs generalizing fields with
  | nil => exact absurd rfl hne
  | cons f fs ih =>
    obtain ⟨hf, hfs⟩ := List.forall_mem_cons.mp hfs
    obtain ⟨mode, hmode, hfield⟩ := linesFrom_writeField hf fields
    cases fs with
    | nil =>
      have hrecord : Utf8.encode (writeRecord [f]) ++ bs = Utf8.encode (writeField f) ++ 0x0A :: bs := by
        rw [writeRecord, List.map_singleton, List.intercalate_singleton, encode_append, List.append_assoc]
        rfl
      rw [hrecord, hfield, linesFrom_lineFeed hmode]
      rfl
    | cons g fs =>
      rw [encode_writeRecord, hfield, linesFrom_comma hmode, ih hfs (List.cons_ne_nil g fs), List.append_assoc]
      rfl

/-- A written record of several fields is read as one line. -/
theorem linesFrom_writeRecord {fs : List (List Char)} (hfs : ∀ f ∈ fs, Returnless f) (htwo : 2 ≤ fs.length) (n : Nat)
    (bs : List UInt8) :
    linesFrom {} n (Utf8.encode (writeRecord fs) ++ bs) =
      (.record (fs.map Utf8.encode) :: (linesFrom {} (n + 1) bs).1, (linesFrom {} (n + 1) bs).2) := by
  obtain ⟨f, g, fs, rfl⟩ : ∃ f g fs', fs = f :: g :: fs' := by
    match fs, htwo with
    | f :: g :: fs, _ => exact ⟨f, g, fs, rfl⟩
  have hrest := linesFrom_writeFields hfs (List.cons_ne_nil _ _) [] n bs
  rw [encode_writeRecord] at hrest ⊢
  rw [linesFrom_start (hfs f List.mem_cons_self), hrest, List.nil_append]

/-- Written records are read as lines of their own. -/
theorem lines_write {records : List (List (List Char))} (hrecords : ∀ fs ∈ records, ∀ f ∈ fs, Returnless f)
    (htwo : ∀ fs ∈ records, 2 ≤ fs.length) :
    lines (Utf8.encode (write records)) = (records.map fun fs => .record (fs.map Utf8.encode), none) := by
  suffices h : ∀ n, linesFrom {} n (Utf8.encode (write records)) =
      (records.map fun fs => .record (fs.map Utf8.encode), none) from h 0
  induction records with
  | nil => exact fun _ => rfl
  | cons fs records ih =>
    obtain ⟨hfs, hrecords⟩ := List.forall_mem_cons.mp hrecords
    obtain ⟨hlen, htwo⟩ := List.forall_mem_cons.mp htwo
    intro n
    rw [write, List.flatMap_cons, encode_append, linesFrom_writeRecord hfs hlen]
    exact congrArg (fun r => (Line.record (fs.map Utf8.encode) :: r.1, r.2)) (ih hrecords htwo (n + 1))

/-! ## Written tables -/

theorem textsOf_map_encode (fs : List (List Char)) : textsOf (fs.map Utf8.encode) = .ok fs := by
  induction fs with
  | nil => rfl
  | cons f fs ih =>
    have htext : textOf (Utf8.encode f) = .ok f := by
      rw [textOf, Utf8.decode_encode]
      rfl
    rw [List.map_cons, textsOf, htext, ih]
    rfl

theorem columnsOf_map_encode (columns : List (List (List Char))) :
    columnsOf (columns.map (List.map Utf8.encode)) = .ok columns := by
  induction columns with
  | nil => rfl
  | cons column columns ih =>
    rw [List.map_cons, columnsOf, textsOf_map_encode, ih]
    rfl

/-- The cells of each column of records. -/
def columnsOfRecords (width : Nat) (records : List (List (List Char))) : List (List (List Char)) :=
  (List.range width).map fun i => records.map fun fs => (fs[i]?).getD []

theorem transpose_map_encode (width : Nat) (records : List (List (List Char))) :
    transpose width (records.map (List.map Utf8.encode)) =
      (columnsOfRecords width records).map (List.map Utf8.encode) := by
  have hcell : ∀ (i : Nat) (fs : List (List Char)),
      ((fs.map Utf8.encode)[i]?).getD [] = Utf8.encode ((fs[i]?).getD []) := by
    intro i fs
    rw [List.getElem?_map]
    cases fs[i]? <;> rfl
  simp only [transpose, columnsOfRecords, List.map_map, Function.comp_def, hcell]

theorem records_map_record {width : Nat} {fs : List (List Field)} (h : ∀ fields ∈ fs, fields.length ≤ width)
    (line : Nat) : records width line (fs.map .record) = .ok fs := by
  induction fs generalizing line with
  | nil => rfl
  | cons fields fs ih =>
    obtain ⟨hlen, hrest⟩ := List.forall_mem_cons.mp h
    rw [List.map_cons, records, if_neg (Nat.not_lt_of_le hlen), ih hrest]
    rfl

theorem firstWidth_le {width : Nat} {fs : List (List Field)} (h : ∀ fields ∈ fs, fields.length ≤ width) :
    firstWidth (fs.map .record) ≤ width := by
  cases fs with
  | nil => exact Nat.zero_le width
  | cons fields fs => exact h fields List.mem_cons_self

theorem dropMark_of_ne (h : ∀ b ∈ bs.head?, b ≠ 0xEF) : dropMark bs = bs := by
  unfold dropMark
  split
  · exact absurd rfl (h 0xEF rfl)
  · rfl

/-! ## Names of columns -/

/-- The names at some indices, empty beyond the last one. -/
def namesAt (names : List (List Char)) (indices : List Nat) : List (List Char) :=
  indices.map fun i => (names[i]?).getD []

/-- Among names that differ none has been taken at an earlier index. -/
theorem getD_not_mem_namesAt {names : List (List Char)} (h : names.Nodup) {i : Nat} {done : List Nat}
    (hbound : ∀ j ∈ i :: done, j < names.length) (hi : i ∉ done) : (names[i]?).getD [] ∉ namesAt names done := by
  obtain ⟨hlt, hdone⟩ := List.forall_mem_cons.mp hbound
  intro hmem
  obtain ⟨j, hj, heq⟩ := List.mem_map.mp hmem
  rw [List.getElem?_eq_getElem (hdone j hj), List.getElem?_eq_getElem hlt] at heq
  obtain rfl := (List.Nodup.getElem_inj_iff h).mp heq
  exact hi hj

/-- Names that differ are all kept. -/
theorem renameFrom_eq_self {names : List (List Char)} (h : names.Nodup) (done : List Nat) {indices : List Nat}
    (hbound : ∀ i ∈ indices ++ done, i < names.length) (hnodup : (indices ++ done).Nodup) :
    renameFrom (namesAt names done) names indices = names := by
  induction indices generalizing done with
  | nil => rfl
  | cons i indices ih =>
    have hperm : (indices ++ i :: done).Perm (i :: indices ++ done) := List.perm_middle
    have hin : ∀ j ∈ i :: done, j < names.length := fun j hj => hbound j (hperm.subset (List.mem_append_right _ hj))
    have hi : i ∉ done := fun hi => (List.nodup_cons.mp hnodup).1 (List.mem_append_right _ hi)
    have hfree : (namesAt names done).contains ((names[i]?).getD []) = false := by
      simpa using getD_not_mem_namesAt h hin hi
    have hset : names.set i ((names[i]?).getD []) = names := by
      rw [List.getElem?_eq_getElem (hin i List.mem_cons_self)]
      exact List.set_getElem_self _
    rw [renameFrom]
    simp only [hfree, Bool.false_eq_true, if_false, hset]
    exact ih (i :: done) (fun j hj => hbound j (hperm.subset hj)) (hperm.nodup_iff.mpr hnodup)

/-- Columns of which each has a name of its own are called by these names. -/
theorem columnNames_eq_self {header : List (List Char)} (h : header.Nodup) (hne : [] ∉ header) :
    columnNames header = header := by
  have hnamed : ∀ i ∈ List.range header.length, (header[i]? != some []) = true := by
    intro i _
    rw [bne_iff_ne]
    exact fun hi => hne (List.mem_of_getElem? hi)
  have hnames : header.mapIdx columnName = header := by
    refine List.ext_getElem List.length_mapIdx fun i _ hi => ?_
    have hi' : header[i] ≠ [] := fun hempty => hne (hempty ▸ List.getElem_mem hi)
    rw [List.getElem_mapIdx, columnName, if_neg hi']
  have hfilter : (List.range header.length).filter (fun i => !(header[i]? != some [])) = [] :=
    List.filter_eq_nil_iff.mpr fun i hi => by simp [hnamed i hi]
  rw [columnNames, List.filter_eq_self.mpr hnamed, hfilter, hnames]
  exact renameFrom_eq_self h [] (by simp) (by simpa using List.nodup_range)

/-! ## Tables -/

/-- A table of several columns whose texts have no carriage returns, each column with a name of its own, is read as it
was written, column by column. -/
theorem read?_write {header : List (List Char)} {records : List (List (List Char))} (htwo : 2 ≤ header.length)
    (hnodup : header.Nodup) (hnamed : [] ∉ header) (hlen : ∀ fs ∈ records, fs.length = header.length)
    (hfs : ∀ fs ∈ header :: records, ∀ f ∈ fs, Returnless f)
    (hmark : ∀ b ∈ (Utf8.encode (write (header :: records))).head?, b ≠ 0xEF) :
    Table.read? (Utf8.encode (write (header :: records))) = .ok ⟨header, columnsOfRecords header.length records⟩ := by
  have hwide : ∀ fs ∈ header :: records, 2 ≤ fs.length :=
    List.forall_mem_cons.mpr ⟨htwo, fun fs h => (hlen fs h).symm ▸ htwo⟩
  have hshort : ∀ fields ∈ records.map (List.map Utf8.encode), fields.length ≤ header.length := by
    intro fields h
    obtain ⟨fs, hmem, rfl⟩ := List.mem_map.mp h
    rw [List.length_map, hlen fs hmem]
  have hlines : (header :: records).map (fun fs => Line.record (fs.map Utf8.encode)) =
      .record (header.map Utf8.encode) :: (records.map (List.map Utf8.encode)).map .record := by
    rw [List.map_cons, List.map_map]
    rfl
  have hwidth : max header.length (firstWidth ((records.map (List.map Utf8.encode)).map .record)) = header.length :=
    Nat.max_eq_left (firstWidth_le hshort)
  rw [Table.read?, dropMark_of_ne hmark, lines_write hfs hwide, hlines]
  simp only [tableFrom, hwidth, textsOf_map_encode, records_map_record hshort, bind, Except.bind, transpose_map_encode,
    columnsOf_map_encode, columnNames_eq_self hnodup hnamed, List.length_map, Nat.sub_self, List.drop_zero]
  rfl

end InfixCalculator.Csv
