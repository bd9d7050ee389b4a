import InfixCalculator.Proofs.Escapes
import InfixCalculator.Proofs.Rows
import InfixCalculator.Proofs.Templates
import InfixCalculator.Proofs.WrittenNumbers

/-!
# Dumps can be decoded

- `readValue?_word`, `readValue?_integerText`, `readValue?_printReal`: words and numbers are read back from their
  writing;
- `readValue?_printChars`: a value is read back from its writing, whatever part of another value follows;
- `read?_print`: reading undoes writing;
- `plain_printChars`: a value in writing is printable ASCII;
- `Calculation.read_dump`: what is read from the dump of a calculation is all that the calculation knows.
-/

namespace InfixCalculator.Json

open Number

variable {c : Char} {cs rest rest' : List Char} {fuel : Nat} {j : Json} {js : List Json} {k : String}
  {m : String × Json} {ms : List (String × Json)}

/-! ## Blanks -/

/-- A blank between two parts of a value. -/
def isGap (c : Char) : Bool :=
  c = ' ' || c = '\n' || c = '\t' || c = '\r'

theorem skipBlanks_cons (h : isGap c = false) (cs : List Char) : skipBlanks (c :: cs) = c :: cs :=
  List.dropWhile_cons_of_neg (by rw [← isGap, h]; exact Bool.false_ne_true)

theorem readValue?_skipBlanks (fuel : Nat) (cs : List Char) : readValue? fuel (skipBlanks cs) = readValue? fuel cs := by
  have htwice : skipBlanks (skipBlanks cs) = skipBlanks cs := List.dropWhile_idempotent _ cs
  cases fuel with
  | zero => rfl
  | succ fuel => rw [readValue?, readValue?, htwice]

theorem readValue?_space (fuel : Nat) (cs : List Char) : readValue? fuel (' ' :: cs) = readValue? fuel cs := by
  cases fuel <;> rfl

theorem readMember?_space (fuel : Nat) (cs : List Char) : readMember? fuel (' ' :: cs) = readMember? fuel cs := by
  cases fuel <;> rfl

/-! ## Parts of a value -/

theorem readValue?_text (fuel : Nat) (s : String) (rest : List Char) :
    readValue? (fuel + 1) (printText s ++ rest) = some (text s, rest) := by
  rw [printText_append]
  show Option.bind (readText? none _) _ = _
  rw [readText?_flatMap]
  exact congrArg (fun s => some (text s, rest)) String.ofList_toList

theorem readValue?_array_nil (fuel : Nat) (rest : List Char) :
    readValue? (fuel + 1) ('[' :: ']' :: rest) = some (array [], rest) :=
  rfl

/-- No value begins with the bracket that closes an array. -/
theorem readValue?_bracket (fuel : Nat) (rest : List Char) : readValue? fuel (']' :: rest) = none := by
  cases fuel <;> rfl

theorem readValue?_array_cons (hj : readValue? fuel cs = some (j, rest))
    (hjs : readItems? fuel rest = some (js, rest')) :
    readValue? (fuel + 1) ('[' :: cs) = some (array (j :: js), rest') := by
  rw [← readValue?_skipBlanks] at hj
  rw [readValue?, skipBlanks_cons (by decide)]
  simp only [Option.bind_eq_bind]
  split
  case h_1 heq =>
    rw [heq, readValue?_bracket] at hj
    cases hj
  case h_2 =>
    simp only [hj, Option.bind_some, hjs]
    rfl

theorem readItems?_nil (fuel : Nat) (rest : List Char) : readItems? (fuel + 1) (']' :: rest) = some ([], rest) :=
  rfl

theorem readItems?_cons (hj : readValue? fuel cs = some (j, rest)) (hjs : readItems? fuel rest = some (js, rest')) :
    readItems? (fuel + 1) (',' :: ' ' :: cs) = some (j :: js, rest') := by
  show Option.bind (readValue? fuel (' ' :: cs)) _ = _
  rw [readValue?_space, hj]
  show Option.bind (readItems? fuel rest) _ = _
  rw [hjs]
  rfl

theorem readMember?_printText (k : String) (hj : readValue? fuel cs = some (j, rest)) :
    readMember? (fuel + 1) (printText k ++ ':' :: ' ' :: cs) = some ((k, j), rest) := by
  rw [printText_append]
  show Option.bind (readText? none _) _ = _
  rw [readText?_flatMap]
  show Option.bind (readValue? fuel (' ' :: cs)) _ = _
  rw [readValue?_space, hj]
  exact congrArg (fun k => some ((k, j), rest)) String.ofList_toList

theorem readValue?_object_nil (fuel : Nat) (rest : List Char) :
    readValue? (fuel + 1) ('\x7b' :: '\x7d' :: rest) = some (object [], rest) :=
  rfl

theorem readValue?_object_cons (hm : readMember? fuel (printText k ++ cs) = some (m, rest))
    (hms : readMembers? fuel rest = some (ms, rest')) :
    readValue? (fuel + 1) ('\x7b' :: (printText k ++ cs)) = some (object (m :: ms), rest') := by
  rw [printText_append] at hm ⊢
  show Option.bind (readMember? fuel ('\x22' :: _)) _ = _
  rw [hm]
  show Option.bind (readMembers? fuel rest) _ = _
  rw [hms]
  rfl

theorem readMembers?_nil (fuel : Nat) (rest : List Char) :
    readMembers? (fuel + 1) ('\x7d' :: rest) = some ([], rest) :=
  rfl

theorem readMembers?_cons (hm : readMember? fuel cs = some (m, rest))
    (hms : readMembers? fuel rest = some (ms, rest')) :
    readMembers? (fuel + 1) (',' :: ' ' :: cs) = some (m :: ms, rest') := by
  show Option.bind (readMember? fuel (' ' :: cs)) _ = _
  rw [readMember?_space, hm]
  show Option.bind (readMembers? fuel rest) _ = _
  rw [hms]
  rfl

/-! ## Words and numbers -/

/-- A value that begins with no bracket, brace or mark has no parts. -/
theorem readValue?_atom (hc : isGap c = false) (hmark : c ≠ '\x22') (hbracket : c ≠ '[') (hbrace : c ≠ '\x7b')
    (fuel : Nat) (cs : List Char) : readValue? (fuel + 1) (c :: cs) = readAtom? (c :: cs) := by
  rw [readValue?, skipBlanks_cons hc]
  split
  case h_1 heq => exact absurd (List.cons.inj heq).1 hmark
  case h_2 heq => exact absurd (List.cons.inj heq).1 hbracket
  case h_3 heq => exact absurd (List.cons.inj heq).1 hbrace
  case h_4 => rfl

/-- A word is read as its value, whatever follows. -/
theorem readValue?_word {w : List Char} (h : (w, j) ∈ words) (fuel : Nat) (rest : List Char) :
    readValue? (fuel + 1) (w ++ rest) = some (j, rest) := by
  simp only [words, List.mem_cons, List.not_mem_nil, or_false, Prod.mk.injEq] at h
  rcases h with ⟨rfl, rfl⟩ | ⟨rfl, rfl⟩ | ⟨rfl, rfl⟩ | ⟨rfl, rfl⟩ | ⟨rfl, rfl⟩ | ⟨rfl, rfl⟩ <;> rfl

/-- No number character comes next. -/
def EndsNumber (rest : List Char) : Prop :=
  ∀ c ∈ rest.head?, isNumberChar c = false

theorem find?_words_signedText (negative : Bool) (hc : isDigit c = true) (cs : List Char) :
    words.find? (fun w => w.1.isPrefixOf (signedText negative (c :: cs))) = none := by
  have hn := ne_of_isDigit hc (d := 'n') (by decide)
  have ht := ne_of_isDigit hc (d := 't') (by decide)
  have hf := ne_of_isDigit hc (d := 'f') (by decide)
  have hN := ne_of_isDigit hc (d := 'N') (by decide)
  have hI := ne_of_isDigit hc (d := 'I') (by decide)
  have hsign := ne_of_isDigit hc (d := '-') (by decide)
  cases negative <;> simp [words, signedText, hn.symm, ht.symm, hf.symm, hN.symm, hI.symm, hsign.symm]

theorem integer?_signedText (negative : Bool) (hc : isDigit c = true) (cs : List Char) :
    integer? (signedText negative (c :: cs)) = if cs.all isDigit then
      some (if negative then -(digitsValue (c :: cs) : Int) else digitsValue (c :: cs)) else none := by
  cases negative with
  | true => simp [signedText, integer?, hc]
  | false =>
    have hsign := ne_of_isDigit hc (d := '-') (by decide)
    simp only [signedText, Bool.false_eq_true, if_false]
    rw [integer?.eq_def]
    split
    case h_1 heq => exact absurd (List.cons.inj heq).1 hsign
    case h_2 => simp [hc]

/-- A number that is read from its characters is read where no more of them follow. -/
theorem readValue?_signedText (negative : Bool) (hc : isDigit c = true) (hcs : NumberText cs)
    (hj : number? (signedText negative (c :: cs)) = some j) (hrest : EndsNumber rest) (fuel : Nat) :
    readValue? (fuel + 1) (signedText negative (c :: cs) ++ rest) = some (j, rest) := by
  have hnumber : ∀ d ∈ signedText negative (c :: cs), isNumberChar d = true := by
    have hsize : NumberText (c :: cs) := .cons (isNumberChar_of_isDigit hc) hcs
    cases negative with
    | true => exact NumberText.cons (by decide) hsize
    | false => exact hsize
  have happend : signedText negative (c :: cs) ++ rest = signedText negative (c :: (cs ++ rest)) := by
    cases negative <;> rfl
  obtain ⟨htake, hdrop⟩ := takeWhile_class hnumber hrest
  have hatom : readAtom? (signedText negative (c :: cs) ++ rest) = some (j, rest) := by
    rw [readAtom?, htake, hdrop, happend, find?_words_signedText negative hc]
    simp only [hj]
    rfl
  have hne : ∀ d, isDigit d = false → c ≠ d := fun d => ne_of_isDigit hc
  have hgap : isGap c = false := by
    simp [isGap, hne ' ' (by decide), hne '\n' (by decide), hne '\t' (by decide), hne '\r' (by decide)]
  rw [← hatom]
  cases negative with
  | true => exact readValue?_atom (by decide) (by decide) (by decide) (by decide) fuel _
  | false => exact readValue?_atom hgap (hne _ (by decide)) (hne _ (by decide)) (hne _ (by decide)) fuel _

theorem integerText_eq (n : Int) : integerText n = signedText (n < 0) (digitsOf n.natAbs) := by
  simp [integerText, signedText]

theorem readValue?_integerText (n : Int) (hrest : EndsNumber rest) (fuel : Nat) :
    readValue? (fuel + 1) (integerText n ++ rest) = some (integer n, rest) := by
  have hdigits : ∀ c ∈ digitsOf n.natAbs, isDigit c = true := fun _ => isDigit_of_mem_digitsOf
  obtain ⟨c, cs, hcs⟩ : ∃ c cs, digitsOf n.natAbs = c :: cs := List.exists_cons_of_ne_nil Nat.toDigits_ne_nil
  have hvalue := digitsValue_digitsOf n.natAbs
  rw [integerText_eq]
  rw [hcs] at hdigits hvalue ⊢
  obtain ⟨hc, hall⟩ := List.forall_mem_cons.mp hdigits
  refine readValue?_signedText _ hc (numberText_of_digits hall) ?_ hrest fuel
  rw [number?, integer?_signedText _ hc, if_pos (List.all_eq_true.mpr hall), hvalue]
  refine congrArg (fun n => some (integer n)) ?_
  simp only [decide_eq_true_eq]
  omega

/-- A finite double is no whole number in writing. -/
theorem readValue?_written {x : Float} (hnan : x.isNaN = false) (hinf : x.isInf = false) (hrest : EndsNumber rest)
    (fuel : Nat) : readValue? (fuel + 1) ((written x).toList ++ rest) = some (real x, rest) := by
  obtain ⟨c, cs, hcs, hc, m, hm, hmark⟩ := exists_writtenSize_eq_cons x
  have htext : (written x).toList = signedText (isNegative x) (c :: cs) := by
    rw [written_of_finite hnan hinf, String.toList_ofList, hcs]
  have hnumber : NumberText cs := by
    have hsize := numberText_writtenSize x
    rw [hcs] at hsize
    exact hsize.of_subset (List.subset_cons_self c cs)
  have hall : ¬cs.all isDigit = true := fun hall => ne_of_isDigit (List.all_eq_true.mp hall m hm) hmark rfl
  rw [htext]
  refine readValue?_signedText _ hc hnumber ?_ hrest fuel
  rw [number?, integer?_signedText _ hc, if_neg hall, ← htext, String.ofList_toList, readWritten?_written]
  rfl

theorem readValue?_printReal (x : Float) (hrest : EndsNumber rest) (fuel : Nat) :
    readValue? (fuel + 1) (printReal x ++ rest) = some (real x, rest) := by
  unfold printReal
  split
  case isTrue hnan =>
    rw [eq_notANumber hnan]
    exact readValue?_word (by simp [words]) fuel rest
  case isFalse hnan =>
    split
    case isTrue hinf =>
      rw [eq_of_isInf hinf, isNegative_ofSignBits _ (Nat.le_refl _)]
      cases isNegative x with
      | true =>
        rw [if_pos rfl, ← negate_ofSignBits (Nat.le_refl _)]
        exact readValue?_word (by simp [words, infinity]) fuel rest
      | false =>
        rw [if_neg Bool.false_ne_true]
        exact readValue?_word (by simp [words, infinity]) fuel rest
    case isFalse hinf => exact readValue?_written (eq_false_of_ne_true hnan) (eq_false_of_ne_true hinf) hrest fuel

/-! ## Values -/

theorem endsNumber_printItems (js : List Json) (rest : List Char) : EndsNumber (printItems js ++ rest) := by
  intro c hc
  cases js <;> (rw [← Option.some.inj hc]; decide)

theorem endsNumber_printMembers (ms : List (String × Json)) (rest : List Char) :
    EndsNumber (printMembers ms ++ rest) := by
  intro c hc
  cases ms <;> (rw [← Option.some.inj hc]; decide)

mutual

/-- A value is read back from its writing, whatever part of another value follows. -/
theorem readValue?_printChars : ∀ (j : Json) (fuel : Nat) (rest : List Char), 2 * (printChars j).length < fuel →
    EndsNumber rest → readValue? fuel (printChars j ++ rest) = some (j, rest)
  | _, 0, _, hfuel, _ => absurd hfuel (Nat.not_lt_zero _)
  | null, fuel + 1, rest, _, _ => readValue?_word (by simp [printChars, words]) fuel rest
  | bool true, fuel + 1, rest, _, _ => readValue?_word (by simp [printChars, words]) fuel rest
  | bool false, fuel + 1, rest, _, _ => readValue?_word (by simp [printChars, words]) fuel rest
  | integer n, fuel + 1, _, _, hrest => readValue?_integerText n hrest fuel
  | real x, fuel + 1, _, _, hrest => readValue?_printReal x hrest fuel
  | text s, fuel + 1, rest, _, _ => readValue?_text fuel s rest
  | array [], fuel + 1, rest, _, _ => readValue?_array_nil fuel rest
  | array (j :: js), fuel + 1, rest, hfuel, _ => by
    rw [printChars, List.length_cons, List.length_append] at hfuel
    rw [printChars, List.cons_append, List.append_assoc]
    have hj := readValue?_printChars j fuel (printItems js ++ rest) (by omega) (endsNumber_printItems js rest)
    have hjs := readItems?_printItems js fuel rest (by omega)
    exact readValue?_array_cons hj hjs
  | object [], fuel + 1, rest, _, _ => readValue?_object_nil fuel rest
  | object ((k, j) :: ms), fuel + 1, rest, hfuel, _ => by
    rw [printChars, List.length_cons, List.length_append, List.length_cons, List.length_cons, List.length_append]
      at hfuel
    simp only [printChars, List.cons_append, List.append_assoc]
    -- a member takes a step of its own, for which the characters of its key leave room
    obtain ⟨fuel, rfl⟩ : ∃ f, fuel = f + 1 := ⟨fuel - 1, by omega⟩
    have hj := readValue?_printChars j fuel (printMembers ms ++ rest) (by omega) (endsNumber_printMembers ms rest)
    have hms := readMembers?_printMembers ms (fuel + 1) rest (by omega)
    exact readValue?_object_cons (readMember?_printText k hj) hms

theorem readItems?_printItems : ∀ (js : List Json) (fuel : Nat) (rest : List Char),
    2 * (printItems js).length < fuel → readItems? fuel (printItems js ++ rest) = some (js, rest)
  | _, 0, _, hfuel => absurd hfuel (Nat.not_lt_zero _)
  | [], fuel + 1, rest, _ => readItems?_nil fuel rest
  | j :: js, fuel + 1, rest, hfuel => by
    rw [printItems, List.length_cons, List.length_cons, List.length_append] at hfuel
    rw [printItems, List.cons_append, List.cons_append, List.append_assoc]
    have hj := readValue?_printChars j fuel (printItems js ++ rest) (by omega) (endsNumber_printItems js rest)
    have hjs := readItems?_printItems js fuel rest (by omega)
    exact readItems?_cons hj hjs

theorem readMembers?_printMembers : ∀ (ms : List (String × Json)) (fuel : Nat) (rest : List Char),
    2 * (printMembers ms).length < fuel → readMembers? fuel (printMembers ms ++ rest) = some (ms, rest)
  | _, 0, _, hfuel => absurd hfuel (Nat.not_lt_zero _)
  | [], fuel + 1, rest, _ => readMembers?_nil fuel rest
  | (k, j) :: ms, fuel + 1, rest, hfuel => by
    rw [printMembers, List.length_cons, List.length_cons, List.length_append, List.length_cons, List.length_cons,
      List.length_append] at hfuel
    simp only [printMembers, List.cons_append, List.append_assoc]
    obtain ⟨fuel, rfl⟩ : ∃ f, fuel = f + 1 := ⟨fuel - 1, by omega⟩
    have hj := readValue?_printChars j fuel (printMembers ms ++ rest) (by omega) (endsNumber_printMembers ms rest)
    have hms := readMembers?_printMembers ms (fuel + 1) rest (by omega)
    exact readMembers?_cons (readMember?_printText k hj) hms

end

/-- Reading undoes writing. -/
theorem read?_print (j : Json) : read? (print j) = some j := by
  have hread := readValue?_printChars j (2 * j.printChars.length + 2) [] (by omega) fun c hc => absurd hc (by simp)
  rw [List.append_nil] at hread
  rw [read?, print, String.toList_ofList, hread]
  rfl

/-! ## Printable ASCII -/

theorem isPlain_of_isNumberChar (h : isNumberChar c = true) : isPlain c = true := by
  simp only [isNumberChar, Bool.or_eq_true, decide_eq_true_eq] at h
  rcases h with ((((h | rfl) | rfl) | rfl) | rfl) | rfl
  · have hrange := Literal.toNat_of_isDigit h
    rw [isPlain, Bool.and_eq_true, decide_eq_true_eq, decide_eq_true_eq]
    omega
  all_goals decide

theorem plain_integerText (n : Int) : ∀ c ∈ integerText n, isPlain c = true := by
  have hdigits : ∀ c ∈ digitsOf n.natAbs, isPlain c = true := fun _ hc =>
    isPlain_of_isNumberChar (numberText_digitsOf _ _ hc)
  unfold integerText
  split
  · exact List.forall_mem_cons.mpr ⟨by decide, hdigits⟩
  · exact hdigits

theorem plain_printReal (x : Float) : ∀ c ∈ printReal x, isPlain c = true := by
  unfold printReal
  split_ifs
  · exact List.all_eq_true.mp (by decide)
  · exact List.all_eq_true.mp (by decide)
  · exact List.all_eq_true.mp (by decide)
  · intro c hc
    rcases mem_written hc with h | h
    · exact isPlain_of_isNumberChar h
    · exact List.all_eq_true.mp (show wordLetters.all isPlain = true by decide) c h

mutual

/-- A value in writing is printable ASCII. -/
theorem plain_printChars : ∀ (j : Json), ∀ c ∈ printChars j, isPlain c = true
  | null => List.all_eq_true.mp (by decide)
  | bool true => List.all_eq_true.mp (by decide)
  | bool false => List.all_eq_true.mp (by decide)
  | integer n => plain_integerText n
  | real x => plain_printReal x
  | text s => plain_printText s
  | array [] => List.all_eq_true.mp (by decide)
  | array (j :: js) =>
    List.forall_mem_cons.mpr ⟨by decide, List.forall_mem_append.mpr ⟨plain_printChars j, plain_printItems js⟩⟩
  | object [] => List.all_eq_true.mp (by decide)
  | object ((k, j) :: ms) =>
    have hvalue := List.forall_mem_append.mpr ⟨plain_printChars j, plain_printMembers ms⟩
    List.forall_mem_cons.mpr ⟨by decide, List.forall_mem_append.mpr
      ⟨plain_printText k, List.forall_mem_cons.mpr ⟨by decide, List.forall_mem_cons.mpr ⟨by decide, hvalue⟩⟩⟩⟩

theorem plain_printItems : ∀ (js : List Json), ∀ c ∈ printItems js, isPlain c = true
  | [] => List.all_eq_true.mp (by decide)
  | j :: js =>
    have hvalue := List.forall_mem_append.mpr ⟨plain_printChars j, plain_printItems js⟩
    List.forall_mem_cons.mpr ⟨by decide, List.forall_mem_cons.mpr ⟨by decide, hvalue⟩⟩

theorem plain_printMembers : ∀ (ms : List (String × Json)), ∀ c ∈ printMembers ms, isPlain c = true
  | [] => List.all_eq_true.mp (by decide)
  | (k, j) :: ms =>
    have hvalue := List.forall_mem_append.mpr ⟨plain_printChars j, plain_printMembers ms⟩
    have hmember := List.forall_mem_append.mpr
      ⟨plain_printText k, List.forall_mem_cons.mpr ⟨by decide, List.forall_mem_cons.mpr ⟨by decide, hvalue⟩⟩⟩
    List.forall_mem_cons.mpr ⟨by decide, List.forall_mem_cons.mpr ⟨by decide, hmember⟩⟩

end

end InfixCalculator.Json

namespace InfixCalculator.Calculation

variable {settings : Settings} {options : Options} {e : String} {c : Calculation}

/-! ## Calculations -/

/-- **Dumps can be decoded.** The dump of a calculation is printable ASCII, and what is read from it is all that the
calculation knows: the display, the texts of its tokens in both orders, the result, and the replaced words. -/
theorem read_dump (hsettings : settings.Fills) (h : ofExpression options e = .ok c) :
    ∃ display dump, c.display settings = .ok display ∧ c.dump settings = .ok dump ∧
      (∀ ch ∈ dump.toList, 0x20 ≤ ch.toNat ∧ ch.toNat ≤ 0x7E) ∧
      Json.read? dump = some (.object [
        ("Original Expression", .text display),
        ("Tokenized Expression", .array ((tokenize e).map fun t => .text t.text)),
        ("Reverse Polish Notation", .array (c.rpn.tokens.map fun t => .text t.text)),
        ("Final Result", .real c.result),
        ("Errors", .array (c.diagnostics.map fun d => .object [
          ("token", .text d.token), ("position", .ofNat? d.position), ("message", .text d.message)]))]) := by
  obtain ⟨display, hdisplay⟩ := exists_display hsettings c
  have hjson : c.toJson settings = .ok (.object [("Original Expression", .text display),
      ("Tokenized Expression", textsJson c.tokenTexts), ("Reverse Polish Notation", textsJson c.rpnTexts),
      ("Final Result", .real c.result), ("Errors", .array (c.diagnostics.map diagnosticJson))]) := by
    rw [toJson, hdisplay]
    rfl
  have htexts : ∀ ts : List Token, textsJson (texts ts) = .array (ts.map fun t => .text t.text) := fun ts =>
    congrArg Json.array List.map_map
  refine ⟨display, _, hdisplay, by rw [dump, hjson]; rfl, fun ch hch => ?_, ?_⟩
  · rw [Json.print, String.toList_ofList] at hch
    have hplain := Json.plain_printChars _ ch hch
    rwa [Json.isPlain, Bool.and_eq_true, decide_eq_true_eq, decide_eq_true_eq] at hplain
  · rw [Json.read?_print, tokenTexts, rpnTexts, htexts, htexts, (source h).2.1]
    rfl

/-- A word with a mark, a backslash, a control character, the deletion character and characters of both sizes beyond
ASCII, times infinity. -/
def strangeProduct : String :=
  "\"\\\x01\x7fé😀 * (1 / 0)"

theorem read_dump_strangeProduct :
    ∃ c display dump, ofExpression (Settings.standard.options none none) strangeProduct = .ok c ∧
      c.display Settings.standard = .ok display ∧ c.dump Settings.standard = .ok dump ∧
      (∀ ch ∈ dump.toList, 0x20 ≤ ch.toNat ∧ ch.toNat ≤ 0x7E) ∧
      Json.read? dump = some (.object [
        ("Original Expression", .text display),
        ("Tokenized Expression", .array [.text "\"\\\x01\x7fé😀", .text "*", .text "(", .text "1", .text "/",
          .text "0", .text ")"]),
        ("Reverse Polish Notation", .array [.text "0", .text "1", .text "0", .text "/", .text "*"]),
        ("Final Result", .real Number.notANumber),
        ("Errors", .array [.object [("token", .text "\"\\\x01\x7fé😀"), ("position", .integer 0),
          ("message", .text "Cannot parse operand '\"\\\x01\x7fé😀' at position 0")]])]) := by
  obtain ⟨c, hc, hparts⟩ : ∃ c, ofExpression (Settings.standard.options none none) strangeProduct = .ok c ∧
      (c.rpnTexts, c.diagnostics, c.result.isNaN) =
        (["0", "1", "0", "/", "*"], [⟨"\"\\\x01\x7fé😀", some 0⟩], true) := by
    apply exists_ok_of_map
    decide +kernel
  obtain ⟨hrpn, hdiagnostics, hnan⟩ : c.rpnTexts = _ ∧ c.diagnostics = _ ∧ c.result.isNaN = _ := by
    simpa only [Prod.mk.injEq] using hparts
  obtain ⟨display, dump, hdisplay, hdump, hplain, hread⟩ := read_dump Settings.standard_fills hc
  refine ⟨c, display, dump, hc, hdisplay, hdump, hplain, ?_⟩
  have htokens : (tokenize strangeProduct).map Token.text = ["\"\\\x01\x7fé😀", "*", "(", "1", "/", "0", ")"] := by
    decide +kernel
  have htexts : ∀ ts : List Token, (ts.map fun t => Json.text t.text) = (ts.map Token.text).map Json.text := fun ts =>
    List.map_map.symm
  rw [hread, htexts, htexts, htokens, show c.rpn.tokens.map Token.text = _ from hrpn, hdiagnostics,
    Number.eq_notANumber hnan]
  rfl

end InfixCalculator.Calculation
