import InfixCalculator.Proofs.Templates

/-!
# The texts that are read as parts

`Template.Spells cs parts`: the text spells the parts; every brace in it is doubled or belongs to a field for the
expression. Every such text is read as its parts, and `Template.read_iff_spells` says that no other text is. For that the
reader is followed through a field:

- `Astray place`: the reader is in a field that is not going to be one for the expression as it is; it stays so to the
  end of the field (`readFrom_astray`);
- `exists_field`, `exists_closing`: what else can stand in a field;
- `StartsWithPart cs parts`: the first part of a text, with a shorter text after it.
-/

namespace InfixCalculator

namespace Template

open BraceFormat

/-- A text that parts are spelled as. A field may have a mark for its layout with no layout after it. -/
inductive Spells : List Char → List Part → Prop
  | nil : Spells [] []
  | part (part : Part) {cs : List Char} {parts : List Part} (h : Spells cs parts) :
      Spells (part.spelled ++ cs) (part :: parts)
  | emptyLayout {cs : List Char} {parts : List Part} (h : Spells cs parts) :
      Spells (opening :: (fieldName ++ ':' :: closing :: cs)) (.expression :: parts)

/-! ## Reading -/

variable {cs : List Char} {parts : List Part}

theorem broken_ne_map (e : BraceFormat.Fault) (pieces : List Piece) : .broken e :: pieces ≠ parts.map Part.piece := by
  intro h
  obtain ⟨part, -, -, hpart, -⟩ := List.map_eq_cons_iff.mp h.symm
  cases part <;> cases hpart

theorem field_eq_map {name spec : List Char} {conversion : Option Char} {pieces : List Piece}
    (h : .field name conversion spec :: pieces = parts.map Part.piece) :
    ∃ rest, parts = .expression :: rest ∧ name = fieldName ∧ conversion = none ∧ spec = [] ∧
      pieces = rest.map Part.piece := by
  obtain ⟨part, rest, rfl, hpart, hrest⟩ := List.map_eq_cons_iff.mp h.symm
  cases part with
  | char c => cases hpart
  | expression =>
    obtain ⟨hname, hconversion, hspec⟩ := Piece.field.inj hpart
    exact ⟨rest, rfl, hname.symm, hconversion.symm, hspec.symm, hrest.symm⟩

/-- The reader is in a field that is not going to be one for the expression as it is. -/
def Astray : Place → Prop
  | .name r | .bracket r => '[' ∈ r
  | .mark _ | .converted _ _ => True
  | .spec n letter _ r => '[' ∈ n ∨ letter ≠ none ∨ r ≠ []
  | _ => False

/-- After a character the reader is still astray, or a piece has been read that is no part. -/
def StaysAstray (next : Place × List Piece) : Prop :=
  (next.2 = [] ∧ Astray next.1) ∨ ∃ piece, next = (.outside, [piece]) ∧ ∀ part : Part, part.piece ≠ piece

theorem staysAstray_broken (e : BraceFormat.Fault) : StaysAstray (.outside, [.broken e]) := by
  refine Or.inr ⟨_, rfl, ?_⟩
  rintro (_ | _) he <;> cases he

theorem staysAstray_closeField {n r : List Char} {letter : Option Char} (h : '[' ∈ n ∨ letter ≠ none ∨ r ≠ []) :
    StaysAstray (.outside, [closeField n letter r]) := by
  refine Or.inr ⟨_, rfl, ?_⟩
  rintro (_ | _) he
  · cases he
  · obtain ⟨hname, hletter, hspec⟩ := Piece.field.inj he
    rcases h with hm | hl | hr
    · rw [← List.mem_reverse, ← hname] at hm
      exact absurd hm (by decide)
    · exact hl hletter.symm
    · exact hr (List.reverse_eq_nil_iff.mp hspec.symm)

theorem stepName_astray {r : List Char} (h : '[' ∈ r) (c : Char) : StaysAstray (stepName r c) := by
  have hmore : '[' ∈ c :: r := List.mem_cons_of_mem c h
  rw [stepName]
  split
  · exact staysAstray_broken _
  split
  · exact staysAstray_closeField (Or.inl h)
  split
  · exact Or.inl ⟨rfl, hmore⟩
  split
  · exact Or.inl ⟨rfl, Or.inl h⟩
  split
  · exact Or.inl ⟨rfl, trivial⟩
  · exact Or.inl ⟨rfl, hmore⟩

theorem stepSpec_astray {n r : List Char} {letter : Option Char} (h : '[' ∈ n ∨ letter ≠ none ∨ r ≠ [])
    (depth : Nat) (c : Char) : StaysAstray (stepSpec n letter depth r c) := by
  have hmore : ∀ d, Astray (.spec n letter d (c :: r)) := fun d => Or.inr (Or.inr (List.cons_ne_nil c r))
  unfold stepSpec
  split
  · exact Or.inl ⟨rfl, hmore _⟩
  split
  · cases depth with
    | zero => exact staysAstray_closeField h
    | succ depth => exact Or.inl ⟨rfl, hmore _⟩
  · exact Or.inl ⟨rfl, hmore _⟩

/-- A field that goes astray does so to its end. -/
theorem step_astray {place : Place} (h : Astray place) (c : Char) : StaysAstray (step place c) := by
  cases place with
  | outside | opened | closed => exact h.elim
  | name r => exact stepName_astray h c
  | bracket r =>
    refine Or.inl ⟨rfl, ?_⟩
    rw [step]
    split <;> exact List.mem_cons_of_mem c h
  | mark n => exact Or.inl ⟨rfl, trivial⟩
  | converted n letter =>
    rw [step]
    split
    · exact staysAstray_closeField (Or.inr (Or.inl (Option.some_ne_none letter)))
    split
    · exact Or.inl ⟨rfl, Or.inr (Or.inl (Option.some_ne_none letter))⟩
    · exact staysAstray_broken _
  | spec n letter depth r => exact stepSpec_astray h depth c

theorem readFrom_astray {place : Place} (h : Astray place) (cs : List Char) (parts : List Part) :
    readFrom place cs ≠ parts.map Part.piece := by
  induction cs generalizing place with
  | nil =>
    cases place with
    | outside | opened | closed => exact h.elim
    | name _ | bracket _ | mark _ | converted _ _ | spec _ _ _ _ => exact broken_ne_map _ _
  | cons c cs ih =>
    show (step place c).2 ++ readFrom (step place c).1 cs ≠ _
    rcases step_astray h c with ⟨hpieces, hnext⟩ | ⟨piece, hstep, hpiece⟩
    · rw [hpieces]
      exact ih hnext
    · rw [hstep]
      intro he
      obtain ⟨part, -, -, hpart, -⟩ := List.map_eq_cons_iff.mp he.symm
      exact hpiece part hpart

/-- After the mark for the layout of a field for the expression as it is, the field ends. -/
theorem exists_closing {n : List Char} (h : readFrom (.spec n none 0 []) cs = parts.map Part.piece) :
    ∃ tail rest, cs = closing :: tail ∧ fieldName = n.reverse ∧ parts = .expression :: rest ∧
      readFrom .outside tail = rest.map Part.piece := by
  cases cs with
  | nil => exact absurd h (broken_ne_map _ _)
  | cons c cs =>
    by_cases hc : c = closing
    · subst hc
      obtain ⟨rest, rfl, hname, -, -, hrest⟩ := field_eq_map h
      exact ⟨cs, rest, rfl, hname.symm, rfl, hrest⟩
    · have hnext : ∃ depth, step (.spec n none 0 []) c = (.spec n none depth [c], []) := by
        by_cases ho : c = opening
        · exact ⟨1, by simp [step, stepSpec, ho]⟩
        · exact ⟨0, by simp [step, stepSpec, ho, hc]⟩
      obtain ⟨depth, hstep⟩ := hnext
      rw [readFrom, hstep] at h
      have hastray : Astray (.spec n none depth [c]) := Or.inr (Or.inr (List.cons_ne_nil c []))
      exact absurd h (readFrom_astray hastray cs parts)

/-- A field that is one for the expression as it is goes on with the rest of its name, and perhaps the mark for a layout
with no layout after it. -/
theorem exists_field {r : List Char} (h : readFrom (.name r) cs = parts.map Part.piece) :
    ∃ front tail rest, fieldName = r.reverse ++ front ∧
      (cs = front ++ closing :: tail ∨ cs = front ++ ':' :: closing :: tail) ∧ parts = .expression :: rest ∧
      readFrom .outside tail = rest.map Part.piece := by
  induction cs generalizing r with
  | nil => exact absurd h (broken_ne_map _ _)
  | cons c cs ih =>
    rw [readFrom, step, stepName] at h
    by_cases ho : c = opening
    · rw [if_pos ho] at h
      exact absurd h (broken_ne_map _ _)
    by_cases hc : c = closing
    · rw [if_neg ho, if_pos hc] at h
      obtain ⟨rest, rfl, hname, -, -, hrest⟩ := field_eq_map h
      exact ⟨[], cs, rest, by simpa using hname.symm, Or.inl (by rw [hc]; rfl), rfl, hrest⟩
    by_cases hb : c = '['
    · rw [if_neg ho, if_neg hc, if_pos hb] at h
      have hastray : Astray (.bracket (c :: r)) := hb ▸ List.mem_cons_self
      exact absurd h (readFrom_astray hastray cs parts)
    by_cases hl : c = ':'
    · rw [if_neg ho, if_neg hc, if_neg hb, if_pos hl] at h
      obtain ⟨tail, rest, rfl, hname, hparts, hrest⟩ := exists_closing h
      exact ⟨[], tail, rest, by simpa using hname, Or.inr (by rw [hl]; rfl), hparts, hrest⟩
    by_cases hm : c = '!'
    · rw [if_neg ho, if_neg hc, if_neg hb, if_neg hl, if_pos hm] at h
      have hastray : Astray (.mark r) := trivial
      exact absurd h (readFrom_astray hastray cs parts)
    · rw [if_neg ho, if_neg hc, if_neg hb, if_neg hl, if_neg hm] at h
      obtain ⟨front, tail, rest, hname, hcs, hparts, hrest⟩ := ih h
      refine ⟨c :: front, tail, rest, by simpa using hname, ?_, hparts, hrest⟩
      exact hcs.imp (congrArg (c :: ·)) (congrArg (c :: ·))

/-- After the first part of a text there is a shorter text that is read as the other parts. -/
def StartsWithPart (cs : List Char) (parts : List Part) : Prop :=
  ∃ tail rest, tail.length < cs.length ∧ readFrom .outside tail = rest.map Part.piece ∧
    (Spells tail rest → Spells cs parts)

theorem startsWithPart_char {c : Char} {tail : List Char}
    (h : .char c :: readFrom .outside tail = parts.map Part.piece) (hcs : cs = (Part.char c).spelled ++ tail) :
    StartsWithPart cs parts := by
  have hpos : 0 < (Part.char c).spelled.length := by
    rw [Part.spelled]
    split <;> exact Nat.succ_pos _
  have hlt : tail.length < cs.length := by
    rw [hcs, List.length_append]
    omega
  obtain ⟨part, rest, rfl, hpart, hrest⟩ := List.map_eq_cons_iff.mp h.symm
  cases part with
  | expression => cases hpart
  | char d =>
    obtain rfl := Piece.char.inj hpart
    exact ⟨tail, rest, hlt, hrest.symm, fun hs => hcs ▸ .part (.char d) hs⟩

theorem startsWithPart_opened (h : readFrom .opened cs = parts.map Part.piece) :
    StartsWithPart (opening :: cs) parts := by
  cases cs with
  | nil => exact absurd h (broken_ne_map _ _)
  | cons d tail =>
    by_cases hd : d = opening
    · subst hd
      exact startsWithPart_char h rfl
    · have hfield : readFrom (.name []) (d :: tail) = parts.map Part.piece := by
        rw [← h]
        simp [readFrom, step, hd]
      obtain ⟨front, tail', rest, hname, hcs, rfl, hrest⟩ := exists_field hfield
      obtain rfl : fieldName = front := by simpa using hname
      rcases hcs with hcs | hcs <;> rw [hcs]
      · refine ⟨tail', rest, by simp; omega, hrest, fun hs => ?_⟩
        simpa [Part.spelled, requiredField] using Spells.part .expression hs
      · exact ⟨tail', rest, by simp; omega, hrest, .emptyLayout⟩

theorem startsWithPart_closed (h : readFrom .closed cs = parts.map Part.piece) :
    StartsWithPart (closing :: cs) parts := by
  cases cs with
  | nil => exact absurd h (broken_ne_map _ _)
  | cons d tail =>
    by_cases hd : d = closing
    · subst hd
      exact startsWithPart_char h rfl
    · have hbroken : readFrom .closed (d :: tail) = .broken .singleClosing :: readFrom .outside tail := by
        simp [readFrom, step, hd]
      exact absurd (hbroken.symm.trans h) (broken_ne_map _ _)

theorem startsWithPart {c : Char} (h : readFrom .outside (c :: cs) = parts.map Part.piece) :
    StartsWithPart (c :: cs) parts := by
  by_cases ho : c = opening
  · subst ho
    exact startsWithPart_opened h
  by_cases hc : c = closing
  · subst hc
    exact startsWithPart_closed h
  · have hchar : .char c :: readFrom .outside cs = parts.map Part.piece := by
      rw [← h]
      simp [readFrom, step, ho, hc]
    exact startsWithPart_char hchar (by simp [Part.spelled, ho, hc])

/-- **The texts that are read as parts are those that spell them.** -/
theorem read_iff_spells : read cs = parts.map Part.piece ↔ Spells cs parts := by
  constructor
  · intro h
    induction hn : cs.length using Nat.strongRecOn generalizing cs parts with
    | ind n ih =>
      cases cs with
      | nil =>
        obtain rfl := List.map_eq_nil_iff.mp h.symm
        exact .nil
      | cons c cs =>
        obtain ⟨tail, rest, hlt, hrest, hs⟩ := startsWithPart h
        exact hs (ih _ (hn ▸ hlt) hrest rfl)
  · intro h
    induction h with
    | nil => rfl
    | part part _ ih =>
      show readFrom .outside (part.spelled ++ _) = _
      rw [part.readFrom_spelled, List.map_cons]
      exact congrArg (part.piece :: ·) ih
    | emptyLayout _ ih => exact congrArg (Part.expression.piece :: ·) ih

end Template

end InfixCalculator
