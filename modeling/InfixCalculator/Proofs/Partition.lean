import InfixCalculator.Proofs.Segments
import Mathlib.Data.List.Basic

/-!
# The tokens of a text as a partition of it

- `IsRun cs p w`: `w` is a longest word of the text, and it begins at `p`;
- `Lexeme cs t`: the token is that of a delimiter or of a longest word of the text, at its place. Every character but a
  space is in a lexeme (`exists_lexeme`), and in one only (`Lexeme.eq_of_covers`);
- `mem_tokenize_iff`: the tokens of a text are its lexemes;
- `Partition cs ts`: the tokens cut the text into pieces, in order and without a gap other than spaces;
  `tokenize_partition` says that the tokens of a text are the one list that does;
- `tokenize_around`: a text is cut at each delimiter.
-/

namespace InfixCalculator

/-- The kind of the token of a delimiter. There is none for a space, and for other characters. -/
def delimiterKind? : Char → Option TokenKind
  | '(' => some .leftParen
  | ')' => some .rightParen
  | '+' | '-' | '*' | '/' | '%' => some .operator
  | _ => none

/-- The token of a delimiter at a place. -/
def mark (i : Nat) (c : Char) (kind : TokenKind) : Token :=
  { kind := kind, text := String.singleton c, position := some i }

/-- The word is written at the place in the text, and is a longest one: it holds no delimiter, and whatever stands next
to it is one. -/
structure IsRun (cs : List Char) (p : Nat) (w : List Char) : Prop where
  written : cs.extract p (p + w.length) = w
  ne_nil : w ≠ []
  unbroken : ∀ c ∈ w, c ∉ delimiters
  before : ∀ i c, i + 1 = p → cs[i]? = some c → c ∈ delimiters
  after : ∀ c, cs[p + w.length]? = some c → c ∈ delimiters

/-- The tokens of a text: one for each delimiter but the space, and one for each longest word. -/
inductive Lexeme (cs : List Char) : Token → Prop
  | mark {i : Nat} {c : Char} {kind : TokenKind} (hc : cs[i]? = some c) (hk : delimiterKind? c = some kind) :
      Lexeme cs (mark i c kind)
  | word {p : Nat} {w : List Char} (h : IsRun cs p w) : Lexeme cs (classify w (some p))

/-- The character at the place is one of those of the token. -/
def Token.Covers (t : Token) (i : Nat) : Prop :=
  ∃ p, t.position = some p ∧ p ≤ i ∧ i < p + t.text.length

/-- The tokens cut the text into pieces: each of them is written at its position, they come in order and do not overlap,
what none of them covers is a space, each parenthesis and operator character is a token of its own, and every other token
is a longest word. -/
structure Partition (cs : List Char) (ts : List Token) : Prop where
  written : ∀ t ∈ ts, ∃ p, t.position = some p ∧ cs.extract p (p + t.text.length) = t.text.toList
  increasing : ts.Pairwise fun s t => s.position < t.position
  disjoint : ts.Pairwise fun s t => ∀ i, ¬(s.Covers i ∧ t.Covers i)
  spaces : ∀ i c, cs[i]? = some c → (∀ t ∈ ts, ¬t.Covers i) → c = ' '
  marks : ∀ i c kind, cs[i]? = some c → delimiterKind? c = some kind → mark i c kind ∈ ts
  lexemes : ∀ t ∈ ts, Lexeme cs t

variable {cs a b w w' : List Char} {p p' i : Nat} {c : Char} {kind : TokenKind} {s t : Token}

/-! ## Delimiters -/

theorem mem_delimiters_of_kind (h : delimiterKind? c = some kind) : c ∈ delimiters := by
  unfold delimiterKind? at h
  split at h
  all_goals first | cases h; done | decide

theorem exists_kind_of_mem_delimiters (h : c ∈ delimiters) (hs : c ≠ ' ') : ∃ kind, delimiterKind? c = some kind := by
  simp only [delimiters, List.mem_cons, List.not_mem_nil, or_false] at h
  rcases h with rfl | rfl | rfl | rfl | rfl | rfl | rfl | rfl
  · exact absurd rfl hs
  all_goals exact ⟨_, rfl⟩

theorem delimiterTokens_eq (h : c ∈ delimiters) (p : Nat) :
    delimiterTokens p c = (delimiterKind? c).toList.map (mark p c) := by
  simp only [delimiters, List.mem_cons, List.not_mem_nil, or_false] at h
  rcases h with rfl | rfl | rfl | rfl | rfl | rfl | rfl | rfl <;> rfl

theorem unbroken_iff : Unbroken w ↔ ∀ c ∈ w, c ∉ delimiters := by
  refine forall₂_congr fun c _ => ?_
  rw [← isDelimiter_iff, Bool.not_eq_true]

/-! ## Longest words -/

theorem extract_append (a w b : List Char) : (a ++ (w ++ b)).extract a.length (a.length + w.length) = w := by
  simp

/-- A word in a text is a longest one if it stands between delimiters. -/
theorem IsRun.of_append (hne : w ≠ []) (hw : Unbroken w) (ha : ∀ c ∈ a.getLast?, c ∈ delimiters)
    (hb : ∀ c ∈ b.head?, c ∈ delimiters) : IsRun (a ++ (w ++ b)) a.length w where
  written := extract_append a w b
  ne_nil := hne
  unbroken := unbroken_iff.mp hw
  before := by
    intro i c hi hc
    rw [List.getElem?_append_left (by omega)] at hc
    apply ha
    rw [List.getLast?_eq_getElem?, ← hi]
    exact hc
  after := by
    intro c hc
    apply hb
    rw [← List.append_assoc, List.getElem?_append_right (by simp)] at hc
    simpa [List.head?_eq_getElem?] using hc

/-- A longest word stands between two parts of the text from which it is parted. -/
theorem IsRun.exists_append (h : IsRun cs p w) :
    ∃ a b, cs = a ++ (w ++ b) ∧ a.length = p ∧ Unbroken w ∧ Parted a (w ++ b) ∧ Parted w b := by
  have hlt : p < cs.length := by
    apply Nat.lt_of_not_le
    intro hle
    have hw := h.written
    rw [List.extract_eq_take_drop, List.drop_eq_nil_of_le hle, List.take_nil] at hw
    exact h.ne_nil hw.symm
  have hsplit : cs.drop p = w ++ cs.drop (p + w.length) := by
    have hw := h.written
    rw [List.extract_eq_take_drop, Nat.add_sub_cancel_left] at hw
    rw [← List.drop_drop]
    exact (hw ▸ List.take_append_drop w.length (cs.drop p)).symm
  refine ⟨cs.take p, cs.drop (p + w.length), ?_, ?_, unbroken_iff.mpr h.unbroken, ?_, ?_⟩
  · rw [← hsplit, List.take_append_drop]
  · rw [List.length_take, Nat.min_eq_left (Nat.le_of_lt hlt)]
  · refine parted_of_last (fun c hc => ?_) _
    cases p with
    | zero => cases hc
    | succ i =>
      rw [List.getLast?_take, if_neg (Nat.succ_ne_zero i), Nat.add_sub_cancel,
        List.getElem?_eq_getElem (by omega), Option.some_or] at hc
      exact h.before i c rfl (by rw [List.getElem?_eq_getElem (by omega)]; exact hc)
  · refine parted_of_head (fun c hc => h.after c ?_) w
    rwa [List.head?_drop] at hc

/-- Within a longest word there are no delimiters. -/
theorem IsRun.exists_getElem (h : IsRun cs p w) (hi : p ≤ i) (hlt : i < p + w.length) :
    ∃ c, cs[i]? = some c ∧ c ∉ delimiters := by
  obtain ⟨a, b, rfl, rfl, hw, -, -⟩ := h.exists_append
  have hword : i - a.length < w.length := by omega
  refine ⟨w[i - a.length], ?_, h.unbroken _ (List.getElem_mem hword)⟩
  rw [List.getElem?_append_right hi, List.getElem?_append_left hword, List.getElem?_eq_getElem hword]

/-- Of two longest words that have a place in common, none begins before the other. -/
theorem IsRun.le_of_overlap (h : IsRun cs p w) (h' : IsRun cs p' w') (hi : p ≤ i) (hlt' : i < p' + w'.length) :
    p ≤ p' := by
  apply Nat.le_of_not_lt
  intro hp
  obtain ⟨q, rfl⟩ := Nat.exists_eq_succ_of_ne_zero (show p ≠ 0 by omega)
  obtain ⟨c, hc, hno⟩ := h'.exists_getElem (show p' ≤ q by omega) (by omega)
  exact hno (h.before q c rfl hc)

/-- Nor does one of them end before the other. -/
theorem IsRun.end_le_of_overlap (h : IsRun cs p w) (h' : IsRun cs p' w') (hlt : i < p + w.length) (hi' : p' ≤ i) :
    p' + w'.length ≤ p + w.length := by
  apply Nat.le_of_not_lt
  intro hp
  obtain ⟨c, hc, hno⟩ := h'.exists_getElem (show p' ≤ p + w.length by omega) hp
  exact hno (h.after c hc)

/-- Two longest words that have a place in common are one. -/
theorem IsRun.eq_of_overlap (h : IsRun cs p w) (h' : IsRun cs p' w') (hi : p ≤ i) (hlt : i < p + w.length)
    (hi' : p' ≤ i) (hlt' : i < p' + w'.length) : p = p' ∧ w = w' := by
  have hp : p = p' := Nat.le_antisymm (h.le_of_overlap h' hi hlt') (h'.le_of_overlap h hi' hlt)
  have hend : p + w.length = p' + w'.length :=
    Nat.le_antisymm (h'.end_le_of_overlap h hlt' hi) (h.end_le_of_overlap h' hlt hi')
  refine ⟨hp, ?_⟩
  rw [← h.written, ← h'.written, hp, ← hend, hp]

/-! ## Lexemes -/

theorem covers_mark : (mark p c kind).Covers i ↔ p = i := by
  unfold Token.Covers mark
  simp
  omega

theorem covers_classify : (classify w (some p)).Covers i ↔ p ≤ i ∧ i < p + w.length := by
  simp [Token.Covers, classify]

/-- The text of a lexeme is written at its position. -/
theorem Lexeme.written (h : Lexeme cs t) :
    ∃ p, t.position = some p ∧ cs.extract p (p + t.text.length) = t.text.toList := by
  cases h with
  | @mark i c kind hc hk =>
    obtain ⟨hi, rfl⟩ := List.getElem?_eq_some_iff.mp hc
    exact ⟨i, rfl, by simp [InfixCalculator.mark, List.take_one, List.head?_drop, hi]⟩
  | @word p w hw => exact ⟨p, rfl, by simpa [classify] using hw.written⟩

/-- A character is in one lexeme only. -/
theorem Lexeme.eq_of_covers (hs : Lexeme cs s) (ht : Lexeme cs t) (hi : s.Covers i) (hi' : t.Covers i) : s = t := by
  -- no longest word has a delimiter in it
  have hno : ∀ {p w c kind}, IsRun cs p w → cs[i]? = some c → delimiterKind? c = some kind →
      ¬(classify w (some p)).Covers i := by
    intro p w c kind hw hc hk hcov
    obtain ⟨hle, hlt⟩ := covers_classify.mp hcov
    obtain ⟨d, hd, hnd⟩ := hw.exists_getElem hle hlt
    obtain rfl := Option.some.inj (hc.symm.trans hd)
    exact hnd (mem_delimiters_of_kind hk)
  cases hs with
  | mark hc hk =>
    obtain rfl := covers_mark.mp hi
    cases ht with
    | mark hc' hk' =>
      obtain rfl := covers_mark.mp hi'
      obtain rfl := Option.some.inj (hc.symm.trans hc')
      obtain rfl := Option.some.inj (hk.symm.trans hk')
      rfl
    | word hw => exact absurd hi' (hno hw hc hk)
  | word hw =>
    cases ht with
    | mark hc hk =>
      obtain rfl := covers_mark.mp hi'
      exact absurd hi (hno hw hc hk)
    | word hw' =>
      obtain ⟨hle, hlt⟩ := covers_classify.mp hi
      obtain ⟨hle', hlt'⟩ := covers_classify.mp hi'
      obtain ⟨rfl, rfl⟩ := hw.eq_of_overlap hw' hle hlt hle' hlt'
      rfl

/-- Every character but a space is in a lexeme. -/
theorem exists_lexeme (hc : cs[i]? = some c) (hne : c ≠ ' ') : ∃ t, Lexeme cs t ∧ t.Covers i := by
  by_cases hd : c ∈ delimiters
  · obtain ⟨kind, hk⟩ := exists_kind_of_mem_delimiters hd hne
    exact ⟨mark i c kind, .mark hc hk, covers_mark.mpr rfl⟩
  · -- the longest word is what stands before the character up to a delimiter, and what stands behind it
    obtain ⟨a, u, hau, hu, ha⟩ := exists_last_word (cs.take i)
    obtain ⟨v, b, hvb, hv, hb⟩ := exists_first_word (cs.drop i)
    have hcs : cs = a ++ ((u ++ v) ++ b) := by
      rw [← List.take_append_drop i cs, hau, hvb]
      simp
    have hi : i < cs.length := (List.getElem?_eq_some_iff.mp hc).1
    have hlen : a.length + u.length = i := by
      rw [← List.length_append, ← hau, List.length_take, Nat.min_eq_left (Nat.le_of_lt hi)]
    obtain ⟨rest, rfl⟩ : ∃ rest, v = c :: rest := by
      have hhead : (v ++ b).head? = some c := by rw [← hvb, List.head?_drop, hc]
      cases v with
      | nil => exact absurd (hb c hhead) hd
      | cons x rest => exact ⟨rest, by rw [Option.some.inj hhead]⟩
    have hrun : IsRun cs a.length (u ++ c :: rest) := hcs ▸ IsRun.of_append (by simp) (hu.append hv) ha hb
    exact ⟨classify (u ++ c :: rest) (some a.length), .word hrun, covers_classify.mpr (by simp; omega)⟩

/-! ## The tokens of a text are its lexemes -/

/-- The tokens of a text behind a delimiter are lexemes of the whole. -/
theorem lexeme_of_mem_scan (ha : ∀ c ∈ a.getLast?, c ∈ delimiters) (ht : t ∈ scan a.length [] cs) : Lexeme (a ++ cs) t := by
  induction cs using segments_induction generalizing a with
  | word w hw =>
    rw [scan_unbroken hw] at ht
    split at ht
    · cases ht
    · next hne =>
      rw [List.mem_singleton.mp ht]
      have hrun := IsRun.of_append (b := []) hne hw ha (by simp)
      rw [List.append_nil] at hrun
      exact .word hrun
  | cut w d cs hw hd ih =>
    have hmem := isDelimiter_iff.mp hd
    rw [scan_append_delimiter hd, scan_unbroken hw, List.mem_append, List.mem_append] at ht
    rcases ht with (ht | ht) | ht
    · split at ht
      · cases ht
      · next hne =>
        rw [List.mem_singleton.mp ht]
        exact .word (IsRun.of_append hne hw ha (by simpa using hmem))
    · rw [delimiterTokens_eq hmem, List.mem_map] at ht
      obtain ⟨kind, hk, rfl⟩ := ht
      refine .mark ?_ (Option.mem_toList.mp hk)
      rw [← List.append_assoc, List.getElem?_append_right (by simp)]
      simp
    · have hlex := ih (a := a ++ (w ++ [d])) (by simpa using hmem) (by simpa [Nat.add_assoc] using ht)
      simpa using hlex

/-- The tokens of a text are its lexemes. -/
theorem mem_tokenize_iff {e : String} : t ∈ tokenize e ↔ Lexeme e.toList t := by
  constructor
  · intro ht
    exact lexeme_of_mem_scan (a := []) (by simp) ht
  · intro h
    rw [tokenize]
    cases h with
    | @mark i c kind hc hk =>
      have hmem := mem_delimiters_of_kind hk
      obtain ⟨hi, hci⟩ := List.getElem?_eq_some_iff.mp hc
      have hsplit : e.toList = e.toList.take i ++ c :: e.toList.drop (i + 1) := by
        rw [← hci, List.getElem_cons_drop, List.take_append_drop]
      have hlen : (e.toList.take i).length = i := List.length_take_of_le (Nat.le_of_lt hi)
      rw [hsplit, scan_append_delimiter (isDelimiter_iff.mpr hmem), delimiterTokens_eq hmem, hk, hlen, Nat.zero_add]
      simp
    | @word p w hw =>
      obtain ⟨a, b, he, rfl, hub, hab, hwb⟩ := hw.exists_append
      rw [he, scan_append_of_parted hab, scan_append_of_parted hwb, scan_unbroken hub, if_neg hw.ne_nil]
      simp

/-- Every list that cuts a text into its lexemes has all of them. -/
theorem Partition.mem_iff {ts : List Token} (h : Partition cs ts) : t ∈ ts ↔ Lexeme cs t := by
  constructor
  · exact h.lexemes t
  · intro ht
    cases ht with
    | mark hc hk => exact h.marks _ _ _ hc hk
    | @word p w hw =>
      have hlen : 0 < w.length := List.length_pos_iff.mpr hw.ne_nil
      obtain ⟨c, hc, hno⟩ := hw.exists_getElem (Nat.le_refl p) (by omega)
      have hne : c ≠ ' ' := by
        rintro rfl
        exact hno (by decide)
      have hcov : ∃ s ∈ ts, s.Covers p := by
        apply Classical.byContradiction
        intro hnone
        exact hne (h.spaces p c hc fun s hs hcov => hnone ⟨s, hs, hcov⟩)
      obtain ⟨s, hs, hcov⟩ := hcov
      have hlex : Lexeme cs (classify w (some p)) := .word hw
      rwa [hlex.eq_of_covers (h.lexemes s hs) (covers_classify.mpr ⟨Nat.le_refl p, by omega⟩) hcov]

theorem position_asymm {q r : Option Nat} (h : q < r) : ¬r < q := by
  cases q <;> cases r <;> simp_all
  omega

/-- Tokens in the order of their positions are determined by which they are. -/
theorem eq_of_increasing {ts ts' : List Token} (h : ts.Pairwise fun s t => s.position < t.position)
    (h' : ts'.Pairwise fun s t => s.position < t.position) (hmem : ∀ t, t ∈ ts ↔ t ∈ ts') : ts = ts' := by
  have hnodup : ∀ {us : List Token}, (us.Pairwise fun s t => s.position < t.position) → us.Nodup := by
    intro us hus
    refine hus.imp ?_
    rintro s t hlt rfl
    exact position_asymm hlt hlt
  have hperm : ts.Perm ts' := (List.perm_ext_iff_of_nodup (hnodup h) (hnodup h')).mpr hmem
  exact hperm.eq_of_pairwise (fun s t _ _ hst hts => absurd hts (position_asymm hst)) h h'

theorem tokenize_increasing (e : String) : (tokenize e).Pairwise fun s t => s.position < t.position :=
  scan_pairwise (Nat.le_refl 0) e.toList

/-- The tokens of a text cut it into pieces. -/
theorem partition_tokenize (e : String) : Partition e.toList (tokenize e) where
  written := fun t ht => (mem_tokenize_iff.mp ht).written
  increasing := tokenize_increasing e
  disjoint := by
    refine (tokenize_increasing e).imp_of_mem ?_
    rintro s t hs ht hlt i ⟨hi, hi'⟩
    obtain rfl := (mem_tokenize_iff.mp hs).eq_of_covers (mem_tokenize_iff.mp ht) hi hi'
    exact position_asymm hlt hlt
  spaces := by
    intro i c hc hnone
    apply Classical.byContradiction
    intro hne
    obtain ⟨t, ht, hcov⟩ := exists_lexeme hc hne
    exact hnone t (mem_tokenize_iff.mpr ht) hcov
  marks := fun i c kind hc hk => mem_tokenize_iff.mpr (.mark hc hk)
  lexemes := fun t ht => mem_tokenize_iff.mp ht

theorem filter_unbroken (hw : Unbroken w) : w.filter (· ≠ ' ') = w := by
  rw [List.filter_eq_self]
  intro c hc
  have hno := unbroken_iff.mp hw c hc
  simp only [decide_eq_true_eq]
  rintro rfl
  exact hno (by decide)

/-- Nothing but the spaces is lost. -/
theorem texts_scan (p : Nat) (cs : List Char) :
    (texts (scan p [] cs)).flatMap String.toList = cs.filter (· ≠ ' ') := by
  have hword : ∀ {w : List Char} {q : Nat}, Unbroken w → (texts (scan q [] w)).flatMap String.toList = w := by
    intro w q hw
    rw [scan_unbroken hw]
    split
    · next h => rw [h]; rfl
    · simp [texts, classify]
  induction cs using segments_induction generalizing p with
  | word w hw => rw [hword hw, filter_unbroken hw]
  | cut w d cs hw hd ih =>
    have hmark : (texts (delimiterTokens (p + w.length) d)).flatMap String.toList = [d].filter (· ≠ ' ') := by
      have hmem := isDelimiter_iff.mp hd
      simp only [delimiters, List.mem_cons, List.not_mem_nil, or_false] at hmem
      rcases hmem with rfl | rfl | rfl | rfl | rfl | rfl | rfl | rfl <;> simp [delimiterTokens, texts]
    rw [scan_append_delimiter hd, texts, List.map_append, List.map_append, List.flatMap_append, List.flatMap_append,
      ← texts, ← texts, ← texts, hword hw, hmark, ih, List.filter_append, filter_unbroken hw, List.append_assoc,
      ← List.filter_append, List.singleton_append]

/-- The tokens of a text are the one list of tokens that cuts it into pieces, and their texts in a row are the text
without its spaces. -/
theorem tokenize_partition (e : String) :
    (∀ ts, Partition e.toList ts ↔ ts = tokenize e) ∧
      (texts (tokenize e)).flatMap String.toList = e.toList.filter (· ≠ ' ') := by
  refine ⟨fun ts => ⟨fun h => ?_, ?_⟩, texts_scan 0 e.toList⟩
  · refine eq_of_increasing h.increasing (tokenize_increasing e) fun t => ?_
    rw [h.mem_iff, mem_tokenize_iff]
  · rintro rfl
    exact partition_tokenize e

/-- A delimiter cuts a text in two: the tokens are those of the text before it, its own token unless it is a space, and
those of the text behind it, which stand further to the right. -/
theorem tokenize_around (a b : String) (c : Char) (hc : c ∈ delimiters) :
    tokenize (a ++ String.singleton c ++ b) =
      tokenize a ++ (delimiterKind? c).toList.map (mark a.length c) ++
        (tokenize b).map (Token.relocate (Option.map (· + (a.length + 1)))) := by
  have hempty : ([] : List Char).length ≤ 0 := Nat.le_refl 0
  have htext : (a ++ String.singleton c ++ b).toList = a.toList ++ c :: b.toList := by simp
  rw [tokenize, htext, scan_append_delimiter (isDelimiter_iff.mpr hc), delimiterTokens_eq hc, tokenize, tokenize,
    ← scan_shift hempty, String.length_toList, Nat.zero_add, Nat.zero_add]

/-- A power without its base, cut at the parenthesis. -/
theorem tokenize_around_leftParen :
    '(' ∈ delimiters ∧ tokenize ("2 POWER" ++ String.singleton '(' ++ " x)") =
      tokenize "2 POWER" ++ [mark 7 '(' .leftParen] ++ (tokenize " x)").map (Token.relocate (Option.map (· + 8))) :=
  ⟨by decide, tokenize_around "2 POWER" " x)" '(' (by decide)⟩

end InfixCalculator
