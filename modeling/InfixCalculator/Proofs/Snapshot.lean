import InfixCalculator.Proofs.Release

/-!
# What has been put out, and what waits

- `Snapshot ts n o s`: the indices `o` that have been put out, and those `s` that wait, after the first `n` tokens;
- `Division ts n gone closed kept`: what the next token makes of what waits, and `Snapshot.step`: the snapshot after it;
- `Snapshot.division_idle`, `Snapshot.division_close`, `Snapshot.division_operator`: what each kind of token does.
-/

namespace InfixCalculator

/-- At the index stands an operand or an operator. -/
def Carried (ts : List Token) (i : Nat) : Prop :=
  At ts i Token.isOperand ∨ At ts i Token.isOperator

/-- Of two indices, the first may come before the second in the output. -/
def Before (ts : List Token) (a b : Nat) : Prop :=
  Carried ts a → Carried ts b →
    (a < b ∧ (At ts a Token.isOperator → ∃ k, k ≤ b ∧ Freed ts a k)) ∨
      (b < a ∧ At ts b Token.isOperator ∧ ∀ k, k ≤ a → ¬Freed ts b k)

/-- After the first tokens, the indices of what has been put out, and of what waits, the latest first. -/
structure Snapshot (ts : List Token) (n : Nat) (o s : List Nat) : Prop where
  descending : s.Pairwise (· > ·)
  waits : ∀ i, i ∈ s ↔ Waits ts n i
  posted : ∀ i, i ∈ o ↔ i < n ∧ Carried ts i ∧ ¬Waits ts n i
  ordered : (o ++ s).Pairwise (Before ts)

/-- What becomes of what waits when the next token comes: operators that it releases, left parentheses that are closed,
and what goes on waiting. -/
structure Division (ts : List Token) (n : Nat) (gone closed kept : List Nat) : Prop where
  gone : ∀ i ∈ gone, At ts i Token.isOperator ∧ Freed ts i n
  closed : ∀ i ∈ closed, At ts i Token.isLeftParen ∧ ¬Waits ts (n + 1) i
  kept : ∀ i ∈ kept, Waits ts (n + 1) i

variable {ts : List Token} {n : Nat} {o s gone closed kept : List Nat} {t : Token}

theorem snapshot_zero : Snapshot ts 0 [] [] where
  descending := List.Pairwise.nil
  waits i := by simp [Waits]
  posted i := by simp
  ordered := List.Pairwise.nil

theorem pairwise_insert {R : Nat → Nat → Prop} {xs ys : List Nat} (h : (xs ++ ys).Pairwise R)
    (hx : ∀ a ∈ xs, R a n) (hy : ∀ b ∈ ys, R n b) : (xs ++ n :: ys).Pairwise R := by
  obtain ⟨h₁, h₂, h₃⟩ := List.pairwise_append.mp h
  refine List.pairwise_append.mpr ⟨h₁, List.pairwise_cons.mpr ⟨hy, h₂⟩, fun a ha b hb => ?_⟩
  rcases List.mem_cons.mp hb with rfl | hb
  · exact hx a ha
  · exact h₃ a ha b hb

/-! ## One step -/

theorem carried_iff (ht : ts[n]? = some t) : Carried ts n ↔ t.isOperand = true ∨ t.isOperator = true := by
  rw [Carried, at_iff ht, at_iff ht]

theorem not_carried_of_left {i : Nat} (h : At ts i Token.isLeftParen) : ¬Carried ts i := by
  obtain ⟨t, ht, hl⟩ := h
  simp [carried_iff ht, Token.of_isLeftParen hl]

theorem waits_last_iff (ht : ts[n]? = some t) :
    Waits ts (n + 1) n ↔ t.isLeftParen = true ∨ t.isOperator = true := by
  rw [← at_iff ht, ← at_iff ht]
  exact ⟨fun h => h.2.imp And.left And.left, waits_self⟩

theorem Waits.operator {i : Nat} (h : Waits ts n i) (hc : Carried ts i) : At ts i Token.isOperator :=
  h.2.elim (fun hl => absurd hc (not_carried_of_left hl.1)) And.left

/-- What goes on waiting is what is kept. -/
theorem Division.waits_iff (h : Division ts n gone closed kept) (hs : Snapshot ts n o (gone ++ (closed ++ kept)))
    {i : Nat} (hi : i < n) : Waits ts (n + 1) i ↔ i ∈ kept := by
  refine ⟨fun hw => ?_, h.kept i⟩
  have hm := (hs.waits i).mpr (hw.of_succ hi)
  simp only [List.mem_append] at hm
  rcases hm with hm | hm | hm
  · obtain ⟨hop, hf⟩ := h.gone i hm
    exact absurd hf (hw.not_freed hop (Nat.lt_succ_self n))
  · exact absurd hw (h.closed i hm).2
  · exact hm

/-- What has been put out is what was put out before, and what the token releases. -/
theorem Division.posted_iff (h : Division ts n gone closed kept) (hs : Snapshot ts n o (gone ++ (closed ++ kept)))
    {i : Nat} (hi : i < n) : Carried ts i ∧ ¬Waits ts (n + 1) i ↔ i ∈ o ++ gone := by
  rw [h.waits_iff hs hi, List.mem_append, hs.posted]
  have hm := hs.waits i
  simp only [List.mem_append] at hm
  constructor
  · rintro ⟨hc, hk⟩
    by_cases hw : Waits ts n i
    · rcases hm.mpr hw with hg | hg | hg
      · exact Or.inr hg
      · exact absurd hc (not_carried_of_left (h.closed i hg).1)
      · exact absurd hg hk
    · exact Or.inl ⟨hi, hc, hw⟩
  · rintro (⟨-, hc, hw⟩ | hg)
    · exact ⟨hc, fun hk => hw (hm.mp (Or.inr (Or.inr hk)))⟩
    · obtain ⟨hop, hf⟩ := h.gone i hg
      exact ⟨Or.inr hop, fun hk => (h.kept i hk).not_freed hop (Nat.lt_succ_self n) hf⟩

/-- The token at hand may stand between what has been put out and what is kept. -/
theorem Division.ordered (h : Division ts n gone closed kept) (hs : Snapshot ts n o (gone ++ (closed ++ kept))) :
    (o ++ gone ++ n :: kept).Pairwise (Before ts) := by
  have hlt : ∀ i ∈ gone ++ (closed ++ kept), i < n := fun i hi => ((hs.waits i).mp hi).1
  have hsub : (o ++ gone ++ kept).Pairwise (Before ts) := by
    refine hs.ordered.sublist ?_
    rw [List.append_assoc]
    exact (List.Sublist.refl o).append ((List.Sublist.refl gone).append (List.sublist_append_right closed kept))
  refine pairwise_insert hsub (fun a ha _ _ => ?_) (fun b hb _ hcb => ?_)
  · rcases List.mem_append.mp ha with ha | ha
    · obtain ⟨han, -, hw⟩ := (hs.posted a).mp ha
      refine Or.inl ⟨han, fun hop => ?_⟩
      by_cases hf : ∃ k, k ≤ n ∧ Freed ts a k
      · exact hf
      · exact absurd ⟨han, Or.inr ⟨hop, fun k hk hfk => hf ⟨k, Nat.le_of_lt hk, hfk⟩⟩⟩ hw
    · exact Or.inl ⟨hlt a (List.mem_append_left _ ha), fun _ => ⟨n, Nat.le_refl n, (h.gone a ha).2⟩⟩
  · have hop := (h.kept b hb).operator hcb
    have hbn := hlt b (List.mem_append_right _ (List.mem_append_right _ hb))
    exact Or.inr ⟨hbn, hop, fun k hk => (h.kept b hb).not_freed hop (Nat.lt_succ_of_le hk)⟩

/-- A token puts out what it releases, and then it begins to wait, or is put out itself, or neither. -/
theorem Snapshot.step (h : Snapshot ts n o (gone ++ (closed ++ kept))) (hd : Division ts n gone closed kept)
    (ht : ts[n]? = some t) :
    Snapshot ts (n + 1) (o ++ gone ++ if t.isOperand = true then [n] else [])
      ((if t.isLeftParen = true ∨ t.isOperator = true then [n] else []) ++ kept) where
  descending := by
    have hkept := (List.pairwise_append.mp (List.pairwise_append.mp h.descending).2.1).2.1
    have hlt : ∀ i ∈ kept, i < n := fun i hi => ((h.waits i).mp (by simp [hi])).1
    split
    · exact List.pairwise_cons.mpr ⟨hlt, hkept⟩
    · exact hkept
  waits i := by
    have hfront : i ∈ (if t.isLeftParen = true ∨ t.isOperator = true then [n] else []) ↔
        i = n ∧ (t.isLeftParen = true ∨ t.isOperator = true) := by
      split <;> simp_all
    have hlt : ∀ i ∈ kept, i < n := fun i hi => ((h.waits i).mp (by simp [hi])).1
    rw [List.mem_append, hfront]
    rcases Nat.lt_trichotomy i n with hi | rfl | hi
    · rw [hd.waits_iff h hi]
      exact ⟨fun hm => hm.resolve_left fun he => Nat.ne_of_lt hi he.1, Or.inr⟩
    · rw [waits_last_iff ht]
      exact ⟨fun hm => (hm.resolve_right fun hk => Nat.lt_irrefl i (hlt i hk)).2, fun hk => Or.inl ⟨rfl, hk⟩⟩
    · refine ⟨fun hm => ?_, fun hw => absurd hw.1 (by omega)⟩
      rcases hm with ⟨rfl, -⟩ | hk
      · exact absurd hi (Nat.lt_irrefl i)
      · exact absurd (hlt i hk) (by omega)
  posted i := by
    have hback : i ∈ (if t.isOperand = true then [n] else []) ↔ i = n ∧ t.isOperand = true := by
      split <;> simp_all
    have hlt : ∀ i ∈ o ++ gone, i < n := by
      intro i hi
      rcases List.mem_append.mp hi with hi | hi
      · exact ((h.posted i).mp hi).1
      · exact ((h.waits i).mp (List.mem_append_left _ hi)).1
    rw [List.mem_append, hback]
    rcases Nat.lt_trichotomy i n with hi | rfl | hi
    · rw [hd.posted_iff h hi, and_iff_right (Nat.lt_succ_of_lt hi)]
      exact ⟨fun hm => hm.resolve_right fun he => Nat.ne_of_lt hi he.1, Or.inl⟩
    · rw [carried_iff ht, waits_last_iff ht]
      have hnot : i ∉ o ++ gone := fun hi => Nat.lt_irrefl i (hlt i hi)
      rcases t.sort_cases with hs | hs | hs | hs <;> simp [hs, hnot]
    · refine ⟨fun hm => ?_, fun hm => absurd hm.1 (by omega)⟩
      rcases hm with hm | ⟨rfl, -⟩
      · exact absurd (hlt i hm) (by omega)
      · exact absurd hi (Nat.lt_irrefl i)
  ordered := by
    have hord := hd.ordered h
    rcases t.sort_cases with hs | hs | hs | hs
    · simpa [hs] using hord
    · simpa [hs] using hord
    · simpa [hs] using hord
    · have hsub : (o ++ (gone ++ kept)).Sublist (o ++ (gone ++ n :: kept)) :=
        ((List.Sublist.refl _).append ((List.Sublist.refl _).append (List.sublist_cons_self n kept)))
      rw [List.append_assoc] at hord
      simpa [hs] using hord.sublist hsub

/-! ## What a token does to what waits -/

/-- In a list that descends, what comes later is less. -/
theorem Snapshot.lt_of_append {xs ys : List Nat} (h : Snapshot ts n o (xs ++ ys)) {x y : Nat} (hx : x ∈ xs)
    (hy : y ∈ ys) : y < x :=
  (List.pairwise_append.mp h.descending).2.2 x hx y hy

theorem Snapshot.lt_of_mem {l i : Nat} (h : Snapshot ts n o (gone ++ l :: kept)) (hi : i ∈ kept) : i < l :=
  (List.pairwise_cons.mp (List.pairwise_append.mp h.descending).2.1).1 i hi

/-- The latest left parenthesis that waits is the last to have been opened. -/
theorem Snapshot.depth_latest (hw : Backed ts) (hn : n ≤ ts.length) {l : Nat}
    (h : Snapshot ts n o (gone ++ l :: kept)) (hg : ∀ i ∈ gone, At ts i Token.isOperator)
    (hl : At ts l Token.isLeftParen) : depth ts n = depth ts l + 1 := by
  have hwaits := (h.waits l).mp (by simp)
  have habove := hwaits.above hl hwaits.1 (Nat.le_refl n)
  have hlow := hw l (by have := hwaits.1; omega)
  obtain ⟨l', hat, hwaits', heq, hin⟩ := exists_waits_left hn (show 0 < depth ts n by omega)
  have hm := (h.waits l').mpr hwaits'
  rcases List.mem_append.mp hm with hm | hm
  · exact absurd hat (not_left_of_operator (hg l' hm))
  · rcases List.mem_cons.mp hm with rfl | hm
    · omega
    · have hlt := h.lt_of_mem hm
      have := hin l hlt (Nat.le_of_lt hwaits.1)
      omega

/-- The operators that wait above all left parentheses are in the group that is open. -/
theorem Snapshot.inside (hn : n ≤ ts.length) (hw : Backed ts) (h : Snapshot ts n o (gone ++ kept))
    (hg : ∀ i ∈ gone, At ts i Token.isOperator) {i : Nat} (hi : i ∈ gone) : Inside ts i n := by
  have hwaits := (h.waits i).mp (List.mem_append_left _ hi)
  have hin : ∀ m, i < m → m ≤ n → depth ts i ≤ depth ts m := fun m => hwaits.inside hn (hg i hi)
  refine ⟨?_, hin⟩
  have hle := hin n hwaits.1 (Nat.le_refl n)
  by_cases heq : depth ts n = depth ts i
  · exact heq
  · -- Otherwise a left parenthesis waits that has been opened after it.
    have hlow := hw i (by have := hwaits.1; omega)
    obtain ⟨l, hat, hwaits', -, habove⟩ := exists_waits_left hn (show 0 < depth ts n by omega)
    have hm := (h.waits l).mpr hwaits'
    rcases List.mem_append.mp hm with hm | hm
    · exact absurd hat (not_left_of_operator (hg l hm))
    · have := habove i (h.lt_of_append hi hm) (Nat.le_of_lt hwaits.1)
      omega

/-- An operand or a left parenthesis releases nothing. -/
theorem Snapshot.division_idle (h : Snapshot ts n o s) (ht : ts[n]? = some t) (hr : t.isRightParen = false)
    (ho : t.isOperator = false) : Division ts n [] [] s where
  gone _ hi := by cases hi
  closed _ hi := by cases hi
  kept i hi := ((h.waits i).mp hi).succ ht hr ho

/-- A right parenthesis releases the operators that wait since the latest left one, and closes that. -/
theorem Snapshot.division_close (hw : Backed ts) (hr : At ts n Token.isRightParen) {l : Nat}
    (h : Snapshot ts n o (gone ++ l :: kept)) (hg : ∀ i ∈ gone, At ts i Token.isOperator)
    (hl : At ts l Token.isLeftParen) : Division ts n gone [l] kept := by
  have hn := Nat.le_of_lt (lt_length_of_at hr)
  have hdepth := h.depth_latest hw hn hg hl
  have hfall := depth_succ_right hr
  have hln := ((h.waits l).mp (by simp)).1
  refine ⟨fun i hi => ?_, fun i hi => ?_, fun i hi => ?_⟩
  · exact ⟨hg i hi, ((h.waits i).mp (by simp [hi])).1, h.inside hn hw hg hi, Or.inl hr⟩
  · obtain rfl := List.mem_singleton.mp hi
    refine ⟨hl, fun hwaits => ?_⟩
    have := hwaits.above hl hwaits.1 (Nat.le_refl _)
    omega
  · have hil := h.lt_of_mem hi
    have hwaits := (h.waits i).mp (by simp [hi])
    refine hwaits.next (fun hleft => ?_) fun _ hfreed => ?_
    · have := hwaits.above hleft hil (Nat.le_of_lt hln)
      omega
    · have heq := hfreed.2.1.1
      have := hfreed.2.1.2 l hil (Nat.le_of_lt hln)
      omega

/-- An operator that does not yield keeps those below it from being released. -/
theorem Snapshot.not_freed (hk : Known ts) (hop : At ts n Token.isOperator) {x : Nat}
    (h : Snapshot ts n o (gone ++ x :: kept)) (hx : ¬Yields ts x n) {i : Nat} (hi : i ∈ x :: kept)
    (hopi : At ts i Token.isOperator) : ¬Freed ts i n := by
  have hn := Nat.le_of_lt (lt_length_of_at hop)
  rintro ⟨-, ⟨heq, hin⟩, hright | hy⟩
  · exact not_right_of_operator hop hright
  · rcases List.mem_cons.mp hi with rfl | hi
    · exact hx hy
    · have hix := h.lt_of_mem hi
      have hwaits := (h.waits x).mp (by simp)
      have hxn := hwaits.1
      have hle := hin x hix (Nat.le_of_lt hxn)
      rcases hwaits.2 with ⟨hleft, -⟩ | ⟨hopx, -⟩
      · have := hwaits.above hleft hxn (Nat.le_refl n)
        omega
      · -- The one at `x` would have released it before.
        have hle' := hwaits.inside hn hopx hxn (Nat.le_refl n)
        have hinx : Inside ts i x := ⟨by omega, fun m hm hmx => hin m hm (by omega)⟩
        have hfreed : Freed ts i x := ⟨hix, hinx, Or.inr (hy.of_not_yields hk hopx hx)⟩
        exact ((h.waits i).mp (by simp [hi])).not_freed hopi hxn hfreed

/-- An operator releases those on top that yield to it, up to the first that does not. -/
theorem Snapshot.division_operator (hk : Known ts) (hw : Backed ts) (hop : At ts n Token.isOperator)
    (h : Snapshot ts n o (gone ++ kept)) (hg : ∀ i ∈ gone, At ts i Token.isOperator ∧ Yields ts i n)
    (hkept : ∀ x ∈ kept.head?, ¬Yields ts x n) : Division ts n gone [] kept := by
  have hn := Nat.le_of_lt (lt_length_of_at hop)
  refine ⟨fun i hi => ?_, fun i hi => absurd hi List.not_mem_nil, fun i hi => ?_⟩
  · have hin := h.inside hn hw (fun i hi => (hg i hi).1) hi
    exact ⟨(hg i hi).1, ((h.waits i).mp (List.mem_append_left _ hi)).1, hin, Or.inr (hg i hi).2⟩
  · have hwaits := (h.waits i).mp (List.mem_append_right _ hi)
    refine hwaits.next (fun hleft => ?_) fun hopi => ?_
    · rw [depth_succ_operator hop]
      exact hwaits.above hleft hwaits.1 (Nat.le_refl n)
    · cases kept with
      | nil => cases hi
      | cons x rest => exact h.not_freed hk hop (hkept x rfl) hi hopi

end InfixCalculator
