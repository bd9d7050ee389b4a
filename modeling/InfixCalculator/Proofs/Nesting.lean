import InfixCalculator.Proofs.Tokens

/-!
# Groups in parentheses

- `depth ts n`: how many groups are open before the token at `n`; `Backed ts`: never less than none; `WellNested ts`:
  besides, none in the end;
- `Partners ts l r`: the parentheses at `l` and `r` make a group; `Innermost ts l r i`: of all groups around `i` it is
  the smallest; `SameGroup ts i k`: the smallest groups around `i` and `k` are the same;
- `exists_open`, `exists_close`: where the depth passes a level there is a parenthesis;
- `closes_iff`, `sameGroup_iff`: what the depth says of the groups around a token that is no parenthesis.
-/

namespace InfixCalculator

/-- At the index stands a token with the property. -/
def At (ts : List Token) (i : Nat) (p : Token → Bool) : Prop :=
  ∃ t, ts[i]? = some t ∧ p t = true

/-- The left parentheses less the right ones among the first tokens. -/
def depth (ts : List Token) (n : Nat) : Int :=
  lefts (ts.take n) - rights (ts.take n)

/-- Every right parenthesis closes a group, and every group is closed. -/
def WellNested (ts : List Token) : Prop :=
  (∀ n, n ≤ ts.length → 0 ≤ depth ts n) ∧ depth ts ts.length = 0

instance (ts : List Token) : Decidable (WellNested ts) :=
  inferInstanceAs (Decidable (_ ∧ _))

/-- Every right parenthesis closes a group; some groups may stay open. -/
def Backed (ts : List Token) : Prop :=
  ∀ n, n ≤ ts.length → 0 ≤ depth ts n

/-- The parentheses at two indices are partners: between them the depth stays above that of the left one, and the
right one takes it back there. -/
structure Partners (ts : List Token) (l r : Nat) : Prop where
  lt : l < r
  left : At ts l Token.isLeftParen
  right : At ts r Token.isRightParen
  returns : depth ts r = depth ts l + 1
  above : ∀ m, l < m → m ≤ r → depth ts l < depth ts m

/-- The partners enclose an index, and of all that do they are the innermost. -/
structure Innermost (ts : List Token) (l r i : Nat) : Prop where
  partners : Partners ts l r
  left : l < i
  right : i < r
  latest : ∀ l' r', Partners ts l' r' → l' < i → i < r' → l' ≤ l

/-- The innermost groups around two indices are the same; there may be none. -/
def SameGroup (ts : List Token) (i k : Nat) : Prop :=
  ∀ l r, Innermost ts l r i ↔ Innermost ts l r k

/-! ## Depths -/

variable {ts : List Token}

theorem at_iff {i : Nat} {t : Token} (h : ts[i]? = some t) {p : Token → Bool} : At ts i p ↔ p t = true := by
  simp [At, h]

theorem lt_length_of_at {i : Nat} {p : Token → Bool} (h : At ts i p) : i < ts.length := by
  obtain ⟨t, ht, -⟩ := h
  exact (List.getElem?_eq_some_iff.mp ht).1

theorem depth_zero : depth ts 0 = 0 := by
  simp [depth]

/-- The depth after a token. -/
theorem depth_succ {n : Nat} {t : Token} (h : ts[n]? = some t) :
    depth ts (n + 1) =
      depth ts n + (if t.isLeftParen = true then 1 else 0) - (if t.isRightParen = true then 1 else 0) := by
  have htake : ts.take (n + 1) = ts.take n ++ [t] := by simp [List.take_add_one, h]
  simp only [depth, htake, lefts_append, rights_append, lefts_cons, rights_cons, lefts_nil, rights_nil]
  split <;> split <;> omega

theorem depth_succ_left {n : Nat} (h : At ts n Token.isLeftParen) : depth ts (n + 1) = depth ts n + 1 := by
  obtain ⟨t, ht, hp⟩ := h
  simp [depth_succ ht, hp, Token.of_isLeftParen hp]

theorem depth_succ_right {n : Nat} (h : At ts n Token.isRightParen) : depth ts (n + 1) = depth ts n - 1 := by
  obtain ⟨t, ht, hp⟩ := h
  simp [depth_succ ht, hp, Token.of_isRightParen hp]

/-- A token that is no parenthesis keeps the depth. -/
theorem depth_succ_of_not_paren {n : Nat} {t : Token} (h : ts[n]? = some t) (hp : t.isParen = false) :
    depth ts (n + 1) = depth ts n := by
  have hflags : t.isLeftParen = false ∧ t.isRightParen = false := by simpa [Token.isParen] using hp
  simp [depth_succ h, hflags]

/-- Only a left parenthesis makes the depth grow. -/
theorem left_of_depth_lt {n : Nat} (hn : n < ts.length) (h : depth ts n < depth ts (n + 1)) :
    At ts n Token.isLeftParen ∧ depth ts (n + 1) = depth ts n + 1 := by
  have ht : ts[n]? = some ts[n] := List.getElem?_eq_getElem hn
  have hl : At ts n Token.isLeftParen := by
    rw [depth_succ ht] at h
    rw [at_iff ht]
    by_cases hp : ts[n].isLeftParen = true
    · exact hp
    · rw [if_neg hp] at h
      split at h <;> omega
  exact ⟨hl, depth_succ_left hl⟩

/-- Only a right parenthesis makes the depth fall. -/
theorem right_of_lt_depth {n : Nat} (hn : n < ts.length) (h : depth ts (n + 1) < depth ts n) :
    At ts n Token.isRightParen ∧ depth ts (n + 1) = depth ts n - 1 := by
  have ht : ts[n]? = some ts[n] := List.getElem?_eq_getElem hn
  have hr : At ts n Token.isRightParen := by
    rw [depth_succ ht] at h
    rw [at_iff ht]
    by_cases hp : ts[n].isRightParen = true
    · exact hp
    · rw [if_neg hp] at h
      split at h <;> omega
  exact ⟨hr, depth_succ_right hr⟩

/-- Where the depth is above a level, a left parenthesis was the last to pass the level. -/
theorem exists_open {d : Int} (hd : 0 ≤ d) {n : Nat} (hn : n ≤ ts.length) (h : d < depth ts n) :
    ∃ l, l < n ∧ At ts l Token.isLeftParen ∧ depth ts l = d ∧ ∀ m, l < m → m ≤ n → d < depth ts m := by
  induction n with
  | zero =>
    rw [depth_zero] at h
    omega
  | succ n ih =>
    by_cases hlow : d < depth ts n
    · obtain ⟨l, hl, hat, heq, habove⟩ := ih (by omega) hlow
      refine ⟨l, by omega, hat, heq, fun m hm hmn => ?_⟩
      rcases Nat.lt_or_eq_of_le hmn with hlt | rfl
      · exact habove m hm (by omega)
      · exact h
    · obtain ⟨hat, hsucc⟩ := left_of_depth_lt (show n < ts.length by omega) (by omega)
      refine ⟨n, by omega, hat, by omega, fun m hm hmn => ?_⟩
      obtain rfl : m = n + 1 := by omega
      exact h

/-- Where the depth is above a level, a right parenthesis will be the first to pass the level. -/
theorem exists_close (hw : WellNested ts) {d : Int} (hd : 0 ≤ d) {n : Nat} (hn : n ≤ ts.length) (h : d < depth ts n) :
    ∃ r, n ≤ r ∧ At ts r Token.isRightParen ∧ depth ts r = d + 1 ∧ ∀ m, n ≤ m → m ≤ r → d < depth ts m := by
  obtain ⟨k, hk⟩ := Nat.exists_eq_add_of_le hn
  induction k generalizing n with
  | zero =>
    have hend := hw.2
    rw [hk, Nat.add_zero] at hend
    omega
  | succ k ih =>
    by_cases hnext : d < depth ts (n + 1)
    · obtain ⟨r, hr, hat, heq, habove⟩ := ih (by omega) hnext (by omega)
      refine ⟨r, by omega, hat, heq, fun m hm hmr => ?_⟩
      rcases Nat.eq_or_lt_of_le hm with rfl | hlt
      · exact h
      · exact habove m (by omega) hmr
    · obtain ⟨hat, hsucc⟩ := right_of_lt_depth (show n < ts.length by omega) (by omega)
      refine ⟨n, Nat.le_refl n, hat, by omega, fun m hm hmn => ?_⟩
      obtain rfl : m = n := by omega
      exact h

/-! ## Innermost groups -/

/-- Where a token is no right parenthesis, a group lies around it at every level below its own. -/
theorem exists_partners (hw : WellNested ts) {d : Int} (hd : 0 ≤ d) {i : Nat} (hi : i < ts.length)
    (hr : ¬At ts i Token.isRightParen) (h : d < depth ts i) :
    ∃ l r, Partners ts l r ∧ l < i ∧ i < r ∧ depth ts l = d ∧ ∀ m, l < m → m ≤ i → d < depth ts m := by
  obtain ⟨l, hl, hat, heq, hin⟩ := exists_open hd (Nat.le_of_lt hi) h
  obtain ⟨r, hle, hat', heq', hin'⟩ := exists_close hw hd (Nat.le_of_lt hi) h
  have hne : r ≠ i := by
    rintro rfl
    exact hr hat'
  refine ⟨l, r, ⟨by omega, hat, hat', by omega, fun m hm hmr => ?_⟩, hl, by omega, heq, hin⟩
  rcases Nat.lt_or_ge m i with hlt | hge
  · exact heq ▸ hin m hm (by omega)
  · exact heq ▸ hin' m hge hmr

/-- The innermost group around an index is the one that is one level further out. -/
theorem innermost_iff (hw : WellNested ts) {l r i : Nat} (hi : ¬At ts i Token.isRightParen) :
    Innermost ts l r i ↔ Partners ts l r ∧ l < i ∧ i < r ∧ depth ts i = depth ts l + 1 := by
  constructor
  · intro h
    have hlen := lt_length_of_at h.partners.right
    have hright := h.right
    have hlow := hw.1 l (Nat.le_of_lt (lt_length_of_at h.partners.left))
    have habove := h.partners.above i h.left (Nat.le_of_lt h.right)
    refine ⟨h.partners, h.left, h.right, ?_⟩
    by_cases heq : depth ts i = depth ts l + 1
    · exact heq
    · -- A group one level further in lies around the index, so this one is not the innermost.
      obtain ⟨l', r', hp, hl', hr', hd, hin⟩ :=
        exists_partners hw (show 0 ≤ depth ts i - 1 by omega) (show i < ts.length by omega) hi (by omega)
      have hle := h.latest l' r' hp hl' hr'
      rcases Nat.lt_or_eq_of_le hle with hlt | rfl
      · have := hin l hlt (Nat.le_of_lt h.left)
        omega
      · omega
  · rintro ⟨hp, hl, hr, heq⟩
    refine ⟨hp, hl, hr, fun l' r' hp' hl' hr' => ?_⟩
    by_cases hlt : l < l'
    · have h₁ := hp.above l' hlt (by omega)
      have h₂ := hp'.above i hl' (by omega)
      omega
    · omega

/-- The depth does not fall below that of a token up to another one. -/
def Inside (ts : List Token) (i k : Nat) : Prop :=
  depth ts k = depth ts i ∧ ∀ m, i < m → m ≤ k → depth ts i ≤ depth ts m

/-- A right parenthesis closes the innermost group around a token when it is the first to go below its depth. -/
theorem closes_iff (hw : WellNested ts) {i k : Nat} (hr : ¬At ts i Token.isRightParen) (hik : i < k) :
    (∃ l, Innermost ts l k i) ↔ At ts k Token.isRightParen ∧ Inside ts i k := by
  constructor
  · rintro ⟨l, h⟩
    obtain ⟨hp, hli, -, heq⟩ := (innermost_iff hw hr).mp h
    refine ⟨hp.right, by rw [hp.returns, heq], fun m hm hmk => ?_⟩
    have := hp.above m (by omega) hmk
    omega
  · rintro ⟨hk, heq, hin⟩
    have hlen := lt_length_of_at hk
    have hlow := hw.1 (k + 1) hlen
    rw [depth_succ_right hk] at hlow
    obtain ⟨l, r, hp, hli, hir, hd, hin'⟩ :=
      exists_partners hw (show 0 ≤ depth ts i - 1 by omega) (show i < ts.length by omega) hr (by omega)
    refine ⟨l, (innermost_iff hw hr).mpr ⟨⟨by omega, hp.left, hk, by omega, fun m hm hmk => ?_⟩, hli, hik, by omega⟩⟩
    rcases Nat.lt_or_ge i m with hlt | hge
    · have := hin m hlt hmk
      omega
    · have := hin' m hm hge
      omega

/-- Two tokens that are no parentheses have the same innermost group when the depth does not fall from the one to the
other. -/
theorem sameGroup_iff (hw : WellNested ts) {i k : Nat} (hik : i < k) (hk : k < ts.length)
    (hil : ¬At ts i Token.isLeftParen) (hir : ¬At ts i Token.isRightParen) (hkr : ¬At ts k Token.isRightParen) :
    SameGroup ts i k ↔ Inside ts i k := by
  constructor
  · intro h
    have hlow := hw.1 i (by omega)
    have hlow' := hw.1 k (by omega)
    by_cases hpos : 0 < depth ts i
    · obtain ⟨l, r, hp, hl, hr, hd, -⟩ :=
        exists_partners hw (show 0 ≤ depth ts i - 1 by omega) (show i < ts.length by omega) hir (by omega)
      have hinner := (innermost_iff hw hir).mpr ⟨hp, hl, hr, by omega⟩
      obtain ⟨-, -, hkr', heq⟩ := (innermost_iff hw hkr).mp ((h l r).mp hinner)
      refine ⟨by omega, fun m hm hmk => ?_⟩
      have := hp.above m (by omega) (by omega)
      omega
    · have hzero : depth ts k = 0 := by
        by_cases hpos' : 0 < depth ts k
        · obtain ⟨l, r, hp, hl, hr, hd, -⟩ :=
            exists_partners hw (show 0 ≤ depth ts k - 1 by omega) hk hkr (by omega)
          have hinner := (innermost_iff hw hkr).mpr ⟨hp, hl, hr, by omega⟩
          obtain ⟨hp', -, -, heq⟩ := (innermost_iff hw hir).mp ((h l r).mpr hinner)
          have := hw.1 l (Nat.le_of_lt (lt_length_of_at hp'.left))
          omega
        · omega
      refine ⟨by omega, fun m _ hmk => ?_⟩
      have := hw.1 m (by omega)
      omega
  · rintro ⟨heq, hin⟩ l r
    rw [innermost_iff hw hir, innermost_iff hw hkr]
    constructor
    · rintro ⟨hp, hl, hr, hd⟩
      refine ⟨hp, by omega, ?_, by omega⟩
      rcases Nat.lt_trichotomy k r with hlt | rfl | hgt
      · exact hlt
      · exact absurd hp.right hkr
      · have hfall := depth_succ_right hp.right
        have hret := hp.returns
        have := hin (r + 1) (by omega) (by omega)
        omega
    · rintro ⟨hp, hl, hr, hd⟩
      refine ⟨hp, ?_, by omega, by omega⟩
      rcases Nat.lt_trichotomy l i with hlt | rfl | hgt
      · exact hlt
      · exact absurd hp.left hil
      · have := hin l hgt (by omega)
        omega

end InfixCalculator
