import InfixCalculator.Text.Utf8
import Mathlib

/-!
# Decoding undoes encoding

- `utf8EncodeChar_ascii`, `le_of_mem_utf8EncodeChar`: a character of ASCII is one byte, and the bytes of all others are
  not in ASCII;
- `decodeFrom_encodeChar`: the bytes of a character are read as this character, wherever they stand and however they
  are cut into parts;
- `decode_encode`: so the bytes of a text are read as the text.
-/

namespace InfixCalculator.Text.Utf8

variable {c : Char} {cs : List Char} {bs : List UInt8} {b : UInt8} {arrival : Arrival} {offset base v : Nat}

/-! ## Bytes of a character -/

theorem utf8EncodeChar_ascii (h : c.toNat < 0x80) : String.utf8EncodeChar c = [UInt8.ofNat c.toNat] := by
  have h7F : c.val.toNat ≤ 0x7F := Nat.le_of_lt_succ h
  unfold String.utf8EncodeChar
  exact if_pos h7F

/-- The bytes of a character outside ASCII, by its code point. -/
theorem utf8EncodeChar_eq (h : 0x80 ≤ c.toNat) : String.utf8EncodeChar c =
    if c.toNat ≤ 0x7FF then
      [UInt8.ofNat (c.toNat / 64 % 32 + 0xC0), UInt8.ofNat (c.toNat % 64 + 0x80)]
    else if c.toNat ≤ 0xFFFF then
      [UInt8.ofNat (c.toNat / 4096 % 16 + 0xE0), UInt8.ofNat (c.toNat / 64 % 64 + 0x80),
        UInt8.ofNat (c.toNat % 64 + 0x80)]
    else
      [UInt8.ofNat (c.toNat / 262144 % 8 + 0xF0), UInt8.ofNat (c.toNat / 4096 % 64 + 0x80),
        UInt8.ofNat (c.toNat / 64 % 64 + 0x80), UInt8.ofNat (c.toNat % 64 + 0x80)] := by
  have h7F : ¬c.val.toNat ≤ 0x7F := Nat.not_le_of_lt h
  unfold String.utf8EncodeChar
  exact if_neg h7F

theorem toNat_ofNat (h : v < 256) : (UInt8.ofNat v).toNat = v := by
  rw [UInt8.toNat_ofNat', Nat.mod_eq_of_lt h]

theorem le_of_mem_utf8EncodeChar (h : 0x80 ≤ c.toNat) (hb : b ∈ String.utf8EncodeChar c) : 0x80 ≤ b.toNat := by
  rw [utf8EncodeChar_eq h] at hb
  split_ifs at hb <;> simp only [List.mem_cons, List.not_mem_nil, or_false] at hb
  all_goals
    rcases hb with rfl | rfl | rfl | rfl <;> rw [toNat_ofNat (by omega)] <;> omega

/-! ## Reading a character -/

theorem decodeFrom_cons_ascii (h : v < 0x80) (hbs : ∀ offset base, decodeFrom arrival offset base none bs = .ok cs) :
    decodeFrom arrival offset base none (UInt8.ofNat v :: bs) = .ok (Char.ofNat v :: cs) := by
  rw [decodeFrom, toNat_ofNat (by omega), lead?, if_pos h]
  exact congrArg (Except.map (Char.ofNat v :: ·)) (hbs _ _)

variable {first : UInt8} {start value owed low high : Nat}

/-- The first byte of a sequence of several. -/
theorem decodeFrom_cons_lead (h : lead? b.toNat = some (value, owed + 1, low, high)) :
    decodeFrom arrival offset base none (b :: bs) =
      decodeFrom arrival (offset + 1) (baseAt arrival offset base none)
        (some ⟨b, offset, value, owed + 1, low, high⟩) bs := by
  rw [decodeFrom]
  simp only [h]

/-- A byte in the middle of a sequence. -/
theorem decodeFrom_cons_middle (hv : v < 64) (hlow : low ≤ v + 0x80) (hhigh : v + 0x80 ≤ high) :
    decodeFrom arrival offset base (some ⟨first, start, value, owed + 2, low, high⟩) (UInt8.ofNat (v + 0x80) :: bs) =
      decodeFrom arrival (offset + 1)
        (baseAt arrival offset base (some ⟨first, start, value, owed + 2, low, high⟩))
        (some ⟨first, start, value * 64 + v, owed + 1, 0x80, 0xBF⟩) bs := by
  rw [decodeFrom, toNat_ofNat (by omega), if_pos ⟨hlow, hhigh⟩, if_neg (by simp), Nat.add_sub_cancel]
  rfl

/-- The last byte of a sequence. -/
theorem decodeFrom_cons_last (hv : v < 64) (hlow : low ≤ v + 0x80) (hhigh : v + 0x80 ≤ high)
    (hc : c.toNat = value * 64 + v) (hbs : ∀ offset base, decodeFrom arrival offset base none bs = .ok cs) :
    decodeFrom arrival offset base (some ⟨first, start, value, 1, low, high⟩) (UInt8.ofNat (v + 0x80) :: bs) =
      .ok (c :: cs) := by
  rw [decodeFrom, toNat_ofNat (by omega), if_pos ⟨hlow, hhigh⟩, if_pos le_rfl, Nat.add_sub_cancel, ← hc,
    Char.ofNat_toNat]
  exact congrArg (Except.map (c :: ·)) (hbs _ _)

theorem lead?_of_two (hlow : 0x80 ≤ v) (hhigh : v ≤ 0x7FF) :
    lead? (v / 64 % 32 + 0xC0) = some (v / 64, 1, 0x80, 0xBF) := by
  unfold lead?
  rw [if_neg (by omega), if_neg (by omega), if_pos (by omega), Nat.add_sub_cancel, Nat.mod_eq_of_lt (by omega)]

/-- The first of three bytes says which second bytes belong to characters of three bytes that are no surrogates. -/
theorem lead?_of_three (hlow : 0x7FF < v) (hhigh : v ≤ 0xFFFF) (hv : v < 0xD800 ∨ 0xDFFF < v) :
    ∃ low high, lead? (v / 4096 % 16 + 0xE0) = some (v / 4096, 2, low, high) ∧ low ≤ v / 64 % 64 + 0x80 ∧
      v / 64 % 64 + 0x80 ≤ high := by
  unfold lead?
  rw [if_neg (by omega), if_neg (by omega), if_neg (by omega), Nat.add_sub_cancel,
    Nat.mod_eq_of_lt (show v / 4096 < 16 by omega)]
  split_ifs
  · exact ⟨_, _, rfl, by omega, by omega⟩
  · exact ⟨_, _, rfl, by omega, by omega⟩
  · exact ⟨_, _, rfl, by omega, by omega⟩
  all_goals omega

/-- The first of four bytes says which second bytes belong to characters of four bytes. -/
theorem lead?_of_four (hlow : 0xFFFF < v) (hhigh : v < 0x110000) :
    ∃ low high, lead? (v / 262144 % 8 + 0xF0) = some (v / 262144, 3, low, high) ∧ low ≤ v / 4096 % 64 + 0x80 ∧
      v / 4096 % 64 + 0x80 ≤ high := by
  unfold lead?
  rw [if_neg (by omega), if_neg (by omega), if_neg (by omega), if_neg (by omega), if_neg (by omega),
    if_neg (by omega), Nat.add_sub_cancel, Nat.mod_eq_of_lt (show v / 262144 < 8 by omega)]
  split_ifs
  · exact ⟨_, _, rfl, by omega, by omega⟩
  · exact ⟨_, _, rfl, by omega, by omega⟩
  · exact ⟨_, _, rfl, by omega, by omega⟩
  · omega

/-- The bytes of a character are read as the character, whatever follows and wherever they stand. -/
theorem decodeFrom_encodeChar (c : Char) (hbs : ∀ offset base, decodeFrom arrival offset base none bs = .ok cs) :
    decodeFrom arrival offset base none (String.utf8EncodeChar c ++ bs) = .ok (c :: cs) := by
  rcases Nat.lt_or_ge c.toNat 0x80 with hascii | hmore
  · rw [utf8EncodeChar_ascii hascii]
    conv_rhs => rw [← Char.ofNat_toNat c]
    exact decodeFrom_cons_ascii hascii hbs
  rw [utf8EncodeChar_eq hmore]
  have hvalid : c.toNat < 0xD800 ∨ 0xDFFF < c.toNat ∧ c.toNat < 0x110000 := c.valid
  have hlast : 0x80 ≤ c.toNat % 64 + 0x80 ∧ c.toNat % 64 + 0x80 ≤ 0xBF := by omega
  split_ifs with htwo hthree
  · have hlead := lead?_of_two hmore htwo
    rw [← toNat_ofNat (show c.toNat / 64 % 32 + 0xC0 < 256 by omega)] at hlead
    rw [List.cons_append, decodeFrom_cons_lead hlead]
    exact decodeFrom_cons_last (by omega) hlast.1 hlast.2 (by omega) hbs
  · obtain ⟨low, high, hlead, hlow, hhigh⟩ := lead?_of_three (by omega) hthree (by omega)
    rw [← toNat_ofNat (show c.toNat / 4096 % 16 + 0xE0 < 256 by omega)] at hlead
    rw [List.cons_append, decodeFrom_cons_lead hlead, List.cons_append,
      decodeFrom_cons_middle (Nat.mod_lt _ (by decide)) hlow hhigh]
    exact decodeFrom_cons_last (by omega) hlast.1 hlast.2 (by omega) hbs
  · obtain ⟨low, high, hlead, hlow, hhigh⟩ := lead?_of_four (Nat.lt_of_not_le hthree) (by omega)
    have hthird : 0x80 ≤ c.toNat / 64 % 64 + 0x80 ∧ c.toNat / 64 % 64 + 0x80 ≤ 0xBF := by omega
    rw [← toNat_ofNat (show c.toNat / 262144 % 8 + 0xF0 < 256 by omega)] at hlead
    rw [List.cons_append, decodeFrom_cons_lead hlead, List.cons_append,
      decodeFrom_cons_middle (Nat.mod_lt _ (by decide)) hlow hhigh, List.cons_append,
      decodeFrom_cons_middle (Nat.mod_lt _ (by decide)) hthird.1 hthird.2]
    exact decodeFrom_cons_last (by omega) hlast.1 hlast.2 (by omega) hbs

/-- The bytes of a text are read as the text, however they arrive. -/
theorem decode_encode (arrival : Arrival) (cs : List Char) : decode arrival (encode cs) = .ok cs := by
  suffices h : ∀ offset base, decodeFrom arrival offset base none (encode cs) = .ok cs from h 0 0
  induction cs with
  | nil => exact fun _ _ => rfl
  | cons c cs ih => exact fun _ _ => decodeFrom_encodeChar c ih

end InfixCalculator.Text.Utf8
