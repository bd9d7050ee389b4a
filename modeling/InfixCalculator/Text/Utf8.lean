import InfixCalculator.Text.Hexadecimal

/-!
# UTF-8

* `encode` writes characters as bytes.
* `decode` reads bytes, or says where they stop being UTF-8. The bytes arrive all at once, or in parts: then a sequence
  that the end of a part cuts off is carried over to the next one, and positions count from the first byte that was
  carried over or else from the start of the part.
-/

namespace InfixCalculator.Text.Utf8

/-- The bytes of characters. -/
def encode (cs : List Char) : List UInt8 :=
  cs.flatMap String.utf8EncodeChar

/-- What can be wrong with a sequence of bytes. -/
inductive Reason where
  /-- The byte begins no sequence. -/
  | invalidStart
  /-- A byte cannot continue the sequence before it. -/
  | invalidContinuation
  /-- The bytes end inside a sequence. -/
  | unexpectedEnd
  deriving DecidableEq

/-- The words for a reason. -/
def Reason.message : Reason → String
  | invalidStart => "invalid start byte"
  | invalidContinuation => "invalid continuation byte"
  | unexpectedEnd => "unexpected end of data"

/-- A place where bytes are not UTF-8: the first byte of the bad sequence, its position, and its length. -/
structure Fault where
  first : UInt8
  position : Nat
  length : Nat
  reason : Reason
  deriving DecidableEq

/-- The bad bytes of a fault. -/
def Fault.place (e : Fault) : String :=
  if e.length ≤ 1 then
    "byte 0x" ++ String.ofList (hexadecimal 2 e.first.toNat) ++ " in position " ++ toString e.position
  else "bytes in position " ++ toString e.position ++ "-" ++ toString (e.position + e.length - 1)

/-- The message of a fault. -/
def Fault.message (e : Fault) : String :=
  "'utf-8' codec can't decode " ++ e.place ++ ": " ++ e.reason.message

/-- How bytes arrive: all at once, or in parts, of which one starts at each offset where `starts` holds. -/
inductive Arrival where
  | whole
  | inParts (starts : Nat → Bool)

/-- A part starts at the offset. -/
def Arrival.startsAt (offset : Nat) : Arrival → Bool
  | whole => false
  | inParts starts => starts offset

/-- A sequence that is not complete: its first byte and offset, the code point so far, how many bytes are owed, and
the bounds of the next one. -/
structure Pending where
  first : UInt8
  start : Nat
  value : Nat
  owed : Nat
  low : Nat
  high : Nat

/-- What a byte that begins a sequence promises: the bits it gives, the bytes owed and the bounds of the next one. -/
def lead? (b : Nat) : Option (Nat × Nat × Nat × Nat) :=
  if b < 0x80 then some (b, 0, 0x80, 0xBF)
  else if b < 0xC2 then none
  else if b < 0xE0 then some (b - 0xC0, 1, 0x80, 0xBF)
  else if b = 0xE0 then some (b - 0xE0, 2, 0xA0, 0xBF)
  else if b = 0xED then some (b - 0xE0, 2, 0x80, 0x9F)
  else if b < 0xF0 then some (b - 0xE0, 2, 0x80, 0xBF)
  else if b = 0xF0 then some (b - 0xF0, 3, 0x90, 0xBF)
  else if b < 0xF4 then some (b - 0xF0, 3, 0x80, 0xBF)
  else if b = 0xF4 then some (b - 0xF0, 3, 0x80, 0x8F)
  else none

/-- The offset from which positions count once a byte is reached: where a part starts it moves up to there, or to the
start of the sequence that is carried over. -/
def baseAt (arrival : Arrival) (offset base : Nat) (pending : Option Pending) : Nat :=
  if arrival.startsAt offset then
    match pending with
    | some p => p.start
    | none => offset
  else base

/-- The position of a sequence that the end of the bytes cuts off: what is left over in the end begins with it, where
bytes arrive in parts. -/
def cutPosition (arrival : Arrival) (p : Pending) : Nat :=
  match arrival with
  | .whole => p.start
  | .inParts _ => 0

/-- A byte that cannot continue a sequence is carried over all the same, together with the sequence, if the two would
begin a surrogate and nothing has arrived after them. -/
def carriesSurrogate (arrival : Arrival) (offset : Nat) (p : Pending) (b : UInt8) (rest : List UInt8) : Bool :=
  match arrival with
  | .whole => false
  | .inParts starts =>
    p.first = 0xED && p.owed = 2 && 0xA0 ≤ b.toNat && b.toNat ≤ 0xBF && (rest.isEmpty || starts (offset + 1))

/-- The position of a sequence that a byte cannot continue. -/
def badPosition (arrival : Arrival) (offset base : Nat) (p : Pending) (b : UInt8) (rest : List UInt8) : Nat :=
  if carriesSurrogate arrival offset p b rest then 0 else p.start - base

/-- The characters of the bytes from an offset on. -/
def decodeFrom (arrival : Arrival) (offset base : Nat) (pending : Option Pending) :
    List UInt8 → Except Fault (List Char)
  | [] =>
    match pending with
    | none => .ok []
    | some p => .error ⟨p.first, cutPosition arrival p, offset - p.start, .unexpectedEnd⟩
  | b :: bs =>
    let base := baseAt arrival offset base pending
    match pending with
    | none =>
      match lead? b.toNat with
      | none => .error ⟨b, offset - base, 1, .invalidStart⟩
      | some (value, 0, _, _) => (decodeFrom arrival (offset + 1) base none bs).map (Char.ofNat value :: ·)
      | some (value, owed, low, high) =>
        decodeFrom arrival (offset + 1) base (some ⟨b, offset, value, owed, low, high⟩) bs
    | some p =>
      if p.low ≤ b.toNat ∧ b.toNat ≤ p.high then
        let value := p.value * 64 + (b.toNat - 0x80)
        if p.owed ≤ 1 then (decodeFrom arrival (offset + 1) base none bs).map (Char.ofNat value :: ·)
        else decodeFrom arrival (offset + 1) base (some ⟨p.first, p.start, value, p.owed - 1, 0x80, 0xBF⟩) bs
      else .error ⟨p.first, badPosition arrival offset base p b bs, offset - p.start, .invalidContinuation⟩

/-- The characters of bytes. -/
def decode (arrival : Arrival) (bytes : List UInt8) : Except Fault (List Char) :=
  decodeFrom arrival 0 0 none bytes

end InfixCalculator.Text.Utf8
