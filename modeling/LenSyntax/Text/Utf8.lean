import LenSyntax.Text.Basic

/-! UTF-8, one byte at a time. A decoder holds the sequence that it is inside and what it has read,
latest first; `none` stands for a maximal ill-formed piece. Surrogates, overlong forms and numbers
above `0x10FFFF` are ill-formed when read; a text that holds surrogates is written all the same. -/
namespace LenSyntax

abbrev Bytes := List UInt8

namespace Utf8

/-- A sequence under way: bytes owed, bounds for the next one, and the number read so far. -/
structure Pending where
  owed : Nat
  low : Nat
  high : Nat
  value : Nat

inductive Lead where
  | single (c : CodePoint)
  | opens (p : Pending)
  | stray

/-- What a byte means where no sequence is under way. -/
def lead (b : Nat) : Lead :=
  if b < 0x80 then .single (.ofNat b)
  else if b < 0xC2 then .stray
  else if b < 0xE0 then .opens ⟨1, 0x80, 0xBF, b % 0x20⟩
  else if b = 0xE0 then .opens ⟨2, 0xA0, 0xBF, 0⟩
  else if b = 0xED then .opens ⟨2, 0x80, 0x9F, 0xD⟩
  else if b < 0xF0 then .opens ⟨2, 0x80, 0xBF, b % 0x10⟩
  else if b = 0xF0 then .opens ⟨3, 0x90, 0xBF, 0⟩
  else if b < 0xF4 then .opens ⟨3, 0x80, 0xBF, b % 0x08⟩
  else if b = 0xF4 then .opens ⟨3, 0x80, 0x8F, 4⟩
  else .stray

structure Decoder where
  pending : Option Pending
  read : List (Option CodePoint)

namespace Decoder

def start : Decoder := ⟨none, []⟩

def pushLead (read : List (Option CodePoint)) (b : Nat) : Decoder :=
  match lead b with
  | .single c => ⟨none, some c :: read⟩
  | .opens p => ⟨some p, read⟩
  | .stray => ⟨none, none :: read⟩

/-- A byte that cannot go on with the sequence under way ends it and is read afresh. -/
def push (d : Decoder) (b : UInt8) : Decoder :=
  match d.pending with
  | none => pushLead d.read b.toNat
  | some p =>
    if p.low ≤ b.toNat ∧ b.toNat ≤ p.high then
      let value := 64 * p.value + b.toNat % 64
      if p.owed ≤ 1 then ⟨none, some (.ofNat value) :: d.read⟩
      else ⟨some ⟨p.owed - 1, 0x80, 0xBF, value⟩, d.read⟩
    else pushLead (none :: d.read) b.toNat

/-- The pieces in order; a sequence cut off by the end is ill-formed. -/
def finish (d : Decoder) : List (Option CodePoint) :=
  match d.pending with
  | none => d.read.reverse
  | some _ => (none :: d.read).reverse

end Decoder

def pieces (bytes : Bytes) : List (Option CodePoint) :=
  (bytes.foldl Decoder.push Decoder.start).finish

/-- Reads bytes with one replacement character for each maximal ill-formed piece. -/
def decode (bytes : Bytes) : Text := (pieces bytes).map (·.getD .replacement)

/-- Reads bytes that are well-formed throughout. -/
def decode? (bytes : Bytes) : Option Text := (pieces bytes).mapM id

def encodePoint (c : CodePoint) : Bytes :=
  let n := c.val
  let tail (k : Nat) : UInt8 := .ofNat (0x80 + k % 0x40)
  if n < 0x80 then [.ofNat n]
  else if n < 0x800 then [.ofNat (0xC0 + n / 0x40), tail n]
  else if n < 0x10000 then [.ofNat (0xE0 + n / 0x1000), tail (n / 0x40), tail n]
  else [.ofNat (0xF0 + n / 0x40000), tail (n / 0x1000), tail (n / 0x40), tail n]

def encode (t : Text) : Bytes := t.flatMap encodePoint

end Utf8
end LenSyntax
