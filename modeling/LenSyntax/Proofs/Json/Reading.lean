import LenSyntax.Json
import LenSyntax.Proofs.Lexeme.Numeral
import LenSyntax.Proofs.Text.Quoted

/-! Reading JSON documents that are made of strings, integers, arrays and objects. The reader knows
nothing of how a document is laid out: blanks may stand between any two parts of it, and a string
may hold any escape. -/
namespace LenSyntax

section Units

def isHighSurrogate (unit : Nat) : Bool := 0xD800 ≤ unit && unit < 0xDC00

def isLowSurrogate (unit : Nat) : Bool := 0xDC00 ≤ unit && unit < 0xE000

/-- The text of UTF-16 units. A high surrogate and a low one behind it are one code point, and every
other unit stands for itself. -/
def Text.ofUnits16 : List Nat → Text
  | [] => []
  | [unit] => [.ofNat unit]
  | unit :: next :: units =>
    if isHighSurrogate unit && isLowSurrogate next then
      .ofNat (0x10000 + 0x400 * (unit - 0xD800) + (next - 0xDC00)) :: ofUnits16 units
    else .ofNat unit :: ofUnits16 (next :: units)

/-- No two code points of a text look like one in UTF-16. -/
def Text.Unpaired (t : Text) : Prop :=
  t.IsChain fun c d => ¬ (isHighSurrogate c.val ∧ isLowSurrogate d.val)

instance (t : Text) : Decidable t.Unpaired := inferInstanceAs (Decidable (List.IsChain _ t))

/-- The text whose units these are is found again. -/
theorem Text.ofUnits16_units16 {t : Text} (h : t.Unpaired) :
    ofUnits16 (t.flatMap CodePoint.units16) = t := by
  induction t with
  | nil => rfl
  | cons c t ih =>
    have hmore := ih h.of_cons
    rw [List.flatMap_cons, CodePoint.units16]
    split
    · next hc =>
      cases t with
      | nil => simp [ofUnits16]
      | cons d t =>
        -- the unit behind `c` is `d` or a high surrogate, and neither makes a pair with `c`
        obtain ⟨next, units, hunits, hpair⟩ : ∃ next units, d.units16 = next :: units ∧
            ¬ (isHighSurrogate c.val && isLowSurrogate next) = true := by
          rw [CodePoint.units16]
          split
          · exact ⟨_, _, rfl, by simpa using (List.isChain_cons_cons.1 h).1⟩
          · refine ⟨_, _, rfl, ?_⟩
            have hlt := d.isLt
            simp only [isLowSurrogate, Bool.and_eq_true, decide_eq_true_eq]
            omega
        rw [List.flatMap_cons, hunits] at hmore ⊢
        rw [List.singleton_append, List.cons_append, ofUnits16, if_neg hpair, CodePoint.ofNat_val]
        exact congrArg (c :: ·) hmore
    · next hc =>
      have hlt := c.isLt
      have hpair : (isHighSurrogate (0xD800 + (c.val - 0x10000) / 0x400) &&
          isLowSurrogate (0xDC00 + (c.val - 0x10000) % 0x400)) = true := by
        simp only [isHighSurrogate, isLowSurrogate, Bool.and_eq_true, decide_eq_true_eq]
        omega
      have hval : 0x10000 + 0x400 * (0xD800 + (c.val - 0x10000) / 0x400 - 0xD800) +
          (0xDC00 + (c.val - 0x10000) % 0x400 - 0xDC00) = c.val := by omega
      rw [List.cons_append, List.singleton_append, ofUnits16, if_pos hpair, hval,
        CodePoint.ofNat_val, hmore]

end Units

namespace Json

/-- What may stand between the parts of a document. -/
def isBlank (c : CodePoint) : Bool := c = ' ' || c = '\t' || c = '\n' || c = '\r'

def skip (t : Text) : Text := t.dropWhile isBlank

/-- What a letter behind a backslash stands for. -/
def escapes : List (CodePoint × CodePoint) :=
  [('"', '"'), ('\\', '\\'), ('/', '/'), ('b', '\x08'), ('f', '\x0c'), ('n', '\n'), ('r', '\r'),
    ('t', '\t')]

/-- The UTF-16 units of a string up to its closing quote, and the text behind this. -/
def units : Text → Option (List Nat × Text)
  | [] => none
  | c :: t =>
    if c = '"' then some ([], t)
    else if c = '\\' then
      match t with
      | [] => none
      | letter :: t =>
        if letter = 'u' then
          match t with
          | d₁ :: d₂ :: d₃ :: d₄ :: t =>
            if [d₁, d₂, d₃, d₄].all (·.isHexDigit) then
              (units t).map fun r => (Text.hexNumber [d₁, d₂, d₃, d₄] :: r.1, r.2)
            else none
          | _ => none
        else
          match escapes.lookup letter with
          | some c => (units t).map fun r => (c.units16 ++ r.1, r.2)
          | none => none
    else if c.val < 0x20 then none
    else (units t).map fun r => (c.units16 ++ r.1, r.2)

/-- A string, behind its opening quote. -/
def string? (t : Text) : Option (Text × Text) :=
  (units t).map fun r => (Text.ofUnits16 r.1, r.2)

/-- What goes on with a number behind its digits. -/
def continuesNumber (c : CodePoint) : Bool := c.isDigit || c = '.' || c = 'e' || c = 'E'

/-- A number without a sign, a fraction and an exponent; only zero itself starts with a zero. -/
def natural? (t : Text) : Option (Nat × Text) :=
  let (digits, rest) := t.splitWhile CodePoint.isDigit
  if digits = [] ∨ (digits.head? = some (CodePoint.ofChar '0') ∧ 1 < digits.length) ∨
      rest.head?.any continuesNumber then none
  else some (Number.natural digits, rest)

def integer? : Text → Option (Int × Text)
  | [] => none
  | c :: t =>
    if c = '-' then (natural? t).map fun r => (-r.1, r.2)
    else (natural? (c :: t)).map fun r => (r.1, r.2)

section Parts
variable {α : Type} (item : Text → Option (α × Text)) (closing : CodePoint)

/-- Items with commas between them, up to the closing bracket; there are not more than `bound`. -/
def separated : (bound : Nat) → Text → Option (List α × Text)
  | 0, _ => none
  | bound + 1, t => do
    let (a, t) ← item t
    match skip t with
    | [] => none
    | c :: t =>
      if c = closing then some ([a], t)
      else if c = ',' then (separated bound t).map fun r => (a :: r.1, r.2)
      else none

/-- All between brackets, behind the opening one. -/
def enclosed? (t : Text) : Option (List α × Text) :=
  match skip t with
  | [] => none
  | c :: u => if c = closing then some ([], u) else separated item closing t.length t

end Parts

/-- A member of an object: a name and a value. -/
def member? (value : Text → Option (Json × Text)) (t : Text) :
    Option ((Text × Json) × Text) := do
  match skip t with
  | [] => none
  | c :: t =>
    if c = '"' then
      let (name, t) ← string? t
      match skip t with
      | [] => none
      | c :: t => if c = ':' then (value t).map fun r => ((name, r.1), r.2) else none
    else none

/-- A document that is nested at most `depth` deep, and the text behind it. -/
def value? : (depth : Nat) → Text → Option (Json × Text)
  | 0, _ => none
  | depth + 1, t =>
    match skip t with
    | [] => none
    | c :: t =>
      if c = '"' then (string? t).map fun r => (.string r.1, r.2)
      else if c = '[' then (enclosed? (value? depth) ']' t).map fun r => (.array r.1, r.2)
      else if c = '\x7b' then
        (enclosed? (member? (value? depth)) '\x7d' t).map fun r => (.object r.1, r.2)
      else (integer? (c :: t)).map fun r => (.number r.1, r.2)

/-- The document that a whole text holds, which is not nested deeper than the text is long. -/
def read? (t : Text) : Option Json := do
  let (j, rest) ← value? t.length t
  if skip rest = [] then some j else none

/-- Two documents that are laid out differently hold the same. -/
example : (read? " [1,\r\n-20 ,\"\\uD83D\\ude00\\/\"]").map text =
    some "[\n  1,\n  -20,\n  \"\\ud83d\\ude00/\"\n]" := by decide +kernel

end Json
end LenSyntax
