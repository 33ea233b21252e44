/-!
# DeadCode.Json.Number

The grammar of JSON number literals, and which of them a binary64 number can stand for. A literal is
read as a significand of at most 64 bits and a power of ten; it is refused when their product, each
rounded to 53 bits, reaches the value at which binary64 rounds to infinity.
-/

namespace DeadCode.Json

/-- A number literal taken apart. -/
structure NumberLiteral where
  negative : Bool
  whole : List Char
  fraction : List Char
  exponentMark : List Char
  exponentSign : List Char
  exponent : List Char

/-! ### Grammar -/

/-- The whole part: a single zero, or digits that start with another one. -/
def readWhole (cs : List Char) : Option (List Char × List Char) :=
  let digits := cs.takeWhile Char.isDigit
  let rest := cs.dropWhile Char.isDigit
  match digits with
  | [] => none
  | '0' :: _ :: _ => none
  | _ => some (digits, rest)

/-- The digits after the point, if there is a point. -/
def readFraction : List Char → Option (List Char × List Char)
  | '.' :: cs =>
    match cs.takeWhile Char.isDigit with
    | [] => none
    | digits => some (digits, cs.dropWhile Char.isDigit)
  | cs => some ([], cs)

/-- The mark, the sign and the digits of the exponent, if there is one. -/
def readExponent (cs : List Char) :
    Option (List Char × List Char × List Char × List Char) :=
  let mark := (cs.take 1).filter fun c => c == 'e' || c == 'E'
  if mark.isEmpty then some ([], [], [], cs)
  else
    let cs := cs.drop 1
    let sign := (cs.take 1).filter fun c => c == '+' || c == '-'
    let cs := cs.drop sign.length
    match cs.takeWhile Char.isDigit with
    | [] => none
    | digits => some (mark, sign, digits, cs.dropWhile Char.isDigit)

/-- A number literal at the start of a text, with the rest of the text. -/
def readNumber (cs : List Char) : Option (NumberLiteral × List Char) := do
  let negative := cs.head? == some '-'
  let (whole, cs) ← readWhole (if negative then cs.drop 1 else cs)
  let (fraction, cs) ← readFraction cs
  let (mark, sign, exponent, cs) ← readExponent cs
  return (⟨negative, whole, fraction, mark, sign, exponent⟩, cs)

/-- The value of a list of decimal digits. -/
def digitsValue (digits : List Char) : Nat :=
  digits.foldl (fun n c => n * 10 + (c.toNat - '0'.toNat)) 0

/-! ### Range -/

/-- Digits appended to a significand as long as it has at most 64 bits, with the number of digits
that were not. -/
def appendDigits (significand : Nat) : List Char → Nat × Nat
  | [] => (significand, 0)
  | c :: cs =>
    let next := significand * 10 + (c.toNat - '0'.toNat)
    if next ≤ 0xFFFFFFFFFFFFFFFF then appendDigits next cs else (significand, cs.length + 1)

/-- `n` rounded to 53 significant bits, a half going to the even neighbour. -/
def roundTo53 (n : Nat) : Nat :=
  if n.log2 ≤ 52 then n
  else
    let unit := Nat.pow 2 (n.log2 - 52)
    let q := n / unit
    let r := n % unit
    (if r * 2 > unit || (r * 2 == unit && q % 2 == 1) then q + 1 else q) * unit

/-- The least value that binary64 rounds to infinity. -/
def infinityBound : Nat := Nat.pow 2 1024 - Nat.pow 2 970

/-- Whether `significand * 10 ^ scale` is a finite binary64 number. -/
def isFinite (significand scale : Nat) : Bool :=
  significand == 0 ||
    (scale ≤ 308 && roundTo53 significand * roundTo53 (Nat.pow 10 scale) < infinityBound)

/-- The largest exponent that is counted; a larger one is as good as infinite. -/
def exponentLimit : Nat := 0x7FFFFFFF

/-- Whether a binary64 number stands for the literal. -/
def NumberLiteral.inRange (n : NumberLiteral) : Bool :=
  let (significand, dropped) := appendDigits 0 n.whole
  let (significand', unread) := appendDigits significand n.fraction
  let places := n.fraction.length - unread
  let exponent := digitsValue n.exponent
  if n.exponentSign == ['-'] then
    exponent > exponentLimit || dropped ≤ places + exponent ||
      isFinite significand' (dropped - places - exponent)
  else if exponent > exponentLimit then significand' == 0
  else dropped + exponent ≤ places || isFinite significand' (dropped + exponent - places)

/-- The literal as it was written. -/
def NumberLiteral.text (n : NumberLiteral) : List Char :=
  (if n.negative then ['-'] else []) ++ n.whole ++
    (if n.fraction.isEmpty then [] else '.' :: n.fraction) ++
    n.exponentMark ++ n.exponentSign ++ n.exponent

end DeadCode.Json
