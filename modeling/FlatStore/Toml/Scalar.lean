import FlatStore.Toml.Text
import FlatStore.Toml.Value
import FlatStore.Word

/-! # Settings documents: numbers and moments

    Integers of 64 bits in base ten, sixteen, eight and two, numbers with a
    fraction or an exponent, and moments in time: dates, times of day, and
    both together with or without an offset. An underscore may stand between
    two digits.
-/

namespace FlatStore.Toml

/-! ### Digits -/

/-- ASCII digits. -/
def isDigit (c : Char) : Bool := '0' ≤ c && c ≤ '9'

/-- The digits at the front and the rest; a single underscore between two digits is left out. -/
def moreDigits (accept : Char → Bool) : List Char → List Char × List Char
  | '_' :: c :: rest =>
    if accept c then
      let (ds, rest) := moreDigits accept rest
      (c :: ds, rest)
    else ([], '_' :: c :: rest)
  | c :: rest =>
    if accept c then
      let (ds, rest) := moreDigits accept rest
      (c :: ds, rest)
    else ([], c :: rest)
  | [] => ([], [])

/-- A run of digits, at least one. -/
def digits (accept : Char → Bool) : List Char → Option (List Char × List Char)
  | c :: rest =>
    if accept c then
      let (ds, rest) := moreDigits accept rest
      some (c :: ds, rest)
    else none
  | [] => none

/-- The number that digits of a base spell. -/
def digitsValue (base : Nat) (ds : List Char) : Nat :=
  ds.foldl (fun n c => base * n + (hexDigit? c).getD 0) 0

/-- The number that digits of a base spell, unless more than 64 bits are needed for it; then some
number that does not fit into 64 bits either, read without the digits that are left. -/
def boundedValue (base : Nat) (ds : List Char) : Nat :=
  ds.foldl (fun n c => if Word.size64 ≤ n then n else base * n + (hexDigit? c).getD 0) 0

/-- Whether a sign stands at the front and is a minus, and the rest. -/
def sign : List Char → Bool × List Char
  | '-' :: rest => (true, rest)
  | '+' :: rest => (false, rest)
  | cs => (false, cs)

/-- A whole number in base ten without needless zeros. -/
def wholeDigits : List Char → Option (List Char × List Char)
  | '0' :: rest => some (['0'], rest)
  | cs => digits isDigit cs

/-! ### Integers -/

/-- An integer that fits into 64 bits. -/
def fitting (n : Int) (rest : List Char) : Option (Value × List Char) :=
  if -(Word.half64 : Int) ≤ n ∧ n < Word.half64 then some (.integer n, rest) else none

/-- Digits of a base other than ten. -/
def based (base : Nat) (cs : List Char) : Option (Value × List Char) := do
  let accept (c : Char) : Bool :=
    match hexDigit? c with
    | some d => d < base
    | none => false
  let (ds, rest) ← digits accept cs
  fitting (boundedValue base ds) rest

/-- An integer. Only one in base ten has a sign. -/
def integer : List Char → Option (Value × List Char)
  | '0' :: 'x' :: rest => based 16 rest
  | '0' :: 'o' :: rest => based 8 rest
  | '0' :: 'b' :: rest => based 2 rest
  | cs => do
    let (negative, cs) := sign cs
    let (ds, rest) ← wholeDigits cs
    let n : Int := boundedValue 10 ds
    fitting (if negative then -n else n) rest

/-! ### Numbers with a fraction or an exponent -/

/-- The least number that is rounded to infinity in binary with 53 digits and 11 exponent bits. -/
def infinityBound : Nat := Nat.pow 2 1024 - Nat.pow 2 970

/-- Whether a number with these digits in front of `10 ^ e` is rounded to infinity. -/
def isInfinite (ds : List Char) (e : Int) : Bool :=
  let ds := ds.dropWhile (· == '0')
  let magnitude : Int := ds.length + e
  -- The powers of ten are worked out only where the magnitude does not settle it.
  if ds = [] ∨ magnitude < 300 then false
  else if 310 < magnitude then true
  else
    let n := digitsValue 10 ds
    if 0 ≤ e then infinityBound ≤ n * Nat.pow 10 e.toNat
    else infinityBound * Nat.pow 10 (-e).toNat ≤ n

/-- An exponent. -/
def exponent : List Char → Option (Int × List Char)
  | c :: rest =>
    if c = 'e' ∨ c = 'E' then do
      let (negative, rest) := sign rest
      let (ds, rest) ← digits isDigit rest
      let n : Int := boundedValue 10 ds
      return (if negative then -n else n, rest)
    else none
  | [] => none

/-- A number with a fraction, an exponent or both; positive ones have to be finite. -/
def decimal (cs : List Char) : Option (Value × List Char) := do
  let (negative, start) := sign cs
  let (whole, rest) ← wholeDigits start
  let (fraction, rest) ←
    match rest with
    | '.' :: rest => digits isDigit rest
    | _ => if (exponent rest).isSome then some ([], rest) else none
  let (e, rest) := (exponent rest).getD (0, rest)
  if !negative && isInfinite (whole ++ fraction) (e - fraction.length) then none
  else return (.float, rest)

/-- The special numbers. -/
def special (cs : List Char) : Option (Value × List Char) :=
  match (sign cs).2 with
  | 'i' :: 'n' :: 'f' :: rest => some (.float, rest)
  | 'n' :: 'a' :: 'n' :: rest => some (.float, rest)
  | _ => none

/-! ### Moments -/

/-- Exactly `count` digits. -/
def fixed (count : Nat) (cs : List Char) : Option (Nat × List Char) :=
  let ds := cs.take count
  if ds.length = count ∧ ds.all isDigit then some (digitsValue 10 ds, cs.drop count) else none

/-- The rest behind a character that has to be there. -/
def expect (c : Char) : List Char → Option (List Char)
  | d :: rest => if d = c then some rest else none
  | [] => none

/-- The days of a month. -/
def daysIn (year month : Nat) : Nat :=
  if month = 2 then
    if year % 4 = 0 ∧ (year % 100 ≠ 0 ∨ year % 400 = 0) then 29 else 28
  else if month = 4 ∨ month = 6 ∨ month = 9 ∨ month = 11 then 30
  else 31

/-- The rest behind a date. -/
def date (cs : List Char) : Option (List Char) := do
  let (year, rest) ← fixed 4 cs
  let (month, rest) ← fixed 2 (← expect '-' rest)
  let (day, rest) ← fixed 2 (← expect '-' rest)
  if 1 ≤ month ∧ month ≤ 12 ∧ 1 ≤ day ∧ day ≤ daysIn year month then some rest else none

/-- The rest behind a time of day. -/
def time (cs : List Char) : Option (List Char) := do
  let (hour, rest) ← fixed 2 cs
  let (minute, rest) ← fixed 2 (← expect ':' rest)
  let (second, rest) ← fixed 2 (← expect ':' rest)
  if hour ≤ 23 ∧ minute ≤ 59 ∧ second ≤ 60 then
    match rest with
    | '.' :: c :: more => some (if isDigit c then more.dropWhile isDigit else rest)
    | _ => some rest
  else none

/-- The rest behind an offset; none need be there. -/
def offset (cs : List Char) : Option (List Char) :=
  match cs with
  | [] => some []
  | c :: rest =>
    if c = 'Z' ∨ c = 'z' then some rest
    else if c = '+' ∨ c = '-' then do
      let (hour, rest) ← fixed 2 rest
      let (minute, rest) ← fixed 2 (← expect ':' rest)
      if hour ≤ 23 ∧ minute ≤ 59 then some rest else none
    else some cs

/-- The rest behind a moment: a date, with a time of day or not, or a time of day alone. -/
def momentEnd (cs : List Char) : Option (List Char) :=
  match date cs with
  | none => time cs
  | some rest =>
    match rest with
    | c :: more =>
      if c = 'T' ∨ c = 't' ∨ c = ' ' then
        -- What cannot be a time is left standing, and only the date is taken.
        match time more with
        | some rest => offset rest
        | none => some rest
      else some rest
    | [] => some rest

/-- A moment in time. -/
def moment (cs : List Char) : Option (Value × List Char) := do
  return (.moment, ← momentEnd cs)

/-- A truth value. -/
def boolean : List Char → Option (Value × List Char)
  | 't' :: 'r' :: 'u' :: 'e' :: rest => some (.boolean true, rest)
  | 'f' :: 'a' :: 'l' :: 's' :: 'e' :: rest => some (.boolean false, rest)
  | _ => none

/-- A value that holds no others. -/
def scalar (fuel : Nat) (cs : List Char) : Option (Value × List Char) :=
  match cs with
  | '"' :: _ | '\'' :: _ => do
    let (text, rest) ← string fuel cs
    return (.string text, rest)
  | _ => boolean cs <|> moment cs <|> decimal cs <|> special cs <|> integer cs

end FlatStore.Toml
