/-!
# Keys, texts and numbers

The smallest parts of a table-based text: comments and line breaks, keys, the four kinds of quoted
text, and numbers, dates and times. Every reader takes characters from the front and returns what it
read with the rest. Of numbers, dates and times only the kind is kept, because no configuration uses
their value.
-/

namespace Orchestration.Toml

/-- Whether a character is a blank inside a line. -/
def isBlank (c : Char) : Bool :=
  c = ' ' || c = '\t'

/-- Skip blanks. -/
def skipBlanks (cs : List Char) : List Char :=
  cs.dropWhile isBlank

/-- Whether a character may stand in a comment or, quotes aside, on a line of a quoted text. -/
def isPrintable (c : Char) : Bool :=
  c = '\t' || (0x20 ≤ c.toNat && c.toNat ≠ 0x7F)

/-- Skip a comment, if there is one. -/
def skipComment : List Char → List Char
  | '#' :: rest => rest.dropWhile isPrintable
  | cs => cs

/-- Take a line break. -/
def lineBreak? : List Char → Option (List Char)
  | '\n' :: rest => some rest
  | '\r' :: '\n' :: rest => some rest
  | _ => none

/-- Skip blanks and line breaks. -/
def skipBlankLines : List Char → List Char
  | [] => []
  | '\r' :: '\n' :: rest => skipBlankLines rest
  | c :: rest => if isBlank c || c = '\n' then skipBlankLines rest else c :: rest

/-- Skip blanks and a comment; the line has to end there. -/
def endLine? (cs : List Char) : Option (List Char) :=
  match skipComment (skipBlanks cs) with
  | [] => some []
  | rest => lineBreak? rest

/-- Skip blanks, comments and line breaks, as many as `fuel`. -/
def skipLines : Nat → List Char → List Char
  | 0, cs => cs
  | n + 1, cs =>
    let rest := skipComment (skipBlanks cs)
    match lineBreak? rest with
    | some next => skipLines n next
    | none => rest

/-! ## Quoted texts -/

/-- The digit's value. -/
def hexValue? (c : Char) : Option Nat :=
  if c.isDigit then some (c.toNat - '0'.toNat)
  else if 'a' ≤ c && c ≤ 'f' then some (c.toNat - 'a'.toNat + 10)
  else if 'A' ≤ c && c ≤ 'F' then some (c.toNat - 'A'.toNat + 10)
  else none

/-- The character whose number is written with exactly `count` hexadecimal digits. -/
def codePoint? (count : Nat) (cs : List Char) : Option Char := do
  let digits := cs.take count
  if digits.length ≠ count then none
  let n ← digits.foldlM (fun n c => (hexValue? c).map (16 * n + ·)) 0
  if h : n.isValidChar then some (Char.ofNatAux n h) else none

/-- What a backslash and a letter stand for. -/
def simpleEscape? : Char → Option Char
  | 'b' => some '\x08'
  | 't' => some '\t'
  | 'n' => some '\n'
  | 'f' => some '\x0c'
  | 'r' => some '\r'
  | '"' => some '"'
  | '\\' => some '\\'
  | _ => none

/-- Take an escape after its backslash. -/
def escape? : List Char → Option (Char × List Char)
  | 'u' :: rest => (codePoint? 4 rest).map fun c => (c, rest.drop 4)
  | 'U' :: rest => (codePoint? 8 rest).map fun c => (c, rest.drop 8)
  | c :: rest => (simpleEscape? c).map fun c => (c, rest)
  | [] => none

/-- The rest of a text in double quotes on one line. -/
def basic : Nat → List Char → Option (List Char × List Char)
  | 0, _ => none
  | n + 1, cs =>
    match cs with
    | '"' :: rest => some ([], rest)
    | '\\' :: rest => do
      let (c, rest) ← escape? rest
      let (text, rest) ← basic n rest
      return (c :: text, rest)
    | c :: rest =>
      if isPrintable c then (basic n rest).map fun r => (c :: r.1, r.2) else none
    | [] => none

/-- The rest of a text in single quotes on one line. -/
def literal : List Char → Option (List Char × List Char)
  | '\'' :: rest => some ([], rest)
  | c :: rest => if isPrintable c then (literal rest).map fun r => (c :: r.1, r.2) else none
  | [] => none

/-- The end of a text between triple quotes: up to two of the closing quotes belong to the text. -/
def closing (quote : Char) (cs : List Char) : Option (List Char × List Char) :=
  let quotes := cs.takeWhile (· = quote)
  if quotes.length < 3 then none
  else
    let extra := min (quotes.length - 3) 2
    some (List.replicate extra quote, cs.drop (extra + 3))

/-- The rest of a text in triple double quotes. A backslash at the end of a line joins it with the
next text that is not blank. -/
def multilineBasic : Nat → List Char → Option (List Char × List Char)
  | 0, _ => none
  | n + 1, cs =>
    match cs with
    | [] => none
    | '"' :: rest =>
      match closing '"' ('"' :: rest) with
      | some r => some r
      | none => (multilineBasic n rest).map fun r => ('"' :: r.1, r.2)
    | '\\' :: rest =>
      match lineBreak? (skipBlanks rest) with
      | some next => multilineBasic n (skipBlankLines next)
      | none => do
        let (c, rest) ← escape? rest
        let (text, rest) ← multilineBasic n rest
        return (c :: text, rest)
    | c :: rest =>
      match lineBreak? (c :: rest) with
      | some next => (multilineBasic n next).map fun r => ('\n' :: r.1, r.2)
      | none =>
        if isPrintable c then (multilineBasic n rest).map fun r => (c :: r.1, r.2) else none

/-- The rest of a text in triple single quotes. -/
def multilineLiteral : Nat → List Char → Option (List Char × List Char)
  | 0, _ => none
  | n + 1, cs =>
    match cs with
    | [] => none
    | '\'' :: rest =>
      match closing '\'' ('\'' :: rest) with
      | some r => some r
      | none => (multilineLiteral n rest).map fun r => ('\'' :: r.1, r.2)
    | c :: rest =>
      match lineBreak? (c :: rest) with
      | some next => (multilineLiteral n next).map fun r => ('\n' :: r.1, r.2)
      | none =>
        if isPrintable c then (multilineLiteral n rest).map fun r => (c :: r.1, r.2) else none

/-- Take a line break right after opening triple quotes, which is no part of the text. -/
def skipFirstBreak (cs : List Char) : List Char :=
  (lineBreak? cs).getD cs

/-- Take a quoted text of any kind. -/
def quoted (cs : List Char) : Option (List Char × List Char) :=
  match cs with
  | '"' :: '"' :: '"' :: rest => multilineBasic (rest.length + 1) (skipFirstBreak rest)
  | '\'' :: '\'' :: '\'' :: rest => multilineLiteral (rest.length + 1) (skipFirstBreak rest)
  | '"' :: rest => basic (rest.length + 1) rest
  | '\'' :: rest => literal rest
  | _ => none

/-! ## Keys -/

/-- Whether a character may stand in a key without quotes. -/
def isBareKey (c : Char) : Bool :=
  c.isAlphanum || c = '_' || c = '-'

/-- Take one part of a key. -/
def keyPart (cs : List Char) : Option (String × List Char) :=
  match cs with
  | '"' :: rest => (basic (rest.length + 1) rest).map fun r => (String.ofList r.1, r.2)
  | '\'' :: rest => (literal rest).map fun r => (String.ofList r.1, r.2)
  | cs =>
    match cs.takeWhile isBareKey with
    | [] => none
    | bare => some (String.ofList bare, cs.dropWhile isBareKey)

/-- How deep values may stand inside each other, and how many parts a key may have. -/
def maxDepth : Nat := 79

/-- Take the parts of a dotted key, at most as many as `fuel`. -/
def keyParts : Nat → List Char → Option (List String × List Char)
  | 0, _ => none
  | n + 1, cs => do
    let (part, rest) ← keyPart (skipBlanks cs)
    match skipBlanks rest with
    | '.' :: rest =>
      let (parts, rest) ← keyParts n rest
      return (part :: parts, rest)
    | rest => return ([part], rest)

/-- Take a dotted key. -/
def key (cs : List Char) : Option (List String × List Char) :=
  keyParts maxDepth cs

/-! ## Numbers, dates and times -/

/-- Whether the characters are digits of a kind, single underscores allowed between two of them. -/
def areDigits (isDigit : Char → Bool) : List Char → Bool
  | [] => false
  | [c] => isDigit c
  | c :: '_' :: rest => isDigit c && areDigits isDigit rest
  | c :: rest => isDigit c && areDigits isDigit rest

/-- Whether the digits have no needless zero in front. -/
def noLeadingZero (digits : List Char) : Bool :=
  match digits with
  | '0' :: _ :: _ => false
  | _ => true

/-- The number that digits write in a base. -/
def numberOf (base : Nat) (digits : List Char) : Nat :=
  (digits.filterMap hexValue?).foldl (fun n d => base * n + d) 0

/-- A sign and what follows it. -/
def splitSign : List Char → Option Char × List Char
  | '+' :: rest => (some '+', rest)
  | '-' :: rest => (some '-', rest)
  | cs => (none, cs)

/-- The number above the largest integer of 64 bits. -/
def integerBound : Nat := 9223372036854775808

/-- Whether the characters write an integer of 64 bits. -/
def isInteger (cs : List Char) : Bool :=
  match splitSign cs with
  | (none, '0' :: 'x' :: digits) =>
    areDigits (fun c => (hexValue? c).isSome) digits && numberOf 16 digits < integerBound
  | (none, '0' :: 'o' :: digits) =>
    areDigits (fun c => '0' ≤ c && c ≤ '7') digits && numberOf 8 digits < integerBound
  | (none, '0' :: 'b' :: digits) =>
    areDigits (fun c => c = '0' || c = '1') digits && numberOf 2 digits < integerBound
  | (sign, digits) =>
    areDigits Char.isDigit digits && noLeadingZero digits
      && (numberOf 10 digits < integerBound || (sign = some '-' && numberOf 10 digits = integerBound))

/-- Whether the characters write the exponent of a float after its mark. -/
def isExponent (cs : List Char) : Bool :=
  areDigits Char.isDigit (splitSign cs).2

/-- Whether the characters are the fraction of a float after its point, with or without an
exponent. -/
def isFraction (cs : List Char) : Bool :=
  let notMark := fun c : Char => c ≠ 'e' && c ≠ 'E'
  areDigits Char.isDigit (cs.takeWhile notMark) &&
    match cs.dropWhile notMark with
    | [] => true
    | _ :: exponent => isExponent exponent

/-- Whether the characters after a sign write a decimal number with a fraction, an exponent or both. -/
def isDecimal (cs : List Char) : Bool :=
  let digits := cs.takeWhile fun c => c.isDigit || c = '_'
  areDigits Char.isDigit digits && noLeadingZero digits &&
    match cs.dropWhile fun c => c.isDigit || c = '_' with
    | '.' :: fraction => isFraction fraction
    | 'e' :: exponent => isExponent exponent
    | 'E' :: exponent => isExponent exponent
    | _ => false

/-- The number half a step above the largest float of 64 bits. It and all above it round to
infinity. -/
def infinityBound : Nat := Nat.shiftLeft 18014398509481983 970

/-- Whether digits, read as an integer and scaled by a power of ten, round to infinity. -/
def roundsToInfinity (digits : List Char) (exponent : Int) : Bool :=
  let digits := digits.dropWhile (· = '0')
  let top := digits.length + exponent
  if digits.isEmpty || top < 308 then false
  else if 310 < top then true
  else if exponent < 0 then
    infinityBound * Nat.pow 10 exponent.natAbs ≤ numberOf 10 digits
  else infinityBound ≤ numberOf 10 digits * Nat.pow 10 exponent.natAbs

/-- Whether a decimal number after its sign rounds to infinity. -/
def isOverflow (cs : List Char) : Bool :=
  let notMark := fun c : Char => c ≠ 'e' && c ≠ 'E'
  let mantissa := cs.takeWhile notMark
  let scale :=
    match splitSign ((cs.dropWhile notMark).drop 1) with
    | (some '-', digits) => -(numberOf 10 digits : Int)
    | (_, digits) => (numberOf 10 digits : Int)
  let fraction := (mantissa.dropWhile (· ≠ '.')).filter Char.isDigit
  roundsToInfinity (mantissa.filter Char.isDigit) (scale - fraction.length)

/-- Whether the characters write a float. Infinity has a name of its own: a number that would round to
it is none, but one that would round to its negative is. -/
def isFloat (cs : List Char) : Bool :=
  let (sign, body) := splitSign cs
  body = "inf".toList || body = "nan".toList ||
    (isDecimal body && (sign = some '-' || !isOverflow body))

/-- The value of a number of exactly `count` digits in front, and the rest. -/
def fixedNumber? (count : Nat) (cs : List Char) : Option (Nat × List Char) :=
  let digits := cs.take count
  if digits.length = count && digits.all Char.isDigit then
    some (numberOf 10 digits, cs.drop count)
  else none

/-- The number of days of a month. -/
def daysIn (year month : Nat) : Nat :=
  if month = 2 then
    if (year % 4 = 0 && year % 100 ≠ 0) || year % 400 = 0 then 29 else 28
  else if [4, 6, 9, 11].contains month then 30
  else 31

/-- Take a date. -/
def date? (cs : List Char) : Option (List Char) := do
  let (year, rest) ← fixedNumber? 4 cs
  let '-' :: rest := rest | none
  let (month, rest) ← fixedNumber? 2 rest
  let '-' :: rest := rest | none
  let (day, rest) ← fixedNumber? 2 rest
  if 1 ≤ month && month ≤ 12 && 1 ≤ day && day ≤ daysIn year month then some rest else none

/-- Take a time of day. -/
def time? (cs : List Char) : Option (List Char) := do
  let (hour, rest) ← fixedNumber? 2 cs
  let ':' :: rest := rest | none
  let (minute, rest) ← fixedNumber? 2 rest
  let ':' :: rest := rest | none
  let (second, rest) ← fixedNumber? 2 rest
  if 23 < hour || 59 < minute || 60 < second then none
  match rest with
  | '.' :: c :: rest => if c.isDigit then some (rest.dropWhile Char.isDigit) else none
  | rest => some rest

/-- Whether the characters are empty or an offset from universal time. -/
def isOffset (cs : List Char) : Bool :=
  match cs with
  | [] => true
  | ['Z'] | ['z'] => true
  | sign :: rest =>
    (sign = '+' || sign = '-') &&
      match fixedNumber? 2 rest with
      | some (hour, ':' :: rest) =>
        match fixedNumber? 2 rest with
        | some (minute, []) => hour ≤ 23 && minute ≤ 59
        | _ => false
      | _ => false

/-- Whether the characters write a date, a time, or both. -/
def isDateTime (cs : List Char) : Bool :=
  match date? cs with
  | none => time? cs = some []
  | some [] => true
  | some (separator :: rest) =>
    (separator = 'T' || separator = 't' || separator = ' ') &&
      match time? rest with
      | none => false
      | some offset => isOffset offset

/-- Whether a character may belong to a number, date or time. -/
def isNumberPart (c : Char) : Bool :=
  c.isAlphanum || c = '_' || c = '+' || c = '-' || c = '.' || c = ':'

/-- What an unquoted value other than a truth value is. -/
inductive Numeral where
  /-- An integer or a decimal number. -/
  | number
  /-- A date, a time or both. -/
  | moment
deriving Repr, DecidableEq

/-- What a word is, if it is a number, date or time. -/
def Numeral.ofWord? (word : List Char) : Option Numeral :=
  if isInteger word || isFloat word then some .number
  else if isDateTime word then some .moment
  else none

/-- Take a number, date or time. A blank may stand between a date and a time. -/
def numeral? (cs : List Char) : Option (Numeral × List Char) :=
  let word := cs.takeWhile isNumberPart
  let rest := cs.dropWhile isNumberPart
  let joined :=
    match rest with
    | ' ' :: d :: more =>
      if d.isDigit && date? word = some [] then
        some (word ++ ' ' :: (d :: more).takeWhile isNumberPart, (d :: more).dropWhile isNumberPart)
      else none
    | _ => none
  match joined with
  | some (word, rest) => if isDateTime word then some (.moment, rest) else none
  | none => (Numeral.ofWord? word).map fun n => (n, rest)

end Orchestration.Toml
