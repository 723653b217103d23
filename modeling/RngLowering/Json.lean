import RngLowering.Numeral

/-!
Reading JSON text.

Numbers keep their text, and strings are known only if their escapes stand for characters: a
surrogate without its partner has no character, but does no harm in a string that nobody looks at.
-/

set_option autoImplicit false

namespace RngLowering

inductive Json where
  | null
  | bool (value : Bool)
  | num (text : List Char)
  | str (text : Option String)
  | arr (items : List Json)
  | obj (members : List (Option String × Json))

namespace Json

def isSpace (c : Char) : Bool :=
  c = ' ' || c = '\n' || c = '\t' || c = '\r'

def skipSpace (text : List Char) : List Char := text.dropWhile isSpace

/-- The character that a short escape stands for. -/
def shortEscape? (c : Char) : Option Char :=
  if c = '"' then some '"'
  else if c = '\\' then some '\\'
  else if c = '/' then some '/'
  else if c = 'b' then some '\x08'
  else if c = 'f' then some '\x0c'
  else if c = 'n' then some '\n'
  else if c = 'r' then some '\r'
  else if c = 't' then some '\t'
  else none

/-- Four hexadecimal digits as a number. -/
def hexUnit? (digits : List Char) : Option Nat :=
  digits.foldlM (fun acc c => (Numeral.digitValue? 16 c).map (acc * 16 + ·)) 0

/-- The inside of a string up to its closing quote: characters, and the numbers of long escapes. -/
def stringParts : List Char → Option (List (Char ⊕ Nat) × List Char)
  | [] => none
  | '"' :: rest => some ([], rest)
  | '\\' :: 'u' :: a :: b :: c :: d :: rest => do
    let unit ← hexUnit? [a, b, c, d]
    let (parts, left) ← stringParts rest
    return (.inr unit :: parts, left)
  | '\\' :: c :: rest => do
    let escaped ← shortEscape? c
    let (parts, left) ← stringParts rest
    return (.inl escaped :: parts, left)
  | c :: rest => do
    guard (0x20 ≤ c.toNat)
    let (parts, left) ← stringParts rest
    return (.inl c :: parts, left)

def isHighSurrogate (unit : Nat) : Bool := 0xd800 ≤ unit && unit < 0xdc00

def isLowSurrogate (unit : Nat) : Bool := 0xdc00 ≤ unit && unit < 0xe000

/-- The characters of a string, if every surrogate has its partner. -/
def joinParts : List (Char ⊕ Nat) → Option (List Char)
  | [] => some []
  | .inl c :: rest => (joinParts rest).map (c :: ·)
  | .inr high :: .inr low :: rest =>
    if isHighSurrogate high && isLowSurrogate low then
      (joinParts rest).map (Char.ofNat (0x10000 + (high - 0xd800) * 0x400 + (low - 0xdc00)) :: ·)
    else if isHighSurrogate high || isLowSurrogate high then none
    else (joinParts (.inr low :: rest)).map (Char.ofNat high :: ·)
  | .inr unit :: rest =>
    if isHighSurrogate unit || isLowSurrogate unit then none
    else (joinParts rest).map (Char.ofNat unit :: ·)

/-- A string after its opening quote. -/
def readString (text : List Char) : Option (Option String × List Char) := do
  let (parts, rest) ← stringParts text
  return ((joinParts parts).map String.ofList, rest)

/-- At least one digit. -/
def readDigits (text : List Char) : Option (List Char × List Char) :=
  let digits := text.takeWhile Char.isDigit
  if digits.isEmpty then none else some (digits, text.drop digits.length)

/-- A fraction or an exponent after a number, if there is one. -/
def readFraction (text : List Char) : List Char × List Char :=
  match text with
  | '.' :: rest =>
    match readDigits rest with
    | some (digits, left) => ('.' :: digits, left)
    | none => ([], text)
  | _ => ([], text)

def readExponent (text : List Char) : List Char × List Char :=
  match text with
  | mark :: rest =>
    if mark = 'e' || mark = 'E' then
      let sign := rest.takeWhile (fun c => c = '+' || c = '-') |>.take 1
      match readDigits (rest.drop sign.length) with
      | some (digits, left) => (mark :: sign ++ digits, left)
      | none => ([], text)
    else ([], text)
  | [] => ([], [])

/-- The digits before a fraction: a zero alone, or digits that do not begin with one. -/
def readInteger (text : List Char) : Option (List Char × List Char) :=
  match text with
  | '0' :: rest => some (['0'], rest)
  | _ => readDigits text

def readNumber (text : List Char) : Option (List Char × List Char) := do
  let sign := text.takeWhile (· = '-') |>.take 1
  let (digits, rest) ← readInteger (text.drop sign.length)
  let (fraction, rest) := readFraction rest
  let (exponent, rest) := readExponent rest
  return (sign ++ digits ++ fraction ++ exponent, rest)

mutual

/-- A value and the text after it. -/
def readValue : Nat → List Char → Option (Json × List Char)
  | 0, _ => none
  | fuel + 1, text =>
    match skipSpace text with
    | '"' :: rest => (readString rest).map fun (string, left) => (.str string, left)
    | 'n' :: 'u' :: 'l' :: 'l' :: rest => some (.null, rest)
    | 't' :: 'r' :: 'u' :: 'e' :: rest => some (.bool true, rest)
    | 'f' :: 'a' :: 'l' :: 's' :: 'e' :: rest => some (.bool false, rest)
    | '[' :: rest =>
      match skipSpace rest with
      | ']' :: left => some (.arr [], left)
      | inside => (readItems fuel inside).map fun (items, left) => (.arr items, left)
    | '{' :: rest =>
      match skipSpace rest with
      | '}' :: left => some (.obj [], left)
      | inside => (readMembers fuel inside).map fun (members, left) => (.obj members, left)
    | other => (readNumber other).map fun (number, left) => (.num number, left)

/-- At least one item, up to the closing bracket. -/
def readItems : Nat → List Char → Option (List Json × List Char)
  | 0, _ => none
  | fuel + 1, text => do
    let (item, rest) ← readValue fuel text
    match skipSpace rest with
    | ']' :: left => return ([item], left)
    | ',' :: more =>
      let (items, left) ← readItems fuel more
      return (item :: items, left)
    | _ => none

/-- At least one member, up to the closing brace. -/
def readMembers : Nat → List Char → Option (List (Option String × Json) × List Char)
  | 0, _ => none
  | fuel + 1, text => do
    match skipSpace text with
    | '"' :: rest =>
      let (key, rest) ← readString rest
      match skipSpace rest with
      | ':' :: rest =>
        let (value, rest) ← readValue fuel rest
        match skipSpace rest with
        | '}' :: left => return ([(key, value)], left)
        | ',' :: more =>
          let (members, left) ← readMembers fuel more
          return ((key, value) :: members, left)
        | _ => none
      | _ => none
    | _ => none

end

/-- The value of a whole text. Each level of nesting takes two steps and at least one character. -/
def ofText? (text : String) : Option Json := do
  let chars := text.toList
  let (value, rest) ← readValue (2 * chars.length + 2) chars
  guard (skipSpace rest).isEmpty
  return value

/-- A character inside a string. -/
def writtenChar (c : Char) : String :=
  if c = '"' then "\\\""
  else if c = '\\' then "\\\\"
  else if c = '\x08' then "\\b"
  else if c = '\x0c' then "\\f"
  else if c = '\n' then "\\n"
  else if c = '\r' then "\\r"
  else if c = '\t' then "\\t"
  else if c.toNat < 0x10 then "\\u000" ++ Numeral.hexDigits c.toNat
  else if c.toNat < 0x20 then "\\u00" ++ Numeral.hexDigits c.toNat
  else c.toString

/-- A string in quotes. -/
def writtenString (text : String) : String :=
  "\"" ++ String.join (text.toList.map writtenChar) ++ "\""

end Json

end RngLowering
