import MiniScript.Json.Number

/-!
# Reading JSON

The reader follows the grammar strictly: no comments, no trailing commas, no
control characters inside strings, no lone surrogates, no number beyond the
range of the doubles, and fewer than 128 brackets open at once.
-/

namespace MiniScript.Json

def isBlankChar (char : Char) : Bool :=
  char == ' ' || char == '\t' || char == '\n' || char == '\r'

def skipBlanks (chars : List Char) : List Char :=
  chars.dropWhile isBlankChar

def hexDigit? (char : Char) : Option Nat :=
  if char.isDigit then some (char.toNat - 48)
  else if 'a' ≤ char && char ≤ 'f' then some (char.toNat - 87)
  else if 'A' ≤ char && char ≤ 'F' then some (char.toNat - 55)
  else none

/-- Four hexadecimal digits in front of `chars`. -/
def readHexFour : List Char → Option (Nat × List Char)
  | a :: b :: c :: d :: rest => do
      let a ← hexDigit? a
      let b ← hexDigit? b
      let c ← hexDigit? c
      let d ← hexDigit? d
      some (((a * 16 + b) * 16 + c) * 16 + d, rest)
  | _ => none

/-- The character of an escape with four digits, which may need a second one to complete a pair. -/
def readUnicodeEscape (chars : List Char) : Option (Char × List Char) := do
  let (first, rest) ← readHexFour chars
  if 0xD800 ≤ first && first < 0xDC00 then
    match rest with
    | '\\' :: 'u' :: more => do
        let (second, after) ← readHexFour more
        if 0xDC00 ≤ second && second < 0xE000 then
          some (Char.ofNat (0x10000 + (first - 0xD800) * 0x400 + (second - 0xDC00)), after)
        else none
    | _ => none
  else if 0xDC00 ≤ first && first < 0xE000 then none
  else some (Char.ofNat first, rest)

/-- The character that a backslash and the characters after it stand for. -/
def readEscape : List Char → Option (Char × List Char)
  | '"' :: rest => some ('"', rest)
  | '\\' :: rest => some ('\\', rest)
  | '/' :: rest => some ('/', rest)
  | 'b' :: rest => some ('\x08', rest)
  | 'f' :: rest => some ('\x0c', rest)
  | 'n' :: rest => some ('\n', rest)
  | 'r' :: rest => some ('\r', rest)
  | 't' :: rest => some ('\t', rest)
  | 'u' :: rest => readUnicodeEscape rest
  | _ => none

/-- The characters of a string after its opening quote, gathered in reverse. -/
def readString : Nat → List Char → List Char → Option (String × List Char)
  | 0, _, _ => none
  | _ + 1, _, [] => none
  | fuel + 1, gathered, char :: rest =>
      if char = '"' then some (String.ofList gathered.reverse, rest)
      else if char = '\\' then
        match readEscape rest with
        | some (meant, after) => readString fuel (meant :: gathered) after
        | none => none
      else if char.toNat < 0x20 then none
      else readString fuel (char :: gathered) rest

/-- The digits in front, if there is at least one. -/
def readDigits (chars : List Char) : Option (List Char × List Char) :=
  let digits := chars.takeWhile Char.isDigit
  if digits.isEmpty then none else some (digits, chars.dropWhile Char.isDigit)

def readFraction : List Char → Option (List Char × List Char)
  | '.' :: rest => (readDigits rest).map fun (digits, after) => ('.' :: digits, after)
  | rest => some ([], rest)

def readExponentPart : List Char → Option (List Char × List Char)
  | 'e' :: rest => signedDigits 'e' rest
  | 'E' :: rest => signedDigits 'E' rest
  | rest => some ([], rest)
where
  signedDigits (mark : Char) : List Char → Option (List Char × List Char)
    | '+' :: rest => (readDigits rest).map fun (digits, after) => (mark :: '+' :: digits, after)
    | '-' :: rest => (readDigits rest).map fun (digits, after) => (mark :: '-' :: digits, after)
    | rest => (readDigits rest).map fun (digits, after) => (mark :: digits, after)

/-- A zero alone, or digits that do not start with zero. -/
def readWhole : List Char → Option (List Char × List Char)
  | '0' :: rest =>
      match rest with
      | next :: _ => if next.isDigit then none else some (['0'], rest)
      | [] => some (['0'], [])
  | rest => readDigits rest

def readNumber (chars : List Char) : Option (Json × List Char) := do
  let (sign, chars) :=
    match chars with
    | '-' :: rest => (['-'], rest)
    | rest => ([], rest)
  let (whole, chars) ← readWhole chars
  let (fraction, chars) ← readFraction chars
  let (exponent, chars) ← readExponentPart chars
  let number := Json.number (String.ofList (sign ++ whole ++ fraction ++ exponent))
  match number.toFloat? with
  | some _ => some (number, chars)
  | none => none

def stripWord : List Char → List Char → Option (List Char)
  | [], rest => some rest
  | char :: word, next :: rest => if char = next then stripWord word rest else none
  | _ :: _, [] => none

mutual

/-- A value in front of `chars`, with at most `depth` brackets open. -/
def readValue : Nat → Nat → List Char → Option (Json × List Char)
  | 0, _, _ => none
  | fuel + 1, depth, chars =>
      match skipBlanks chars with
      | [] => none
      | '"' :: rest =>
          (readString (rest.length + 1) [] rest).map fun (text, after) => (.string text, after)
      | '[' :: rest =>
          match depth with
          | 0 => none
          | depth + 1 =>
              match skipBlanks rest with
              | ']' :: after => some (.array [], after)
              | _ => readItems fuel depth [] rest
      | '{' :: rest =>
          match depth with
          | 0 => none
          | depth + 1 =>
              match skipBlanks rest with
              | '}' :: after => some (.object [], after)
              | _ => readFields fuel depth [] rest
      | 'n' :: rest => (stripWord ['u', 'l', 'l'] rest).map fun after => (.null, after)
      | 't' :: rest => (stripWord ['r', 'u', 'e'] rest).map fun after => (.bool true, after)
      | 'f' :: rest => (stripWord ['a', 'l', 's', 'e'] rest).map fun after => (.bool false, after)
      | chars => readNumber chars

/-- The items of an array after those gathered in reverse, up to the closing bracket. -/
def readItems : Nat → Nat → List Json → List Char → Option (Json × List Char)
  | 0, _, _, _ => none
  | fuel + 1, depth, gathered, chars =>
      match readValue fuel depth chars with
      | none => none
      | some (item, rest) =>
          match skipBlanks rest with
          | ',' :: more => readItems fuel depth (item :: gathered) more
          | ']' :: after => some (.array (item :: gathered).reverse, after)
          | _ => none

/-- The fields of an object after those gathered in reverse, up to the closing brace. -/
def readFields : Nat → Nat → List (String × Json) → List Char → Option (Json × List Char)
  | 0, _, _, _ => none
  | fuel + 1, depth, gathered, chars =>
      match skipBlanks chars with
      | '"' :: start =>
          match readString (start.length + 1) [] start with
          | none => none
          | some (name, rest) =>
              match skipBlanks rest with
              | ':' :: rest =>
                  match readValue fuel depth rest with
                  | none => none
                  | some (value, rest) =>
                      match skipBlanks rest with
                      | ',' :: more => readFields fuel depth ((name, value) :: gathered) more
                      | '}' :: after => some (.object ((name, value) :: gathered).reverse, after)
                      | _ => none
              | _ => none
      | _ => none

end

/-- The document that makes up the whole of `text`. -/
def read? (text : String) : Option Json :=
  let chars := text.toList
  match readValue (chars.length + 1) 127 chars with
  | some (document, rest) => if (skipBlanks rest).isEmpty then some document else none
  | none => none

end MiniScript.Json
