import Taxonomy.Decimal.Reader
import Taxonomy.Toml.Text
import Taxonomy.Toml.Value

/-!
# Numbers, dates and times of a TOML document

Integers have 64 bits and may be written in base 10, 16, 8 or 2; underscores may stand between
digits. A float that is too large is an error above and infinite below zero. A date, a time or both
is kept as the text with two digits for each part, at most nine for the fraction of a second, and
none at its end.
-/

namespace Taxonomy.Toml

/-- Digits after a first one, underscores between two of them left out, and the rest. An underscore
without a digit after it is an error. -/
def readMoreDigits (isDigit : Char → Bool) : List Char → Option (List Char × List Char)
  | [] => some ([], [])
  | c :: rest =>
    if isDigit c then (readMoreDigits isDigit rest).map fun r => (c :: r.1, r.2)
    else if c = '_' then
      match rest with
      | d :: _ => if isDigit d then readMoreDigits isDigit rest else none
      | [] => none
    else some ([], c :: rest)

/-- One digit or more. -/
def readDigits (isDigit : Char → Bool) : List Char → Option (List Char × List Char)
  | c :: rest => if isDigit c then readMoreDigits isDigit (c :: rest) else none
  | [] => none

/-- A sign or none. -/
def readSign : List Char → List Char × List Char
  | c :: rest => if c = '+' || c = '-' then ([c], rest) else ([], c :: rest)
  | [] => ([], [])

/-- The whole part of a decimal number: 0, or digits that do not start with 0. -/
def readWhole : List Char → Option (List Char × List Char)
  | '0' :: rest => some (['0'], rest)
  | cs => readDigits Char.isDigit cs

/-- A point and digits, if there is a point. -/
def readFraction : List Char → Option (List Char × List Char)
  | '.' :: rest => (readDigits Char.isDigit rest).map fun r => ('.' :: r.1, r.2)
  | cs => some ([], cs)

/-- The letter `e`, a sign or none, and digits, if there is the letter. -/
def readExponent : List Char → Option (List Char × List Char)
  | c :: rest =>
    if c = 'e' || c = 'E' then
      let sign := readSign rest
      (readDigits Char.isDigit sign.2).map fun r => ('e' :: sign.1 ++ r.1, r.2)
    else some ([], c :: rest)
  | [] => some ([], [])

/-- An integer in base 10. -/
def integer? (lexeme : List Char) : Option Toml :=
  (Decimal.int64OfChars? lexeme).map .integer

/-- A float, unless it is too large. -/
def float? (lexeme : List Char) : Option Toml :=
  match Decimal.ofChars? lexeme with
  | some (.infinite false) => none
  | some x => some (.float x)
  | none => none

/-- Infinity or no number at all, after a sign. -/
def special? (sign : List Char) : List Char → Option (Toml × List Char)
  | 'i' :: 'n' :: 'f' :: rest => some (.float (.infinite (sign == ['-'])), rest)
  | 'n' :: 'a' :: 'n' :: rest => some (.float .nan, rest)
  | _ => none

/-- A number in base 10, after a sign. -/
def readDecimal (sign : List Char) (cs : List Char) : Option (Toml × List Char) :=
  match readWhole cs with
  | none => none
  | some (whole, rest) =>
    match readFraction rest with
    | none => none
    | some (fraction, rest) =>
      match readExponent rest with
      | none => none
      | some (exponent, rest) =>
        let value :=
          if fraction.isEmpty && exponent.isEmpty then integer? (sign ++ whole)
          else float? (sign ++ whole ++ fraction ++ exponent)
        value.map fun v => (v, rest)

/-- An integer in another base than 10, after the marks that name the base. -/
def readBased (base : Nat) (cs : List Char) : Option (Toml × List Char) :=
  match readDigits (Text.isDigitOf base) cs with
  | none => none
  | some (digits, rest) =>
    let n := Text.natOfDigits base digits
    if Decimal.fitsInt64 n then some (.integer n, rest) else none

/-- A number in any form. -/
def readNumber : List Char → Option (Toml × List Char)
  | '0' :: 'x' :: rest => readBased 16 rest
  | '0' :: 'o' :: rest => readBased 8 rest
  | '0' :: 'b' :: rest => readBased 2 rest
  | cs =>
    let sign := readSign cs
    match special? sign.1 sign.2 with
    | some r => some r
    | none => readDecimal sign.1 sign.2

/-- A number of exactly `count` digits between two bounds, and the rest. -/
def readFixed (count low high : Nat) (cs : List Char) : Option (List Char × List Char) :=
  let digits := cs.take count
  let n := Decimal.natOfDigits digits
  if digits.length = count && digits.all Char.isDigit && low ≤ n && n ≤ high then
    some (digits, cs.drop count)
  else none

/-- The given character, and the rest. -/
def readMark (mark : Char) : List Char → Option (List Char × List Char)
  | c :: rest => if c = mark then some ([c], rest) else none
  | [] => none

/-- Runs readers one after the other and joins what they read. -/
def readAll :
    List (List Char → Option (List Char × List Char)) → List Char →
      Option (List Char × List Char)
  | [], cs => some ([], cs)
  | reader :: readers, cs =>
    match reader cs with
    | none => none
    | some (text, rest) => (readAll readers rest).map fun r => (text ++ r.1, r.2)

def daysIn (year month : Nat) : Nat :=
  if month = 2 then
    if year % 4 = 0 && (year % 100 != 0 || year % 400 = 0) then 29 else 28
  else if month = 4 || month = 6 || month = 9 || month = 11 then 30
  else 31

/-- A date that exists. -/
def readDate (cs : List Char) : Option (List Char × List Char) :=
  let date :=
    readAll [readFixed 4 0 9999, readMark '-', readFixed 2 1 12, readMark '-', readFixed 2 1 31] cs
  date.filter fun r =>
    let year := Decimal.natOfDigits (r.1.take 4)
    let month := Decimal.natOfDigits ((r.1.drop 5).take 2)
    Decimal.natOfDigits (r.1.drop 8) ≤ daysIn year month

/-- The fraction of a second, if there is a point with a digit after it: cut to nine digits, zeros
at the end left out. -/
def readSecondFraction (cs : List Char) : Option (List Char × List Char) :=
  match cs with
  | '.' :: rest =>
    match rest.takeWhile Char.isDigit with
    | [] => some ([], cs)
    | digits =>
      let kept := ((digits.take 9).reverse.dropWhile (· == '0')).reverse
      some (if kept.isEmpty then [] else '.' :: kept, rest.dropWhile Char.isDigit)
  | _ => some ([], cs)

def readTime (cs : List Char) : Option (List Char × List Char) :=
  readAll
    [readFixed 2 0 23, readMark ':', readFixed 2 0 59, readMark ':', readFixed 2 0 60,
      readSecondFraction] cs

/-- The distance from universal time; nothing at all is written as it is. -/
def readOffset : List Char → Option (List Char × List Char)
  | 'Z' :: rest | 'z' :: rest => some (['Z'], rest)
  | c :: rest =>
    if c = '+' || c = '-' then
      (readAll [readFixed 2 0 23, readMark ':', readFixed 2 0 59] rest).map fun r =>
        (if r.1 = "00:00".toList then '+' :: r.1 else c :: r.1, r.2)
    else none
  | [] => none

/-- A time of day after a date, set off by a letter or a blank, with an offset or none. -/
def readTimeAfterDate : List Char → Option (List Char × List Char)
  | c :: rest =>
    if c = 'T' || c = 't' || c = ' ' then
      match readTime rest with
      | none => none
      | some (time, rest) =>
        let offset := (readOffset rest).getD ([], rest)
        some ('T' :: time ++ offset.1, offset.2)
    else none
  | [] => none

/-- A date, a date with a time, or a time alone. -/
def readDateTime (cs : List Char) : Option (Toml × List Char) :=
  let read :=
    match readDate cs with
    | some (date, rest) =>
      let time := (readTimeAfterDate rest).getD ([], rest)
      some (date ++ time.1, time.2)
    | none => readTime cs
  read.map fun r => (.datetime (String.ofList r.1), r.2)

end Taxonomy.Toml
