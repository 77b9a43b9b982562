import Depot.Decimal.Words
import Depot.Decimal.Nearest
import Depot.Settings.Setting
import Depot.Toml.Text
/-!
# Values of TOML that are written as one word

Truth values, whole numbers of 64 bits, floating point numbers, and dates and times, which become
texts in their usual form.
-/

namespace Depot.Toml

/-- Digits without the underscores between them; an underscore has a digit on both sides. -/
def digitsOf? (isDigit : Char → Bool) : List Char → Option (List Char)
  | [] => none
  | c :: s =>
    if !isDigit c then none
    else match s with
      | [] => some [c]
      | '_' :: rest => (digitsOf? isDigit rest).map (c :: ·)
      | rest => (digitsOf? isDigit rest).map (c :: ·)

def numberOf (base : Nat) (digits : List Char) : Nat :=
  digits.foldl (fun n c => n * base + (hexValue? c).getD 0) 0

def signed : List Char → Bool × List Char
  | '+' :: s => (false, s)
  | '-' :: s => (true, s)
  | s => (false, s)

def wholeDigits? (s : List Char) : Option (List Char) := do
  match ← digitsOf? Char.isDigit s with
  | '0' :: _ :: _ => none
  | digits => return digits

def baseInteger? : List Char → Option Nat
  | '0' :: 'x' :: s => (digitsOf? (fun c => (hexValue? c).isSome) s).map (numberOf 16)
  | '0' :: 'o' :: s => (digitsOf? (fun c => '0' ≤ c && c ≤ '7') s).map (numberOf 8)
  | '0' :: 'b' :: s => (digitsOf? (fun c => c == '0' || c == '1') s).map (numberOf 2)
  | _ => none

def integer? (word : List Char) : Option Int :=
  match baseInteger? word with
  | some n => if n < wordSize 63 then some n else none
  | none => do
    let (negative, s) := signed word
    let n := numberOf 10 (← wholeDigits? s)
    if negative then if n ≤ wordSize 63 then return -(n : Int) else none
    else if n < wordSize 63 then return n else none

def exponent? (s : List Char) : Option Int := do
  let (negative, s) := signed s
  let n := numberOf 10 (← digitsOf? Char.isDigit s)
  return if negative then -(n : Int) else n

/-- A floating point number; it has a point or an exponent, and is not too large. -/
def real? (word : List Char) : Option Float := do
  let (negative, s) := signed word
  let sign (x : Float) : Float := if negative then -x else x
  if s = "inf".toList then return sign (1 / 0)
  if s = "nan".toList then return sign (0 / 0)
  let isMark (c : Char) : Bool := c == 'e' || c == 'E'
  let mantissa := s.takeWhile (!isMark ·)
  let exponent ← match s.dropWhile (!isMark ·) with
    | [] => some none
    | _ :: s => (exponent? s).map some
  let whole ← wholeDigits? (mantissa.takeWhile (· ≠ '.'))
  let fraction ← match mantissa.dropWhile (· ≠ '.') with
    | [] => some none
    | _ :: s => (digitsOf? Char.isDigit s).map some
  if fraction = none ∧ exponent = none then none
  let places := fraction.getD []
  let x := nearestFloat (numberOf 10 (whole ++ places)) (exponent.getD 0 - places.length)
  if x.isInf then none else return sign x

def fixedDigits? (count : Nat) (s : List Char) : Option (Nat × List Char) :=
  let digits := s.take count
  if digits.length = count ∧ digits.all Char.isDigit then
    some (numberOf 10 digits, s.drop count)
  else none

def daysOf (year month : Nat) : Nat :=
  if month = 2 then
    if year % 4 = 0 ∧ (year % 100 ≠ 0 ∨ year % 400 = 0) then 29 else 28
  else if month ∈ [4, 6, 9, 11] then 30
  else 31

def takeDate (s : List Char) : Option (List Char × List Char) := do
  let (year, r) ← fixedDigits? 4 s
  let (month, r) ← fixedDigits? 2 (← readMark '-' r)
  let (day, r) ← fixedDigits? 2 (← readMark '-' r)
  if 1 ≤ month ∧ month ≤ 12 ∧ 1 ≤ day ∧ day ≤ daysOf year month then
    return (s.take 10, r)
  else none

/-- The seconds of a time, as they are shown: nine places at most and no zeros at their end. -/
def takeSeconds (s : List Char) : Option (List Char × List Char) := do
  let (second, r) ← fixedDigits? 2 s
  if 60 < second then none
  match r with
  | '.' :: r =>
    let digits := r.takeWhile Char.isDigit
    if digits = [] then none
    let kept := ((digits.take 9).reverse.dropWhile (· = '0')).reverse
    let kept := if kept = [] then ['0'] else kept
    return (s.take 2 ++ '.' :: kept, r.dropWhile Char.isDigit)
  | r => return (s.take 2, r)

def takeTime (s : List Char) : Option (List Char × List Char) := do
  let (hour, r) ← fixedDigits? 2 s
  let (minute, r) ← fixedDigits? 2 (← readMark ':' r)
  if 24 ≤ hour ∨ 60 ≤ minute then none
  match r with
  | ':' :: r =>
    let (seconds, r) ← takeSeconds r
    return (s.take 5 ++ ':' :: seconds, r)
  | r => return (s.take 5, r)

def offset? (s : List Char) : Option (List Char) := do
  match s with
  | [] => return []
  | ['Z'] | ['z'] => return ['Z']
  | sign :: s =>
    if sign ≠ '+' ∧ sign ≠ '-' then none
    let (hour, r) ← fixedDigits? 2 s
    let (minute, r) ← fixedDigits? 2 (← readMark ':' r)
    if r = [] ∧ hour < 24 ∧ minute < 60 then return sign :: s else none

def dateTime? (word : List Char) : Option String :=
  match takeDate word with
  | some (date, []) => some (String.ofList date)
  | some (date, mark :: s) => do
    if mark ≠ 'T' ∧ mark ≠ 't' ∧ mark ≠ ' ' then none
    let (time, r) ← takeTime s
    return String.ofList (date ++ 'T' :: time ++ (← offset? r))
  | none => do
    let (time, r) ← takeTime word
    if r = [] then return String.ofList time else none

def scalar? (word : List Char) : Option Setting :=
  if word = "true".toList then some (.boolean true)
  else if word = "false".toList then some (.boolean false)
  else match integer? word, real? word, dateTime? word with
    | some i, _, _ => some (.integer i)
    | _, some x, _ => some (.real x)
    | _, _, some t => some (.text t)
    | none, none, none => none

def endsWord (c : Char) : Bool := " \t\r\n,]\x7d#=[\x7b\"'".toList.contains c

/-- Takes a word and yields its value; a space may part a date from its time. -/
def readScalar : Reader Setting := fun s => do
  let word := s.takeWhile (!endsWord ·)
  let rest := s.dropWhile (!endsWord ·)
  match takeDate word, rest with
  | some (_, []), ' ' :: c :: more =>
    if c.isDigit then
      let second := (c :: more).takeWhile (!endsWord ·)
      return (← scalar? (word ++ ' ' :: second), (c :: more).dropWhile (!endsWord ·))
    else return (← scalar? word, rest)
  | _, _ => return (← scalar? word, rest)

end Depot.Toml
