import Depot.Json.Basic
/-!
# Strings of JSON

`Json.readChars` reads a string behind its opening quote, `Json.writeChars` escapes one.  Main
fact: `readChars_writeChars`, what was written is read back, whatever follows it.
-/

namespace Depot.Json

def unescape? : Char → Option Char
  | '"' => some '"'
  | '\\' => some '\\'
  | '/' => some '/'
  | 'b' => some '\x08'
  | 'f' => some '\x0c'
  | 'n' => some '\n'
  | 'r' => some '\r'
  | 't' => some '\t'
  | _ => none

def hexValue? (c : Char) : Option Nat :=
  if '0' ≤ c ∧ c ≤ '9' then some (c.toNat - '0'.toNat)
  else if 'a' ≤ c ∧ c ≤ 'f' then some (c.toNat - 'a'.toNat + 10)
  else if 'A' ≤ c ∧ c ≤ 'F' then some (c.toNat - 'A'.toNat + 10)
  else none

def hexUnit? (a b c d : Char) : Option Nat := do
  return (((← hexValue? a) * 16 + (← hexValue? b)) * 16 + (← hexValue? c)) * 16 + (← hexValue? d)

def isLeading (n : Nat) : Bool := 0xD800 ≤ n && n ≤ 0xDBFF

def isTrailing (n : Nat) : Bool := 0xDC00 ≤ n && n ≤ 0xDFFF

def shortEscape (s : List Char) : Fault :=
  if (String.ofList s).utf8ByteSize < 4 then .truncated else .malformed

def readUnit : Reader Nat
  | a :: b :: c :: d :: rest =>
    match hexUnit? a b c d with
    | some n => .ok (n, rest)
    | none => .error .malformed
  | s => .error (shortEscape s)

def readSecondHalf (n : Nat) : Reader Char
  | [] => .error .truncated
  | ['\\'] => .error .truncated
  | '\\' :: 'u' :: rest => do
    let (m, rest) ← readUnit rest
    if isTrailing m then
      return (Char.ofNat ((n - 0xD800) * 0x400 + (m - 0xDC00) + 0x10000), rest)
    else throw .malformed
  | _ => .error .malformed

def readEscape : Reader Char
  | [] => .error .truncated
  | e :: rest =>
    if e = 'u' then do
      let (n, rest) ← readUnit rest
      if isTrailing n then throw .malformed
      else if isLeading n then readSecondHalf n rest
      else return (Char.ofNat n, rest)
    else match unescape? e with
      | some c => .ok (c, rest)
      | none => .error .malformed

def skipEscape : Reader Char
  | [] => .error .truncated
  | e :: rest =>
    if e = 'u' then do
      let (_, rest) ← readUnit rest
      return ('u', rest)
    else match unescape? e with
      | some c => .ok (c, rest)
      | none => .error .malformed

def readChar (escape : Reader Char) : Reader (Option Char)
  | [] => .error .truncated
  | c :: rest =>
    if c = '"' then .ok (none, rest)
    else if c = '\\' then do
      let (x, rest) ← escape rest
      return (some x, rest)
    else if c.toNat < 0x20 then .error .malformed
    else .ok (some c, rest)

def readUntilQuote (escape : Reader Char) : (fuel : Nat) → Reader (List Char)
  | 0, _ => .error .malformed
  | fuel + 1, s => do
    match ← readChar escape s with
    | (none, rest) => return ([], rest)
    | (some c, rest) =>
      let (cs, rest) ← readUntilQuote escape fuel rest
      return (c :: cs, rest)

/-- Reads a string behind its opening quote; no string has more characters than its text. -/
def readChars : Reader (List Char) := fun s => readUntilQuote readEscape (s.length + 1) s

def skipChars : Reader Unit := fun s => do
  let (_, rest) ← readUntilQuote skipEscape (s.length + 1) s
  return ((), rest)

def hexDigit (n : Nat) : Char := "0123456789abcdef".toList.getD n '0'

def writeChar (c : Char) : List Char :=
  match c with
  | '"' => ['\\', '"']
  | '\\' => ['\\', '\\']
  | '\x08' => ['\\', 'b']
  | '\x0c' => ['\\', 'f']
  | '\n' => ['\\', 'n']
  | '\r' => ['\\', 'r']
  | '\t' => ['\\', 't']
  | c =>
    if c.toNat < 0x20 then
      ['\\', 'u', '0', '0', hexDigit (c.toNat / 16), hexDigit (c.toNat % 16)]
    else [c]

def writeChars (cs : List Char) : List Char := cs.flatMap writeChar

def writeString (s : String) : List Char := '"' :: writeChars s.toList ++ ['"']

theorem readEscape_short {e x : Char} (hu : e ≠ 'u') (h : unescape? e = some x)
    (rest : List Char) : readEscape (e :: rest) = .ok (x, rest) := by
  simp [readEscape, hu, h]

theorem readEscape_unit {a b c d : Char} {n : Nat} (h : hexUnit? a b c d = some n)
    (ht : isTrailing n = false) (hl : isLeading n = false) (rest : List Char) :
    readEscape ('u' :: a :: b :: c :: d :: rest) = .ok (Char.ofNat n, rest) := by
  simp [readEscape, readUnit, h, ht, hl, bind, Except.bind, pure, Except.pure]

private theorem writeChar_control : ∀ n < 32,
    (['b', 'f', 'n', 'r', 't'].any fun e => writeChar (Char.ofNat n) = ['\\', e] ∧
      unescape? e = some (Char.ofNat n)) = true ∨
    (['0', '1'].any fun a => "0123456789abcdef".toList.any fun b =>
      writeChar (Char.ofNat n) = ['\\', 'u', '0', '0', a, b] ∧
        hexUnit? '0' '0' a b = some n) = true := by
  decide

private theorem readChar_escape {x : Char} {s rest : List Char}
    (h : readEscape s = .ok (x, rest)) :
    readChar readEscape ('\\' :: s) = .ok (some x, rest) := by
  simp [readChar, h, bind, Except.bind, pure, Except.pure]

theorem readChar_writeChar (c : Char) (rest : List Char) :
    readChar readEscape (writeChar c ++ rest) = .ok (some c, rest) := by
  by_cases hlow : c.toNat < 0x20
  · have hc : Char.ofNat c.toNat = c := Char.ofNat_toNat c
    have h := writeChar_control c.toNat hlow
    simp only [List.any_eq_true, decide_eq_true_eq] at h
    rcases h with ⟨e, he, hw, hx⟩ | ⟨a, -, b, -, hw, hx⟩
    · simp only [hc] at hw hx
      have hu : e ≠ 'u' := by rintro rfl; simp at he
      rw [hw]
      exact readChar_escape (readEscape_short hu hx rest)
    · simp only [hc] at hw
      rw [hw]
      have ht : isTrailing c.toNat = false := by simp [isTrailing]; omega
      have hl : isLeading c.toNat = false := by simp [isLeading]; omega
      simpa [hc] using readChar_escape (readEscape_unit hx ht hl rest)
  · by_cases hq : c = '"'
    · subst hq
      rfl
    · by_cases hb : c = '\\'
      · subst hb
        rfl
      · have hw : writeChar c = [c] := by
          unfold writeChar
          split <;> simp_all
        rw [hw]
        simp [readChar, hq, hb, hlow]

theorem length_writeChar_pos (c : Char) : 0 < (writeChar c).length := by
  unfold writeChar
  split <;> (try split) <;> simp

private theorem readUntilQuote_writeChars (cs rest : List Char) :
    ∀ fuel, cs.length < fuel →
      readUntilQuote readEscape fuel (writeChars cs ++ '"' :: rest) = .ok (cs, rest) := by
  induction cs with
  | nil =>
    intro fuel hf
    cases fuel with
    | zero => simp at hf
    | succ fuel =>
      simp [readUntilQuote, writeChars, readChar, bind, Except.bind, pure, Except.pure]
  | cons c cs ih =>
    intro fuel hf
    cases fuel with
    | zero => simp at hf
    | succ fuel =>
      have h := ih fuel (by simpa using hf)
      rw [writeChars] at h
      rw [writeChars, List.flatMap_cons, List.append_assoc, readUntilQuote, readChar_writeChar]
      simp only [bind, Except.bind, h]
      rfl

theorem length_le_writeChars (cs : List Char) : cs.length ≤ (writeChars cs).length := by
  induction cs with
  | nil => simp
  | cons c cs ih =>
    have h := length_writeChar_pos c
    simp only [writeChars, List.flatMap_cons, List.length_append, List.length_cons] at ih ⊢
    omega

theorem readChars_writeChars (cs rest : List Char) :
    readChars (writeChars cs ++ '"' :: rest) = .ok (cs, rest) := by
  have h := length_le_writeChars cs
  exact readUntilQuote_writeChars cs rest _ (by simp; omega)

end Depot.Json
