/-!
# Byte strings and their text

Files, paths and streams hold bytes; messages hold text.  This module ties the two together:
`Bytes.ofString` is the UTF-8 form of a text, `Bytes.text?` reads it back exactly, and
`Bytes.lossy` reads any bytes at all, with U+FFFD for every maximal ill-formed part.

Main facts: `text?_ofString` (text survives the round trip) and `ofString_append`.
-/

namespace Depot

abbrev Bytes := List UInt8

namespace Bytes

def ofString (s : String) : Bytes := s.toByteArray.data.toList

def text? (bs : Bytes) : Option String := String.fromUTF8? ⟨bs.toArray⟩

@[simp] theorem ofString_append (s t : String) :
    ofString (s ++ t) = ofString s ++ ofString t := by
  simp [ofString]

theorem ofString_injective {s t : String} (h : ofString s = ofString t) : s = t := by
  rw [← String.toByteArray_inj]
  have harr : s.toByteArray.data = t.toByteArray.data := Array.toList_inj.1 h
  cases hs : s.toByteArray
  cases ht : t.toByteArray
  simp_all

@[simp] theorem text?_ofString (s : String) : text? (ofString s) = some s := by
  have harr : (⟨(ofString s).toArray⟩ : ByteArray) = s.toByteArray := by simp [ofString]
  rw [text?, harr, String.fromUTF8?, dif_pos s.isValidUTF8]
  rfl

def isContinuation (b : UInt8) : Bool := 0x80 ≤ b && b ≤ 0xBF

/-- The range of second bytes that may follow the lead byte of a character of three bytes. -/
def secondOfThree (lead b : UInt8) : Bool :=
  if lead == 0xE0 then 0xA0 ≤ b && b ≤ 0xBF
  else if lead == 0xED then 0x80 ≤ b && b ≤ 0x9F
  else isContinuation b

/-- The range of second bytes that may follow the lead byte of a character of four bytes. -/
def secondOfFour (lead b : UInt8) : Bool :=
  if lead == 0xF0 then 0x90 ≤ b && b ≤ 0xBF
  else if lead == 0xF4 then 0x80 ≤ b && b ≤ 0x8F
  else isContinuation b

def low6 (b : UInt8) : Nat := b.toNat % 64

def replacement : Char := '\uFFFD'

def lossyChars : Bytes → List Char
  | [] => []
  | a :: rest =>
    if a < 0x80 then Char.ofNat a.toNat :: lossyChars rest
    else if 0xC2 ≤ a && a ≤ 0xDF then
      match rest with
      | b :: rest₂ =>
        if isContinuation b then
          Char.ofNat (a.toNat % 32 * 64 + low6 b) :: lossyChars rest₂
        else replacement :: lossyChars (b :: rest₂)
      | [] => [replacement]
    else if 0xE0 ≤ a && a ≤ 0xEF then
      match rest with
      | b :: rest₂ =>
        if secondOfThree a b then
          match rest₂ with
          | c :: rest₃ =>
            if isContinuation c then
              Char.ofNat ((a.toNat % 16 * 64 + low6 b) * 64 + low6 c) :: lossyChars rest₃
            else replacement :: lossyChars (c :: rest₃)
          | [] => [replacement]
        else replacement :: lossyChars (b :: rest₂)
      | [] => [replacement]
    else if 0xF0 ≤ a && a ≤ 0xF4 then
      match rest with
      | b :: rest₂ =>
        if secondOfFour a b then
          match rest₂ with
          | c :: rest₃ =>
            if isContinuation c then
              match rest₃ with
              | d :: rest₄ =>
                if isContinuation d then
                  Char.ofNat (((a.toNat % 8 * 64 + low6 b) * 64 + low6 c) * 64 + low6 d)
                    :: lossyChars rest₄
                else replacement :: lossyChars (d :: rest₄)
              | [] => [replacement]
            else replacement :: lossyChars (c :: rest₃)
          | [] => [replacement]
        else replacement :: lossyChars (b :: rest₂)
      | [] => [replacement]
    else replacement :: lossyChars rest

/-- The text of the bytes for messages: exact where they are UTF-8, repaired elsewhere. -/
def lossy (bs : Bytes) : String := String.ofList (lossyChars bs)

end Bytes

end Depot
