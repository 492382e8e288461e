import Mathlib.Data.List.Basic

/-
  Byte strings, the model of `std::string`. A string holds
  arbitrary bytes, so nothing here assumes an encoding.

  Key definitions include:
    * `ByteString`
    * `char2hex`
    * `ByteString.rfind`
    * `tokenize`
-/

namespace Inks

/- The bytes of a `std::string`. -/
abbrev ByteString :=
  List UInt8

namespace Ascii

def newline : UInt8 := 0x0A

def space : UInt8 := 0x20

def percent : UInt8 := 0x25

def ampersand : UInt8 := 0x26

def plus : UInt8 := 0x2B

def dot : UInt8 := 0x2E

def slash : UInt8 := 0x2F

def equals : UInt8 := 0x3D

def question : UInt8 := 0x3F

end Ascii

/- The bytes of a literal. -/
def text
    (s : String) : ByteString :=
  s.toUTF8.data.toList

/- The value of a hex digit, and -1 for any other byte. -/
def char2hex
    (c : UInt8) : Int :=
  if 0x30 ≤ c ∧ c ≤ 0x39 then
    c.toNat - 0x30
  else if 0x41 ≤ c ∧ c ≤ 0x46 then
    c.toNat - 0x41 + 10
  else if 0x61 ≤ c ∧ c ≤ 0x66 then
    c.toNat - 0x61 + 10
  else
    -1

namespace ByteString

/- The first position of a byte. -/
def find
    (s : ByteString)
    (c : UInt8) : Option Nat :=
  s.findIdx? (· == c)

theorem find_eq_none
    {s : ByteString}
    {c : UInt8}
    (hNotMem : c ∉ s) :
    s.find c = none := by
  unfold find
  rw [List.findIdx?_eq_none_iff]
  intro x hMem
  have hNe : x ≠ c := by
    rintro rfl
    exact hNotMem hMem
  simpa using hNe

theorem find_append
    {front : ByteString}
    {c : UInt8}
    (hFront : c ∉ front)
    (rest : ByteString) :
    (front ++ c :: rest).find c = some front.length := by
  have hNone := find_eq_none hFront
  unfold find at hNone ⊢
  rw [List.findIdx?_append, hNone, List.findIdx?_cons]
  simp

/- The last position of a byte below a length. -/
def rfind
    (s : ByteString)
    (c : UInt8) : Nat → Option Nat
| 0 => none
| n + 1 =>
    if s[n]? = some c then some n else s.rfind c n

theorem rfind_lt
    {s : ByteString}
    {c : UInt8}
    {len n : Nat}
    (hFound : s.rfind c len = some n) :
    n < len := by
  induction len with
  | zero => cases hFound
  | succ len ih =>
      unfold rfind at hFound
      split at hFound
      · cases hFound
        omega
      · have hLt := ih hFound
        omega

end ByteString

/- The non-empty pieces between delimiters. -/
def tokenize
    (input : ByteString)
    (droppedDelims : List UInt8) : List ByteString :=
  (input.splitOnP (droppedDelims.contains ·)).filter
    (fun token => !token.isEmpty)

end Inks
