import VoxPopuli.Misc

/-! # Hexadecimal text and the operators of `HexData`

The part of `misc.cpp` which event definitions need: text is read two digits a byte,
and `operator+` fills a new vector by index.
-/

namespace VoxPopuli

/-! ## Text as bytes -/

namespace QChar

def isHighSurrogate (u : QChar) : Bool := 0xD800 ≤ u.val ∧ u.val < 0xDC00

def isLowSurrogate (u : QChar) : Bool := 0xDC00 ≤ u.val ∧ u.val < 0xE000

/-- UTF-8 of a code unit which is no half of a pair; a lone half becomes a question mark. -/
def toUtf8 (u : QChar) : StdString :=
  if u.val < 0x80 then [Fin.ofNat 256 u.val]
  else if u.val < 0x800 then
    [Fin.ofNat 256 (0xC0 + u.val / 0x40), Fin.ofNat 256 (0x80 + u.val % 0x40)]
  else if u.isHighSurrogate ∨ u.isLowSurrogate then [63]
  else
    [Fin.ofNat 256 (0xE0 + u.val / 0x1000), Fin.ofNat 256 (0x80 + u.val / 0x40 % 0x40),
      Fin.ofNat 256 (0x80 + u.val % 0x40)]

/-- UTF-8 of a pair. -/
def pairToUtf8 (high low : QChar) : StdString :=
  let c := 0x10000 + (high.val - 0xD800) * 0x400 + (low.val - 0xDC00)
  [Fin.ofNat 256 (0xF0 + c / 0x40000), Fin.ofNat 256 (0x80 + c / 0x1000 % 0x40),
    Fin.ofNat 256 (0x80 + c / 0x40 % 0x40), Fin.ofNat 256 (0x80 + c % 0x40)]

end QChar

def QString.toStdString : QString → StdString
  | [] => []
  | [u] => u.toUtf8
  | u :: v :: rest =>
      if u.isHighSurrogate ∧ v.isLowSurrogate then QChar.pairToUtf8 u v ++ toStdString rest
      else u.toUtf8 ++ toStdString (v :: rest)

/-- Text of ASCII characters is one byte each. -/
theorem QString.toStdString_of_ascii {s : QString} (ascii : ∀ u ∈ s, u.val < 0x80) :
    s.toStdString = s.map fun u => Fin.ofNat 256 u.val := by
  induction s using QString.toStdString.induct with
  | case1 => rfl
  | case2 u => simp [toStdString, QChar.toUtf8, ascii u List.mem_cons_self]
  | case3 u v rest pair ih =>
      have low := ascii u List.mem_cons_self
      simp [QChar.isHighSurrogate] at pair
      omega
  | case4 u v rest pair ih =>
      have low := ascii u List.mem_cons_self
      have tail := ih fun x member => ascii x (List.mem_cons_of_mem u member)
      simp [toStdString, pair, QChar.toUtf8, low, tail]

/-! ## Hexadecimal text -/

/-- Digits and upper case letters; every other character reads as 0. -/
def hexToInt (value : Byte) : Nat :=
  if 48 ≤ value.val ∧ value.val ≤ 57 then value.val - 48
  else if 65 ≤ value.val ∧ value.val ≤ 70 then value.val - 55
  else 0

/-- Two characters a byte; a single one at the end is left out. -/
def hexStrToInt : StdString → List Byte
  | c :: d :: rest => Fin.ofNat 256 (hexToInt c * 16 + hexToInt d) :: hexStrToInt rest
  | _ => []

theorem length_hexStrToInt (s : StdString) : (hexStrToInt s).length = s.length / 2 := by
  induction s using hexStrToInt.induct with
  | case1 c d rest ih =>
      simp only [hexStrToInt, List.length_cons, ih]
      omega
  | case2 s short =>
      cases s with
      | nil => rfl
      | cons c s =>
          cases s with
          | nil => simp [hexStrToInt]
          | cons d s => exact absurd rfl (short c d s)

namespace HexData

def fromHexStr (data : StdString) : HexData := hexStrToInt data

/-- `(*r)[i] = b`. -/
def store (r : HexData) (i : Nat) (b : Byte) : Except Fault HexData :=
  if i < r.length then pure (r.set i b) else throw .outOfRange

/-- `operator+` with a byte. The bytes of the operand are stored behind its own length. -/
def plusByte (d : HexData) (data : Byte) : Except Fault HexData := do
  let r ← (List.range d.length).foldlM
    (fun r i => store r (i + d.length) (d.getD i 0)) (List.replicate (d.length + 1) 0)
  store r d.length data

/-- Of a single byte nothing is left. -/
theorem plusByte_single (b data : Byte) : plusByte [b] data = .ok [0, data] := rfl

def prepend (d : HexData) (data : Byte) : HexData := data :: d

end HexData

end VoxPopuli
