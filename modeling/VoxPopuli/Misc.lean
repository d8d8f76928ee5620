import VoxPopuli.Qt

/-! # Bytes

`misc.cpp`: hexadecimal text and `HexData`, a vector of bytes.
-/

namespace VoxPopuli

/-- How a computation of the program can go wrong instead of returning. -/
inductive Fault where
  /-- A lock of a mutex which the same chain of calls already holds. -/
  | deadlock
  | nullPointer
  /-- An access outside a container or an array. -/
  | outOfRange
  /-- An object is used after it has been deleted. -/
  | useAfterFree
  /-- A function calls itself until the stack is used up. -/
  | stackOverflow
  deriving DecidableEq, Repr

/-- `JSonNode::SetError`. -/
inductive SetError where
  | sameValue
  | noError
  | doesNotExist
  | readOnly
  | wrongArg
  deriving DecidableEq, Repr

/-- A remote has three LEDs and five buttons. -/
instance Led.neZero : NeZero 3 := ⟨by decide⟩

instance Button.neZero : NeZero 5 := ⟨by decide⟩

/-- `std::string`, a sequence of bytes. -/
abbrev StdString := List Byte

def StdString.ofString (s : String) : StdString := s.toList.map fun c => Fin.ofNat 256 c.toNat

instance : Coe String StdString := ⟨StdString.ofString⟩

/-- The digit of a value below 16; everything else reads as `F`. -/
def intToHex (value : Nat) : Char := "0123456789ABCDEF".toList.getD value 'F'

/-- `QString::fromStdString(intToHexStr(v))`. -/
def intToHexStr (v : List Byte) : QString :=
  v.flatMap fun b => [QChar.ofChar (intToHex (b.val / 16)), QChar.ofChar (intToHex (b.val % 16))]

theorem hexDigit_injective : ∀ m < 16, ∀ n < 16,
    QChar.ofChar (intToHex m) = QChar.ofChar (intToHex n) → m = n := by
  decide

theorem intToHexStr_injective {v v' : List Byte} (same : intToHexStr v = intToHexStr v') :
    v = v' := by
  induction v generalizing v' with
  | nil =>
      cases v' with
      | nil => rfl
      | cons b' v' => cases same
  | cons b v ih =>
      cases v' with
      | nil => cases same
      | cons b' v' =>
          have parts : QChar.ofChar (intToHex (b.val / 16)) :: QChar.ofChar (intToHex (b.val % 16)) ::
              intToHexStr v = QChar.ofChar (intToHex (b'.val / 16)) ::
                QChar.ofChar (intToHex (b'.val % 16)) :: intToHexStr v' := same
          obtain ⟨high, rest⟩ := List.cons.inj parts
          obtain ⟨low, tail⟩ := List.cons.inj rest
          have high := hexDigit_injective _ (by omega) _ (by omega) high
          have low := hexDigit_injective _ (by omega) _ (by omega) low
          rw [ih tail, Fin.ext (by omega : b.val = b'.val)]

/-- The bytes of a `HexData`. -/
abbrev HexData := List Byte

namespace HexData

/-- Little-endian, in a 32-bit `unsigned int`; 0 when there are more than 32 bytes. -/
def toInt (d : HexData) : Nat :=
  if d.length > 32 then 0 else d.foldr (fun b r => (r * 256 + b.val) % 2 ^ 32) 0

/-- Conversion of an `int` or `unsigned` argument to the one-byte constructor. -/
def ofInt (n : Int) : HexData := [Fin.ofNat 256 (n % 256).toNat]

def strData (d : HexData) : StdString := d

end HexData

/-- `FTriggerEvent`, in the order of its values. -/
inductive FTriggerEvent where
  | up
  | down
  | right
  | left
  | action
  | led
  | led1
  | led2
  | led3
  deriving DecidableEq, Repr

namespace FTriggerEvent

def toNat : FTriggerEvent → Nat
  | up => 0
  | down => 1
  | right => 2
  | left => 3
  | action => 4
  | led => 5
  | led1 => 6
  | led2 => 7
  | led3 => 8

def eventName : FTriggerEvent → QString
  | up => "Up"
  | down => "Down"
  | right => "Right"
  | left => "Left"
  | action => "Action"
  | led => "LED"
  | led1 | led2 | led3 => ""

def eventID (e : QString) : FTriggerEvent :=
  if e = "Up" then up
  else if e = "Down" then down
  else if e = "Left" then left
  else if e = "Right" then right
  else if e = "Action" then action
  else led

end FTriggerEvent

/-- `XBEE_MSG_TYPE`. -/
inductive XBEE_MSG_TYPE where
  | LED_INTENSITY
  | LED1_INTENSITY
  | LED2_INTENSITY
  | LED3_INTENSITY
  | MUTE_MODE
  | ACTIVE_MODE
  | BUTTON_LEFT
  | BUTTON_UP
  | BUTTON_RIGHT
  | BUTTON_DOWN
  | BUTTON_ACTION
  | FRAME_END
  deriving DecidableEq, Repr

def XBEE_MSG_TYPE.code : XBEE_MSG_TYPE → Byte
  | LED_INTENSITY => 0x20
  | LED1_INTENSITY => 0x21
  | LED2_INTENSITY => 0x22
  | LED3_INTENSITY => 0x23
  | MUTE_MODE => 0x64
  | ACTIVE_MODE => 0x96
  | BUTTON_LEFT => 0xB0
  | BUTTON_UP => 0xB1
  | BUTTON_RIGHT => 0xB2
  | BUTTON_DOWN => 0xB3
  | BUTTON_ACTION => 0xB4
  | FRAME_END => 0xFF

end VoxPopuli
