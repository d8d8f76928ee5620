import VoxPopuli.Misc

/-! # The firmware of a remote

`Main.ino`: the globals of the sketch, the handling of one received frame and
one turn of `loop`. What a turn meets outside (the bytes which are available,
the levels of the buttons, the battery reading) is an argument of it; waiting for
the sleep pin is left out. `skipProcessFlag` is never set, so it is left out too.
-/

namespace VoxPopuli

structure Firmware where
  activeMute : Bool := false
  ibRx : Nat := 0
  ibTx : Nat := 0
  bufferRx : Vector Byte 20 := Vector.replicate 20 0
  bufferTx : Vector Byte 20 := Vector.replicate 20 0
  buttonBuff : Fin 5 → Bool := fun _ => true
  /-- `LED1Status`, `LED2Status` and `LED3Status`. -/
  ledStatus : Fin 3 → Byte := fun _ => 0
  /-- The last `analogWrite` to the pins of the LEDs. -/
  ledOutput : Fin 3 → Byte := fun _ => 0

namespace Firmware

/-! ## Frame alphabet -/

def FRAME_END : Byte := 0xFF
def SLEEP_CMD : Byte := 0xC8
def ACTIVE_MODE_CMD : Byte := 0x96
def MUTE_MODE_CMD : Byte := 0x64
def ASK_MODE_CMD : Byte := 0x50
def BATT_STATUS_CMD : Byte := 0x10
def LED_CMD : Byte := 0x20
def LED1_CMD : Byte := 0x21
def LED2_CMD : Byte := 0x22
def LED3_CMD : Byte := 0x23

def BUTTON_ACTION_TX : Byte := 0xB4

/-- Left, up, right, down, action. -/
def buttonLabel : Vector Byte 5 := #v[0xB0, 0xB1, 0xB2, 0xB3, BUTTON_ACTION_TX]

def BATT_STATUS_TX : Byte := 0x10

/-! ## Transmission -/

def txToBuffer (fw : Firmware) : List Byte → Except Fault Firmware
  | [] => pure fw
  | b :: rest =>
      if h : fw.ibTx < 20 then
        { fw with bufferTx := fw.bufferTx.set fw.ibTx b, ibTx := fw.ibTx + 1 }.txToBuffer rest
      else throw .outOfRange

/-- The bytes which are written and the emptied buffer. -/
def transmitTx (fw : Firmware) : List Byte × Firmware :=
  (fw.bufferTx.toList.take fw.ibTx, { fw with ibTx := 0 })

/-! ## Handlers -/

def setActiveMode (fw : Firmware) : Firmware := { fw with activeMute := true }

def setMuteMode (fw : Firmware) : Firmware := { fw with activeMute := false }

/-- The time is ignored, and so is the second message. -/
def setSleepMode (fw : Firmware) : Except Fault Firmware :=
  fw.txToBuffer [0x41, 0x54, 0x53, 0x4D, 4]

def batteryStatus (fw : Firmware) (adc : Fin 1024) : Except Fault Firmware :=
  let sensorValue := adc.val / 1023 * 255
  let sensorValue := if sensorValue = 255 then 254 else sensorValue
  fw.txToBuffer [BATT_STATUS_TX, Fin.ofNat 256 sensorValue, FRAME_END]

/-- What is written to the pin of an LED for a value: 254 lights it fully. -/
def realValue (value : Byte) : Byte := if value = 254 then 255 else value

def toggleLED (fw : Firmware) (value : Byte) : Except Fault Firmware :=
  if value = 255 then
    fw.txToBuffer [LED_CMD, fw.ledStatus 0, fw.ledStatus 1, fw.ledStatus 2, FRAME_END]
  else
    pure { fw with ledOutput := fun _ => realValue value, ledStatus := fun _ => value }

/-- The handler of one LED: 255 asks for its status, which is sent under `reply`. -/
def toggle (fw : Firmware) (reply : Byte) (i : Fin 3) (value : Byte) : Except Fault Firmware :=
  if value = 255 then fw.txToBuffer [reply, fw.ledStatus i, FRAME_END]
  else
    pure { fw with
      ledOutput := Function.update fw.ledOutput i (realValue value)
      ledStatus := Function.update fw.ledStatus i value }

def toggleLED1 (fw : Firmware) (value : Byte) : Except Fault Firmware := fw.toggle LED1_CMD 0 value

def toggleLED2 (fw : Firmware) (value : Byte) : Except Fault Firmware := fw.toggle LED2_CMD 1 value

/-- The source replies under the code of the first LED. -/
def toggleLED3 (fw : Firmware) (value : Byte) : Except Fault Firmware := fw.toggle LED1_CMD 2 value

/-- One `if` of `processMessage`. -/
def onCommand (fw : Firmware) (cmd : Byte) (handler : Firmware → Except Fault Firmware) :
    Except Fault Firmware :=
  if fw.bufferRx[0] = cmd then handler fw else pure fw

def processMessage (fw : Firmware) (adc : Fin 1024) : Except Fault Firmware := do
  let fw ← fw.onCommand ACTIVE_MODE_CMD fun fw => pure fw.setActiveMode
  let fw ← fw.onCommand MUTE_MODE_CMD fun fw => pure fw.setMuteMode
  let fw ← fw.onCommand ASK_MODE_CMD fun fw =>
    fw.txToBuffer [ASK_MODE_CMD, if fw.activeMute then 1 else 0, FRAME_END]
  let fw ← fw.onCommand SLEEP_CMD fun fw => fw.setSleepMode
  let fw ← fw.onCommand BATT_STATUS_CMD fun fw => fw.batteryStatus adc
  let fw ← fw.onCommand LED_CMD fun fw => fw.toggleLED fw.bufferRx[1]
  let fw ← fw.onCommand LED1_CMD fun fw => fw.toggleLED1 fw.bufferRx[1]
  let fw ← fw.onCommand LED2_CMD fun fw => fw.toggleLED2 fw.bufferRx[1]
  fw.onCommand LED3_CMD fun fw => fw.toggleLED3 fw.bufferRx[1]

/-! ## The main loop -/

/-- What one turn of `loop` meets outside. -/
structure Surroundings where
  available : List Byte
  buttonPin : Fin 5 → Bool := fun _ => true
  adc : Fin 1024 := 0

/-- The states before and after a call of `processMessage`. -/
structure ProcessCall where
  before : Firmware
  after : Firmware

/-- One turn of the receive loop and the call of `processMessage` it makes, if any. -/
def receiveByte (fw : Firmware) (adc : Fin 1024) (b : Byte) :
    Except Fault (List ProcessCall × Firmware) :=
  if h : fw.ibRx < 20 then
    let fw := { fw with bufferRx := fw.bufferRx.set fw.ibRx b, ibRx := fw.ibRx + 1 }
    if b = FRAME_END then do
      let after ← fw.processMessage adc
      pure ([⟨fw, after⟩], { after with ibRx := 0 })
    else pure ([], fw)
  else throw .outOfRange

def receive (fw : Firmware) (adc : Fin 1024) :
    List Byte → Except Fault (List ProcessCall × Firmware)
  | [] => pure ([], fw)
  | b :: rest => do
      let (calls, fw) ← fw.receiveByte adc b
      let (later, fw) ← fw.receive adc rest
      pure (calls ++ later, fw)

/-- `tempBuffer[i]`: the level of the action button is inverted. -/
def buttonLevel (buttonPin : Fin 5 → Bool) (i : Fin 5) : Bool :=
  if buttonLabel[i] = BUTTON_ACTION_TX then !buttonPin i else buttonPin i

/-- One turn of the loop over the buttons. The message reports the level before
    the change. -/
def buttonStep (fw : Firmware) (buttonPin : Fin 5 → Bool) (i : Fin 5) : Except Fault Firmware :=
  if buttonLevel buttonPin i ≠ fw.buttonBuff i then
    { fw with buttonBuff := Function.update fw.buttonBuff i (buttonLevel buttonPin i) }.txToBuffer
      [buttonLabel[i], if fw.buttonBuff i then 1 else 0, FRAME_END]
  else pure fw

def buttonProcess (fw : Firmware) (buttonPin : Fin 5 → Bool) : Except Fault Firmware :=
  (List.finRange 5).foldlM (fun fw i => fw.buttonStep buttonPin i) fw

/-- The calls of `processMessage`, the bytes which are sent and the state after a turn. -/
def loop (fw : Firmware) (s : Surroundings) :
    Except Fault (List ProcessCall × List Byte × Firmware) := do
  let (calls, fw) ← fw.receive s.adc s.available
  let fw ← (if fw.activeMute then fw.buttonProcess s.buttonPin else pure fw)
  pure (calls, fw.transmitTx)

/-- Turn after turn of `loop`. -/
def run (fw : Firmware) :
    List Surroundings → Except Fault (List ProcessCall × List Byte × Firmware)
  | [] => pure ([], [], fw)
  | s :: rest => do
      let (calls, sent, fw) ← fw.loop s
      let (laterCalls, laterSent, fw) ← fw.run rest
      pure (calls ++ laterCalls, sent ++ laterSent, fw)

end Firmware

end VoxPopuli
