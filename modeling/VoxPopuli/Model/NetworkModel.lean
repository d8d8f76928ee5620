import VoxPopuli.Model.World

/-! # Remotes

`networkmodel.cpp` as far as it stays on the side of the remotes: looking remotes up,
reaching the radio behind a real one, and what is sent out to a remote, its LEDs and
its state. The buttons come in through the patch and follow there.
-/

namespace VoxPopuli

/-- `toLower` on ASCII letters. -/
def QString.toLower (s : QString) : QString :=
  s.map fun c => if 65 ≤ c.val ∧ c.val ≤ 90 then c + 32 else c

/-- Conversion of an `int` to `uint8_t`. -/
def Byte.ofInt (n : Int) : Byte := Fin.ofNat 256 (n % 256).toNat

namespace RemoteList

def byName (w : World) (name : QString) : Option Nat :=
  w.remotes.find? fun r => w.remoteName r = name

/-- `get("MAC").toString()` of a remote. -/
def macOf (w : World) (r : Nat) : QString := (w.get (.remote r) "MAC").toString

/-- `removeSubNode` and `removeAt`. -/
def drop (w : World) (r : Nat) : World :=
  { w.removeSubNode .remoteList (.remote r) with remotes := w.remotes.erase r }

def removeRemote (w : World) (address : QString) : World :=
  match w.remotes.find? fun r => macOf w r = address with
  | none => w
  | some r => drop w r

def removeEmulatedRemote (w : World) (name : QString) : Bool × World :=
  match byName w name with
  | none => (false, w)
  | some r => if w.isReal r then (false, w) else (true, drop w r)

end RemoteList

/-! ## Real remotes -/

namespace RealRemote

/-- `remote()`, as a position among the remotes of the radio. -/
def remote (w : World) (r : Nat) : Option Nat × World :=
  match w.remoteLink r with
  | some i => (some i, w)
  | none =>
      match w.xbeeRemotes.findIdx? fun x => intToHexStr x.addr = RemoteList.macOf w r with
      | some i => (some i, { w with remoteLink := Function.update w.remoteLink r (some i) })
      | none => (none, RemoteList.removeRemote w (RemoteList.macOf w r))

/-- `if(remote()) remote()->safeSendMsg(key, type, data)`. -/
def safeSendMsg (w : World) (r : Nat) (key : StdString) (type : XBEE_MSG_TYPE) (data : HexData) :
    World :=
  match remote w r with
  | (none, w) => w
  | (some i, w) =>
      { w with xbeeRemotes := w.xbeeRemotes.modify i fun x => x.safeSendMsg key type data }

/-- `RealRemote::fastTrigger` before the base class takes over. -/
def sendLed (w : World) (r : Nat) (e : FTriggerEvent) (v : HexData) : World :=
  match e with
  | .led => safeSendMsg w r "L" .LED_INTENSITY v
  | .led1 => safeSendMsg w r "L1" .LED1_INTENSITY v
  | .led2 => safeSendMsg w r "L2" .LED2_INTENSITY v
  | .led3 => safeSendMsg w r "L3" .LED3_INTENSITY v
  | _ => w

/-- `RealRemote::setValue` for the state, before the state is stored. -/
def sendState (w : World) (r : Nat) (value : QString) : World :=
  if value = "active" then safeSendMsg w r "S" .ACTIVE_MODE []
  else if value = "mute" then safeSendMsg w r "S" .MUTE_MODE []
  else (remote w r).2

end RealRemote

/-- `XBeeRemote::tick` of a remote of the radio. -/
def World.tick (w : World) (i : Nat) : Option StdString × World :=
  match w.xbeeRemotes[i]? with
  | none => (none, w)
  | some x => (x.tick.1, { w with xbeeRemotes := w.xbeeRemotes.set i x.tick.2 })

/-! ## Emulated remotes -/

namespace EmulatedRemote

/-- A stray semicolon ends the test of the colons, so the text is empty in any case. -/
def forwardIP (_ : World) (_ : Nat) : QString := ""

def forwardPort (w : World) (r : Nat) : Int :=
  let ipPort := (w.get (.remote r) "ipPort").toString
  if ipPort.count (':' : QChar) ≠ 1 then -1
  else QString.toInt ((ipPort.splitOn (':' : QChar)).getLast?.getD [])

def oscAddress (w : World) (r : Nat) : QString := (w.get (.remote r) "osc").toString

/-- `EmulatedRemote::fastTrigger` before the base class takes over. -/
def forwardLed (w : World) (r : Nat) (e : FTriggerEvent) (v : HexData) : World :=
  let name? : Option QString :=
    match e with
    | .led => some "LED"
    | .led1 => some "LED1"
    | .led2 => some "LED2"
    | .led3 => some "LED3"
    | _ => none
  match name? with
  | none => w
  | some name =>
      if forwardPort w r ≠ -1 then
        w.observe (.osc (forwardIP w r) (forwardPort w r) (oscAddress w r) name v.toInt)
      else w

end EmulatedRemote

/-! ## LEDs and state -/

namespace Remote

/-- `Remote::fastTrigger` for an LED event. -/
def storeLed (w : World) (r : Nat) (e : FTriggerEvent) (v : HexData) : SetError × World :=
  match e with
  | .led =>
      let w := (w.setNumber (.remote r) "LED1" v.toInt).2
      let w := (w.setNumber (.remote r) "LED2" v.toInt).2
      let w := (w.setNumber (.remote r) "LED3" v.toInt).2
      (.noError, w)
  | .led1 => w.setNumber (.remote r) "LED1" v.toInt
  | .led2 => w.setNumber (.remote r) "LED2" v.toInt
  | .led3 => w.setNumber (.remote r) "LED3" v.toInt
  | _ => (.wrongArg, w)

/-- `fastTrigger` of a real or emulated remote for an LED event. -/
def triggerLed (w : World) (r : Nat) (e : FTriggerEvent) (v : HexData) : SetError × World :=
  let w := w.observe (.commanded r e v)
  let w := if w.isReal r then RealRemote.sendLed w r e v else EmulatedRemote.forwardLed w r e v
  storeLed w r e v

/-- `set("State", value)` of a real or emulated remote. -/
def setState (w : World) (r : Nat) (value : QString) : SetError × World :=
  let w := w.observe (.stateSet r value)
  let w := if w.isReal r then RealRemote.sendState w r value else w
  w.setString (.remote r) "State" value

/-- The branches of the LEDs in `Remote::setValue`. -/
def setLed (w : World) (r : Nat) (e : FTriggerEvent) (value : QString) : SetError × World :=
  match value.toInt? with
  | none => (.wrongArg, w)
  | some n => triggerLed w r e [Byte.ofInt n]

/-- `Remote::setValue`, with the state as the subclass has it. -/
def setValue (w : World) (r : Nat) (name value : QString) : SetError × World :=
  if name = "LED1" then setLed w r .led1 value
  else if name = "LED2" then setLed w r .led2 value
  else if name = "LED3" then setLed w r .led3 value
  else if name = "State" then setState w r value
  else (w.unknownValue (.remote r) name, w)

/-- `LED(intensity)`. -/
def callLed (w : World) (r : Nat) (value : QString) : Bool × World :=
  match value.toInt? with
  | none => (false, w)
  | some n => (true, (triggerLed w r .led [Byte.ofInt n]).2)

end Remote

end VoxPopuli
