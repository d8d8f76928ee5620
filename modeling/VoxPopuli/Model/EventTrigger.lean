import VoxPopuli.HexData
import VoxPopuli.Model.NetworkModel

/-! # Event definitions

`eventtrigger.cpp` with the MIDI events of `midiinterface.cpp`: a definition is a text such
as `M|port:channel|type|data`. It is parsed when it is added to a trigger, and if there is
a port of its name it gets a callback which is bound to that port.
-/

namespace VoxPopuli

/-! ## MIDI events -/

inductive MidiEvent where
  | NOTE_OFF
  | NOTE_ON
  | POLY_AFTER_TOUCH
  | CC
  | PROGRAM_CHANGE
  | AFTER_TOUCH
  | PITCH_BEND
  | SYSTEM_COMMON
  deriving DecidableEq, Repr

/-- The lower case of ASCII letters, and of the two other characters which fold to one. -/
def QChar.foldCase (c : QChar) : QChar :=
  if 65 ≤ c.val ∧ c.val ≤ 90 then c + 32
  else if c.val = 0x17F then 's'
  else if c.val = 0x212A then 'k'
  else c

/-- `!s.compare(t, Qt::CaseInsensitive)` for an ASCII text `t`. -/
def QString.sameIgnoringCase (s t : QString) : Bool :=
  s.map QChar.foldCase = t.map QChar.foldCase

namespace MidiEvent

/-- The value in the enumeration. -/
def code : MidiEvent → Nat
  | NOTE_OFF => 0x08
  | NOTE_ON => 0x09
  | POLY_AFTER_TOUCH => 0x0A
  | CC => 0x0B
  | PROGRAM_CHANGE => 0x0C
  | AFTER_TOUCH => 0x0D
  | PITCH_BEND => 0x0E
  | SYSTEM_COMMON => 0x0F

def midiEventName : MidiEvent → QString
  | NOTE_OFF => "NoteOff"
  | NOTE_ON => "NoteOn"
  | POLY_AFTER_TOUCH => "PolyAfterTouch"
  | CC => "CC"
  | PROGRAM_CHANGE => "ProgramChange"
  | AFTER_TOUCH => "AfterTouch"
  | PITCH_BEND => "PitchBend"
  | SYSTEM_COMMON => "SystemCommon"

def midiEventFromName (name : QString) : Option MidiEvent :=
  if name.sameIgnoringCase "NoteOff" then some NOTE_OFF
  else if name.sameIgnoringCase "NoteOn" then some NOTE_ON
  else if name.sameIgnoringCase "PolyAfterTouch" then some POLY_AFTER_TOUCH
  else if name.sameIgnoringCase "CC" then some CC
  else if name.sameIgnoringCase "ProgramChange" then some PROGRAM_CHANGE
  else if name.sameIgnoringCase "AfterTouch" then some AFTER_TOUCH
  else if name.sameIgnoringCase "PitchBend" then some PITCH_BEND
  else if name.sameIgnoringCase "SystemCommon" then some SYSTEM_COMMON
  else none

/-- A text is read as an event when it is the event's name up to case. -/
theorem midiEventFromName_eq_some {name : QString} {e : MidiEvent}
    (named : midiEventFromName name = some e) :
    name.map QChar.foldCase = e.midiEventName.map QChar.foldCase := by
  unfold midiEventFromName QString.sameIgnoringCase at named
  simp only [decide_eq_true_eq] at named
  split_ifs at named
  all_goals
    cases named
    assumption

end MidiEvent

/-! ## Parsing -/

/-- Conversion of an `int` to `int8_t`. -/
def toInt8 (n : Int) : Int := (n + 128) % 256 - 128

/-- What a MIDI definition is parsed to: `event` is the number of a `MidiEvent`, or any
    other number. -/
structure MidiDefinition where
  port : QString
  channel : Int
  event : Int
  data : HexData
  deriving DecidableEq, Repr

namespace MidiDefinition

/-- The text after the colon, as `int8_t`; 17 stands for all channels. The star is compared
    with the colon still before it. -/
def channelOf? (address : QString) : Option Int :=
  let colon := address.indexOf ':'
  match (address.mid (colon + 1)).toInt? with
  | some n => some (toInt8 n)
  | none => if address.mid colon = "*" then some 17 else none

def eventOf? (type : QString) : Option Int :=
  match type.toInt? with
  | some n => some n
  | none => (MidiEvent.midiEventFromName type).map fun e => (e.code : Int)

/-- The branch of `updateEventTrigger` for MIDI, up to the look for the port. -/
def parse? (def_ : QStringList) : Option MidiDefinition :=
  match def_ with
  | [_, address, type, data] => do
      let channel ← channelOf? address
      let d := HexData.fromHexStr data.toStdString
      if d.length < 1 ∨ d.length > 2 then none
      else do
        let event ← eventOf? type
        some { port := address.left (address.indexOf ':'), channel, event, data := d }
  | _ => none

end MidiDefinition

/-! ## Triggers -/

/-- `EventCb`: a callback keeps the port it was bound to. -/
inductive EventCb where
  | midi (port : Nat) (channel event : Int) (d : HexData)
  | key (def_ : QStringList)
  deriving DecidableEq, Repr

/-- What a definition depends on besides its text. -/
structure Surroundings where
  /-- `MidiInterface::portByName`. -/
  portByName : Bool → QString → Option Nat
  /-- Whether X11 accepts a keyboard event, and then whether it gives a callback for it. -/
  keyboard : QStringList → Option Bool

/-- `updateEventTrigger` for one definition with its callback: `none` when the definition is
    refused, otherwise the callback which it has then. -/
def updateEventTrigger (s : Surroundings) (inEvent : Bool) (definition : QString)
    (cb : Option EventCb) : Option (Option EventCb) :=
  let def_ := definition.splitOn ('|' : QChar)
  match def_.head? with
  | none => none
  | some kind =>
      if kind = "M" then do
        let m ← MidiDefinition.parse? def_
        match s.portByName inEvent m.port with
        | none => some cb
        | some port =>
            if inEvent then some cb else some (some (.midi port m.channel m.event m.data))
      else if kind = "K" then
        if inEvent then none
        else if def_.length ≠ 3 then none
        else if cb.isSome then some cb
        else (s.keyboard def_).map fun hasCallback => if hasCallback then some (.key def_) else none
      else none

/-- The callback of a MIDI definition: bound to the port of its name if there is one, otherwise
    left as it is. -/
theorem updateEventTrigger_midi {definition : QString} (s : Surroundings) (inEvent : Bool)
    (midi : (definition.splitOn ('|' : QChar)).head? = some ("M" : QString)) (cb : Option EventCb) :
    updateEventTrigger s inEvent definition cb =
      (MidiDefinition.parse? (definition.splitOn ('|' : QChar))).map fun m =>
        match s.portByName inEvent m.port with
        | none => cb
        | some port => if inEvent then cb else some (.midi port m.channel m.event m.data) := by
  unfold updateEventTrigger
  simp only [midi, if_true]
  cases MidiDefinition.parse? (definition.splitOn ('|' : QChar)) with
  | none => rfl
  | some m =>
      simp only [Option.bind_eq_bind, Option.bind_some, Option.map_some]
      cases s.portByName inEvent m.port with
      | none => rfl
      | some port => cases inEvent <;> rfl

/-- Other definitions do not depend on the ports. -/
theorem updateEventTrigger_other {s s' : Surroundings} (keyboard : s'.keyboard = s.keyboard)
    {definition : QString} (inEvent : Bool)
    (other : (definition.splitOn ('|' : QChar)).head? ≠ some ("M" : QString)) (cb : Option EventCb) :
    updateEventTrigger s' inEvent definition cb = updateEventTrigger s inEvent definition cb := by
  unfold updateEventTrigger
  cases kind : (definition.splitOn ('|' : QChar)).head? with
  | none => simp only [kind]
  | some kind' =>
      have notMidi : kind' ≠ ("M" : QString) := by
        intro same
        exact other (by rw [kind, same])
      simp only [kind, notMidi, if_false, keyboard]

/-- `EventTrigger::_callbacks`. -/
abbrev Callbacks := SortedMap QString (Option EventCb)

/-- What is seen of an event from outside. -/
inductive Effect where
  /-- A callback runs. -/
  | callback (trigger definition : QString) (cb : EventCb) (data : Byte)
  /-- The signal of that name. -/
  | triggrered (trigger : QString) (data : Byte)
  deriving DecidableEq, Repr

namespace Callbacks

/-- `EventTrigger::addEvent`. -/
def addEvent (s : Surroundings) (inEvent : Bool) (callbacks : Callbacks) (definition : QString) :
    Bool × Callbacks :=
  match updateEventTrigger s inEvent definition none with
  | none => (false, callbacks.erase definition)
  | some cb => (true, callbacks.insert definition cb)

/-- `EventTrigger::removeEvent`. -/
def removeEvent (callbacks : Callbacks) (definition : QString) : Bool × Callbacks :=
  if (callbacks.find? definition).isNone then (false, callbacks)
  else (true, callbacks.erase definition)

/-- Whether a definition of the trigger starts with an `M`. -/
def holdsMidi (callbacks : Callbacks) : Bool :=
  callbacks.keys.any fun d => d.head? = some ('M' : QChar)

/-- `EventTrigger::updateEventTrigger` with a type of events. A definition which is refused
    keeps its callback. -/
def update (s : Surroundings) (inEvent : Bool) (eventType : QString) (callbacks : Callbacks) :
    Callbacks :=
  callbacks.mapEntries fun definition cb =>
    if eventType <+: definition then (updateEventTrigger s inEvent definition cb).getD cb else cb

/-- `EventTrigger::trigger`. -/
def trigger (callbacks : Callbacks) (name : QString) (data : Byte) : List Effect :=
  (callbacks.entries.filterMap fun (definition, cb) =>
    cb.map fun cb => Effect.callback name definition cb data) ++ [.triggrered name data]

end Callbacks

/-! ## Sending -/

namespace MidiPort

/-- The loop of `send` over the channels: each message is put in front of `d`, which the
    next one is put in front of again. -/
def sendLoop (event : Int) : List Int → HexData → List HexData
  | [], _ => []
  | c :: cs, d =>
      let d := d.prepend (Byte.ofInt (c + 0x10 * event))
      d :: sendLoop event cs d

/-- `send` of an event: the messages for an open port, and whether all of them were sent. -/
def send (isPortOpen : Bool) (channel event : Int) (d : HexData) : Bool × List HexData :=
  let channels := if channel ≤ 16 then [channel] else (List.range 17).map Int.ofNat
  if isPortOpen then (true, sendLoop event channels d) else (false, [])

end MidiPort

/-- The call of a MIDI callback. -/
def EventCb.sendMidi (isPortOpen : Bool) (channel event : Int) (d : HexData) (data : Byte) :
    Except Fault (List HexData) := do
  let d ← if d.length = 1 then d.plusByte data else pure d
  pure (MidiPort.send isPortOpen channel event d).2

end VoxPopuli
