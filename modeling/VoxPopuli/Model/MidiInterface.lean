import VoxPopuli.Model.Definitions

/-! # The MIDI interface

`midiinterface.cpp`: the ports which are open, in a list, among the child nodes and in the
JSON, and the triggers which have MIDI definitions. Together with them stand the events, whose
callbacks the interface binds to its ports.
-/

namespace VoxPopuli

/-- An event, by its virtual remote and its button. -/
abbrev EventRef := VRef × Button

structure Midi where
  /-- `MidiInterface::_ports`. -/
  ports : List Nat := []
  portName : Nat → QString := fun _ => []
  isInPort : Nat → Bool := fun _ => false
  /-- `RtMidi::isPortOpen`. -/
  isPortOpen : Nat → Bool := fun _ => false
  portJson : Nat → QJsonObject := fun _ => []
  /-- The child nodes of the interface. -/
  subnodes : List Nat := []
  json : QJsonObject := []
  /-- Numbers from here on have not been given to a port. -/
  freshPort : Nat := 0
  /-- The names of the input and of the output ports of the system. -/
  portsName : Bool → QStringList := fun _ => []
  keyboard : QStringList → Option Bool := fun _ => none
  events : EventRef → EventNode := fun _ => {}
  /-- `_midiEventTriggers`, by event and name. -/
  midiEventTriggers : List (EventRef × QString) := []
  log : List (EventRef × Effect) := []

namespace Midi

/-! ## Ports -/

def portByName (m : Midi) (inPort : Bool) (portName : QString) : Option Nat :=
  m.ports.find? fun p => m.portName p = portName ∧ m.isInPort p = inPort

def surroundings (m : Midi) : Surroundings := ⟨m.portByName, m.keyboard⟩

/-- `EventTrigger::updateEventTrigger` of a trigger of an event. -/
def updateTrigger (m : Midi) (t : EventRef × QString) : Midi :=
  { m with
    events := Function.update m.events t.1 ((m.events t.1).setTrigger t.2
      (((m.events t.1).callbacks t.2).update m.surroundings (m.events t.1).inEvents "M")) }

def updateEventTriggers (m : Midi) : Midi := m.midiEventTriggers.foldl updateTrigger m

/-- A member of the JSON of a port, with its copy in the interface. -/
def putPort (m : Midi) (p : Nat) (key : QString) (v : QJsonValue) : Midi :=
  let o := (m.portJson p).insert key v
  { m with
    portJson := Function.update m.portJson p o
    json := m.json.insert (m.portName p) (.object o) }

/-- `setString` and `setNumber` of a port. -/
def assignPort (m : Midi) (p : Nat) (key : QString) (same : QJsonValue → Bool) (v : QJsonValue) :
    SetError × Midi :=
  if ((m.portJson p).value key).elim false same then (.sameValue, m)
  else (.noError, m.putPort p key v)

def setPortString (m : Midi) (p : Nat) (key value : QString) : SetError × Midi :=
  m.assignPort p key (fun | .string s => s = value | _ => false) (.string value)

def setPortNumber (m : Midi) (p : Nat) (key : QString) (value : ℚ) : SetError × Midi :=
  m.assignPort p key (fun | .double d => d = value | _ => false) (.double value)

def setOpen (m : Midi) (p : Nat) (isOpen : Bool) : Midi :=
  { m with isPortOpen := Function.update m.isPortOpen p isOpen }

/-- `MidiPort::setValue`. A port of the system is opened by its number or its name; any other
    name opens a virtual port, which `isPortOpen` does not count. -/
def setPortValue (m : Midi) (p : Nat) (name value : QString) : SetError × Midi :=
  if name = "port" then
    if value.isEmpty then (m.setOpen p false).setPortString p name value
    else
      let portID? : Option Int :=
        match value.toInt? with
        | some n => some n
        | none => ((m.portsName (m.isInPort p)).idxOf? value).map Int.ofNat
      let store (m : Midi) : SetError × Midi :=
        match value.toInt? with
        | some n => m.setPortNumber p name n
        | none => m.setPortString p name value
      match portID? with
      | none => store m
      | some portID =>
          if portID = -1 then store m
          else if 0 ≤ portID ∧ portID < (m.portsName (m.isInPort p)).length then
            store (m.setOpen p true)
          else m.setPortString p name ""
  else (if (m.portJson p).contains name then .readOnly else .doesNotExist, m)

def createMidiPortJSon (inPort : Bool) (port : QString) : QJsonObject := QJsonObject.build
  [("port", .string port), ("type", .string (if inPort then "in" else "out"))]

/-- `createSubNode` with such a document. -/
def createPort (m : Midi) (name : QString) (inPort : Bool) (port : QString) : Bool × Midi :=
  let p := m.freshPort
  let m := { m with
    portName := Function.update m.portName p name
    isInPort := Function.update m.isInPort p inPort
    isPortOpen := Function.update m.isPortOpen p false
    portJson := Function.update m.portJson p []
    freshPort := m.freshPort + 1 }
  if (' ' : QChar) ∈ name then (false, m)
  else
    let m := (m.setPortValue p "port" port).2
    let data := createMidiPortJSon inPort port
    (true, { m with
      portJson := Function.update m.portJson p data
      json := m.json.insert name (.object data)
      subnodes := m.subnodes ++ [p]
      ports := m.ports ++ [p] })

/-! ### Ports of a document -/

/-- The loop of `populateNode` for a port, which has no child nodes. -/
def populatePortMembers (m : Midi) (p : Nat) : QJsonObject → Bool × Midi
  | [] => (true, m)
  | (k, v) :: rest =>
      match v with
      | .object _ => (false, m)
      | .array _ | .null => m.populatePortMembers p rest
      | .bool b => (m.setPortValue p k (if b then "true" else "false")).2.populatePortMembers p rest
      | .string s => (m.setPortValue p k s).2.populatePortMembers p rest
      | .double d => (m.setPortValue p k (QString.ofDouble d)).2.populatePortMembers p rest

/-- A port keeps its document, and the interface lists it. -/
def adoptPort (m : Midi) (p : Nat) (data : QJsonObject) : Midi :=
  { m with
    portJson := Function.update m.portJson p data
    json := m.json.insert (m.portName p) (.object data)
    subnodes := m.subnodes ++ [p] }

/-- What is done when an object is refused: a port which has data is populated with it. It
    stores nothing but under the key which it is given, so that the members which the loop has
    not come to are as they were. -/
def repopulatePort (p : Nat) : Nat → Midi → Except Fault Midi
  | depth, m =>
      if (m.portJson p).isEmpty then pure m
      else
        match depth with
        | 0 => throw .stackOverflow
        | depth + 1 =>
            match m.populatePortMembers p (m.portJson p) with
            | (true, m') => pure (m'.adoptPort p (m'.portJson p))
            | (false, m') => repopulatePort p depth m'

def populatePort (m : Midi) (p : Nat) (data : QJsonObject) : Except Fault (Bool × Midi) :=
  if (' ' : QChar) ∈ m.portName p then pure (false, m)
  else
    match m.populatePortMembers p data with
    | (true, m) => pure (true, m.adoptPort p data)
    | (false, m) => do
        let m ← repopulatePort p World.stackDepth m
        pure (false, m)

def createSubNode (m : Midi) (name : QString) (data : QJsonObject) : Except Fault (Bool × Midi) :=
  if data.contains "type" then do
    let p := m.freshPort
    let m := { m with
      portName := Function.update m.portName p name
      isInPort := Function.update m.isInPort p (data.toString "type" = "in")
      isPortOpen := Function.update m.isPortOpen p false
      portJson := Function.update m.portJson p []
      freshPort := m.freshPort + 1 }
    let (populated, m) ← m.populatePort p data
    -- The destructor of a refused port closes it.
    pure (populated, if populated then { m with ports := m.ports ++ [p] } else m.setOpen p false)
  else pure (false, m)

/-! ### Commands for ports -/

def addPort (m : Midi) (portName : QString) (inPort : Bool) (port : QString) : Bool × Midi :=
  if m.ports.any fun p =>
      QVariant.toString ((m.portJson p).value "port") = port ∧ m.isInPort p = inPort then
    (false, m)
  else (true, (m.createPort portName inPort port).2.updateEventTriggers)

def removePort (m : Midi) (portName : QString) : Bool × Midi :=
  match m.ports.find? fun p => m.portName p = portName with
  | none => (false, m)
  | some p =>
      (true, { m with
        json := m.json.remove portName
        subnodes := m.subnodes.erase p
        ports := m.ports.erase p }.updateEventTriggers)

/-- `rename` of a port. No trigger is updated. -/
def renamePort (m : Midi) (p : Nat) (name : QString) : Bool × Midi :=
  if m.json.contains name then (false, m)
  else
    (true, { m with
      portName := Function.update m.portName p name
      json := (m.json.remove (m.portName p)).insert name (.object (m.portJson p)) })

/-! ## Events -/

/-- The callbacks which a call runs. The one of a port which has been closed is bound to an
    object which is gone. -/
def runEffects (m : Midi) (e : EventRef) (effects : List Effect) : Except Fault Midi :=
  effects.foldlM (fun (m : Midi) effect =>
    match effect with
    | .callback _ _ (.midi p _ _ _) _ =>
        if p ∈ m.ports then pure { m with log := m.log ++ [(e, effect)] } else throw .useAfterFree
    | _ => pure { m with log := m.log ++ [(e, effect)] }) m

/-- `MidiInterface::addEventTrigger`. -/
def addEventTrigger (m : Midi) (t : EventRef × QString) : Midi :=
  if t ∈ m.midiEventTriggers then m else { m with midiEventTriggers := m.midiEventTriggers ++ [t] }

/-- `MidiInterface::removeEventTrigger`. -/
def removeEventTrigger (m : Midi) (t : EventRef × QString) : Midi :=
  { m with midiEventTriggers := m.midiEventTriggers.erase t }

/-- `Event::addEvent`, with the registration of the trigger. -/
def addEvent (m : Midi) (e : EventRef) (definition trigger : QString) : Except Fault Midi := do
  let (added, n, effects) := (m.events e).addEvent m.surroundings definition trigger
  let m ← m.runEffects e effects
  let m := { m with events := Function.update m.events e n }
  pure (if added ∧ definition.head? = some ('M' : QChar) then m.addEventTrigger (e, trigger) else m)

/-- `Event::removeEvent`. The trigger is taken out when its last MIDI definition has gone. -/
def removeEvent (m : Midi) (e : EventRef) (definition trigger : QString) : Except Fault Midi := do
  let held := definition ∈ ((m.events e).callbacks trigger).keys
  let (_, n, effects) := (m.events e).removeEvent definition trigger
  let m ← m.runEffects e effects
  let m := { m with events := Function.update m.events e n }
  pure (if held ∧ definition.head? = some ('M' : QChar) ∧ !(n.callbacks trigger).holdsMidi then
    m.removeEventTrigger (e, trigger) else m)

def triggerEvent (m : Midi) (e : EventRef) (trigger : QString) : Except Fault Midi :=
  m.runEffects e ((m.events e).triggerEvent trigger).2

end Midi

/-! ## Commands -/

/-- The commands for the interface, its ports and the events. -/
inductive MidiOp where
  | openPort (name : QString) (inPort : Bool) (port : QString)
  | closePort (name : QString)
  | renamePort (name newName : QString)
  | setPort (name key value : QString)
  | addEvent (e : EventRef) (definition trigger : QString)
  | removeEvent (e : EventRef) (definition trigger : QString)
  | triggerEvent (e : EventRef) (trigger : QString)

namespace MidiOp

/-- The port which the console finds under a name. -/
def port? (m : Midi) (name : QString) : Option Nat := m.subnodes.find? fun p => m.portName p = name

def perform (m : Midi) : MidiOp → Except Fault Midi
  | openPort name inPort port => pure (m.addPort name inPort port).2
  | closePort name => pure (m.removePort name).2
  | renamePort name newName =>
      pure (match port? m name with
        | none => m
        | some p => (m.renamePort p newName).2)
  | setPort name key value =>
      pure (match port? m name with
        | none => m
        | some p => (m.setPortValue p key value).2)
  | addEvent e definition trigger => m.addEvent e definition trigger
  | removeEvent e definition trigger => m.removeEvent e definition trigger
  | triggerEvent e trigger => m.triggerEvent e trigger

end MidiOp

end VoxPopuli
