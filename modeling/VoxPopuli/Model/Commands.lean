import VoxPopuli.Model.Links

/-! # Commands

What drives the two models: the operations of the console, of the radio and of OSC
messages. Objects are named as the console names them; a command for an object which
does not exist is refused.
-/

namespace VoxPopuli

/-- Where a virtual remote stands in the virtual network. -/
inductive VPath where
  | free (name : QString)
  | global (group : QString)
  | avatar (group : QString) (i : Nat)
  deriving DecidableEq, Repr

def VPath.find (w : World) : VPath → Option VRef
  | free name => (VirtualNetwork.remoteByName w name).map .free
  | global group => (VirtualNetwork.groupByName w group).bind w.globalRemote
  | avatar group i =>
      (VirtualNetwork.groupByName w group).bind fun g => ((w.virtualRemotes g)[i]?).join

/-- The calls of the patch. -/
inductive PatchOp where
  | connect (rName vName : QString)
  | disconnect (rName vName : QString)
  | disconnectRemote (rName : QString)
  | disconnectVirtual (vName : QString)
  | parseArray (name : QString) (value : QStringList)
  | fastTriggerRemote (rName : QString) (e : FTriggerEvent) (v : HexData)
  | remoteList (vName : QString)

inductive Op where
  | patch (op : PatchOp)
  | addGroup (name : QString)
  | removeGroup (name : QString)
  | renameGroup (name newName : QString)
  | setGroup (name key value : QString)
  | addVirtualRemote (name : QString)
  | removeVirtualRemote (name : QString)
  | renameVirtualRemote (name newName : QString)
  | setVirtualRemote (path : VPath) (key value : QString)
  | autoGenerateRemote
  | addEvent (path : VPath) (b : Button) (definition trigger : QString)
  | removeEvent (path : VPath) (b : Button) (definition trigger : QString)
  | addRemote (address : QString)
  | removeRemote (address : QString)
  | emulateRemote (name osc ipPort : QString)
  | removeEmulatedRemote (name : QString)
  | renameRemote (name newName : QString)
  | setRemote (name key value : QString)
  | callLed (name value : QString)
  | setButtonState (name : QString) (b : XBEE_MSG_TYPE) (pressed : Bool)
  /-- A remote has answered on the radio. -/
  | discover (addr : List Byte)
  | tick (i : Nat)

namespace PatchOp

def perform (w : World) : PatchOp → Except Fault World
  | connect rName vName => Prod.snd <$> PatchNode.addLink w rName vName
  | disconnect rName vName => Prod.snd <$> PatchNode.removeLink w rName vName
  | disconnectRemote rName => Prod.snd <$> PatchNode.removeRemoteLinks w rName
  | disconnectVirtual vName => Prod.snd <$> PatchNode.removeVirtualLinks w vName
  | parseArray name value => Prod.snd <$> PatchNode.parseArray w name value
  | fastTriggerRemote rName e v => PatchNode.fastTriggerRemote w rName e v
  | remoteList vName => Prod.snd <$> PatchNode.remoteList w vName

end PatchOp

namespace Op

/-- A command for an object which may not exist. -/
def on {α : Type} (object : Option α) (w : World) (f : α → Except Fault World) :
    Except Fault World :=
  match object with
  | none => pure w
  | some a => f a

def perform (w : World) : Op → Except Fault World
  | patch op => op.perform w
  | addGroup name => Prod.snd <$> VirtualNetwork.addGroup w name
  | removeGroup name => pure (VirtualNetwork.removeGroup w name).2
  | renameGroup name newName => on (VirtualNetwork.groupByName w name) w fun g =>
      pure (w.rename (.group g) newName).2
  | setGroup name key value => on (VirtualNetwork.groupByName w name) w fun g =>
      Prod.snd <$> VirtualGroup.setValue w g key value
  | addVirtualRemote name => Prod.snd <$> VirtualNetwork.addRemote w name
  | removeVirtualRemote name => pure (VirtualNetwork.removeRemote w name).2
  | renameVirtualRemote name newName => on (VirtualNetwork.remoteByName w name) w fun n =>
      pure (w.rename (.vRemote (.free n)) newName).2
  | setVirtualRemote path key value => on (path.find w) w fun v =>
      Prod.snd <$> VirtualRemote.setValue w v key value
  | autoGenerateRemote => VirtualNetwork.autoGenerateRemote w
  | addEvent path b definition trigger => on (path.find w) w fun v =>
      pure (Event.addEvent w v b definition trigger).2
  | removeEvent path b definition trigger => on (path.find w) w fun v =>
      pure (Event.removeEvent w v b definition trigger).2
  | addRemote address => Prod.snd <$> RemoteList.addRemote w address
  | removeRemote address => pure (RemoteList.removeRemote w address)
  | emulateRemote name osc ipPort => Prod.snd <$> RemoteList.emulateRemote w name osc ipPort
  | removeEmulatedRemote name => pure (RemoteList.removeEmulatedRemote w name).2
  | renameRemote name newName => on (RemoteList.byName w name) w fun r =>
      pure (w.rename (.remote r) newName).2
  | setRemote name key value => on (RemoteList.byName w name) w fun r =>
      Prod.snd <$> Remote.set w r key value
  | callLed name value => on (RemoteList.byName w name) w fun r =>
      pure (Remote.callLed w r value).2
  | setButtonState name b pressed => on (RemoteList.byName w name) w fun r =>
      Remote.setButtonState w r b pressed
  | discover addr => pure { w with xbeeRemotes := w.xbeeRemotes ++ [{ addr := addr }] }
  | tick i => pure (w.tick i).2

end Op

namespace World

/-- One command after the other. -/
def run (w : World) (ops : List Op) : Except Fault World := ops.foldlM Op.perform w

/-- The JSON of the nodes after startup with the files which are delivered. -/
def initialJson : NodeRef → QJsonObject
  | .network => QJsonObject.build
      [("USBPort", .string ""), ("Remotes", .object []), ("Patch", .object [])]
  | .eventModel => QJsonObject.build
      [("Midi", .object []),
        ("OSC", .object (QJsonObject.build
          [("port", .double 9001), ("address", .string "/VPDeamon/")])),
        ("VirtualNet", .object [])]
  | _ => []

/-- The child nodes after startup. -/
def initialSubnodes : NodeRef → List NodeRef
  | .network => [.patch, .remoteList]
  | .eventModel => [.virtualNet]
  | _ => []

/-- The state after startup, with a view of the mutex. -/
def initial (mutex : MutexState) (accepts : QString → Option Bool) : World :=
  { mutex := mutex, accepts := accepts, json := initialJson, subnodes := initialSubnodes }

/-- A state which some commands lead to. -/
def Reachable (mutex : MutexState) (w : World) : Prop :=
  ∃ accepts ops, (initial mutex accepts).run ops = .ok w

end World

end VoxPopuli
