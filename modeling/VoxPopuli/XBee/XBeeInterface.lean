import VoxPopuli.Lib.Pending
import VoxPopuli.XBee.ReceiveRX

/-! # Remotes on the radio and in the model

`XBeeInterface` keeps the remotes which answer on the radio, `RemoteList` the remotes of
the model. Either side reaches the other through a pointer which is looked up once, and
the radio tells the model about changes by invocations, which are posted when a handler
runs in the thread of the radio and carried out at once in the main thread. The AT
commands which a handler sends while it runs may tick the device and so run further
handlers inside.
-/

namespace VoxPopuli

open Pending (Update)

/-- A pointer into `XBeeInterface::_remotes`: the memory the vector was in and the slot. -/
structure Pointer where
  storage : Nat
  slot : Nat
  deriving DecidableEq, Repr

/-- A `RealRemote` as far as the radio is concerned. -/
structure RemoteObject where
  /-- Objects have different numbers. -/
  id : Nat
  mac : QString
  /-- `_remote`. -/
  remote : Option Pointer := none
  deriving DecidableEq, Repr

/-- Where a handler runs. -/
inductive Thread where
  | xbee
  | main
  deriving DecidableEq, Repr

/-- A call of `RemoteList::addRemote` or `RemoteList::removeRemote`. -/
abbrev Invocation := Update QString

structure Daemon where
  /-- `XBeeInterface::_mac`. -/
  mac : List Byte
  /-- The memory of the vector `XBeeInterface::_remotes`. -/
  storage : Nat := 0
  /-- `XBeeInterface::_remotes`. -/
  xbeeRemotes : List XBeeRemote := []
  /-- Calls of `XBeeInterface::addRemote` which are still in `init`, the latest first. -/
  initialising : List (Thread × List Byte) := []
  /-- Invocations which have been posted to the main thread. -/
  invocations : List Invocation := []
  /-- The real remotes of `RemoteList::_remotes`. -/
  remotes : List RemoteObject := []
  /-- Real remotes after `deleteLater`. -/
  deleted : List RemoteObject := []
  fresh : Nat := 0

namespace Daemon

/-! ## The model -/

/-- `RemoteList::removeRemote`. -/
def listRemove (d : Daemon) (address : QString) : Daemon :=
  match d.remotes.find? fun r => r.mac = address with
  | none => d
  | some r => { d with remotes := d.remotes.erase r, deleted := d.deleted ++ [r] }

/-- The search of `RealRemote::remote`. -/
def findRemote (d : Daemon) (mac : QString) : Option Pointer :=
  (d.xbeeRemotes.findIdx? fun x => intToHexStr x.addr = mac).map fun i => ⟨d.storage, i⟩

/-- `RealRemote::remote` up to its effects: the pointer there is, or the one it finds. -/
def remote (d : Daemon) (r : RemoteObject) : Option Pointer := r.remote.or (d.findRemote r.mac)

/-- `RealRemote::remote` of the `k`-th remote of the list. -/
def callRemote (d : Daemon) (k : Nat) : Daemon :=
  match d.remotes[k]? with
  | none => d
  | some r =>
      match d.remote r with
      | none => d.listRemove r.mac
      | some p => { d with remotes := d.remotes.set k { r with remote := some p } }

/-- `RemoteList::addRemote`. Populating the remote calls `remote` on it before it is in
    the list. -/
def listAdd (d : Daemon) (address : QString) : Daemon :=
  if d.remotes.any fun r => r.mac = address then d
  else
    let r : RemoteObject := { id := d.fresh, mac := address, remote := d.findRemote address }
    { d with remotes := d.remotes ++ [r], fresh := d.fresh + 1 }

/-- `clearRemoteModel` through a pointer. One which points to no remote any more writes
    to memory that is not modelled. -/
def clearRemoteModel (d : Daemon) (p : Pointer) : Daemon :=
  if p.storage = d.storage then
    { d with xbeeRemotes := d.xbeeRemotes.modify p.slot fun x => { x with remoteModel := none } }
  else d

/-- `RealRemote::~RealRemote` of the remote which has waited longest for it. -/
def destroy (d : Daemon) : Daemon :=
  match d.deleted with
  | [] => d
  | r :: rest =>
      let d := { d with deleted := rest }
      match d.remote r with
      | none => d.listRemove r.mac
      | some p => d.clearRemoteModel p

/-- `sendTX` and `sendTXHex` of the `k`-th remote. -/
def sendTX (d : Daemon) (k : Nat) : Except Fault Daemon :=
  match d.remotes[k]? with
  | none => pure d
  | some r => if (d.remote r).isNone then throw .nullPointer else pure (d.callRemote k)

/-! ## Invocations -/

def perform (d : Daemon) : Invocation → Daemon
  | .add address => d.listAdd address
  | .remove address => d.listRemove address

/-- `QMetaObject::invokeMethod`. -/
def invoke (d : Daemon) (t : Thread) (i : Invocation) : Daemon :=
  match t with
  | .xbee => { d with invocations := d.invocations ++ [i] }
  | .main => d.perform i

/-- The main thread takes the next invocation. -/
def deliver (d : Daemon) : Daemon :=
  match d.invocations with
  | [] => d
  | i :: rest => { d with invocations := rest }.perform i

/-! ## The radio -/

/-- `XBeeInterface::addRemote` up to `init`. The vector may have to move. -/
def addRemote (d : Daemon) (t : Thread) (addr : List Byte) (moves : Bool) : Daemon :=
  if d.xbeeRemotes.any fun x => x.addr = addr then d
  else
    { d with
      xbeeRemotes := d.xbeeRemotes ++ [{ addr := addr }]
      storage := if moves then d.storage + 1 else d.storage
      initialising := (t, addr) :: d.initialising }

/-- The rest of the innermost `XBeeInterface::addRemote` of a thread. -/
def finishAdd (d : Daemon) (t : Thread) : Daemon :=
  match d.initialising.find? fun e => e.1 = t with
  | none => d
  | some (t, addr) =>
      { d with initialising := d.initialising.erase (t, addr) }.invoke t
        (.add (intToHexStr addr))

/-- `XBeeInterface::removeRemote`. -/
def removeRemote (d : Daemon) (t : Thread) (addr : List Byte) : Daemon :=
  match d.xbeeRemotes.findIdx? fun x => x.addr = addr with
  | none => d
  | some i =>
      { d with xbeeRemotes := d.xbeeRemotes.eraseIdx i }.invoke t (.remove (intToHexStr addr))

/-- The address in the response to a scan. -/
def scanAddress (response : List Byte) : List Byte := (response.drop 2).take 8

def handleScanResponse (d : Daemon) (t : Thread) (response : List Byte) (moves : Bool) : Daemon :=
  if response.length < 10 then d
  else if scanAddress response = d.mac then d
  else if d.xbeeRemotes.any fun x => x.addr = scanAddress response then d
  else d.addRemote t (scanAddress response) moves

/-- The callback of `prepareXBeeATCmd`; a local command has no source. What a successful
    command calls on in turn is told apart as `handleScanResponse`. -/
def atResponse (d : Daemon) (t : Thread) (source : Option (List Byte)) (failed : Bool) :
    Except Fault Daemon :=
  if failed then
    match source with
    | none => throw .nullPointer
    | some addr => pure (d.removeRemote t addr)
  else pure d

/-- `remoteModel` of an entry and the entry after it. -/
def remoteModel (d : Daemon) (x : XBeeRemote) : Option Nat × XBeeRemote :=
  match x.remoteModel with
  | some id => (some id, x)
  | none =>
      let id? := (d.remotes.find? fun r => r.mac = intToHexStr x.addr).map RemoteObject.id
      (id?, { x with remoteModel := id? })

/-- One turn of the loop over the messages, for an entry. -/
def handleMessage (d : Daemon) (x : XBeeRemote) (msg : StdString) : Except Fault XBeeRemote :=
  match XBeeRemote.buttonCall? msg with
  | none => pure x
  | some _ =>
      match d.remoteModel x with
      | (none, _) => throw .nullPointer
      | (some _, x) => pure x

/-- `xbeeTX` with the data of a frame. -/
def xbeeTX (d : Daemon) (addr : List Byte) (data : StdString) : Except Fault Daemon :=
  match d.xbeeRemotes.findIdx? fun x => x.addr = addr with
  | none => pure d
  | some i =>
      match d.xbeeRemotes[i]? with
      | none => pure d
      | some x => do
          let (msgs, left) := XBeeRemote.splitRX [] (x.rxBuffer ++ data)
          let x ← msgs.foldlM d.handleMessage { x with rxBuffer := left }
          pure { d with xbeeRemotes := d.xbeeRemotes.set i x }

/-! ## Runs -/

inductive Event where
  | scan (t : Thread) (response : List Byte) (moves : Bool)
  | finishAdd (t : Thread)
  | atResponse (t : Thread) (source : Option (List Byte)) (failed : Bool)
  | receive (addr : List Byte) (data : StdString)
  | deliver
  | remote (k : Nat)
  | sendTX (k : Nat)
  | destroy

def step (d : Daemon) : Event → Except Fault Daemon
  | .scan t response moves => pure (d.handleScanResponse t response moves)
  | .finishAdd t => pure (d.finishAdd t)
  | .atResponse t source failed => d.atResponse t source failed
  | .receive addr data => d.xbeeTX addr data
  | .deliver => pure d.deliver
  | .remote k => pure (d.callRemote k)
  | .sendTX k => d.sendTX k
  | .destroy => pure d.destroy

def run (d : Daemon) (events : List Event) : Except Fault Daemon := events.foldlM step d

end Daemon

end VoxPopuli
