import VoxPopuli.Model.VirtualNetwork

/-! # The patch in the network

`patch.cpp` with the mutex and the notification of the virtual elements, around the
bookkeeping of `Patch`; and what needs the patch in `networkmodel.cpp`: the buttons of
the remotes and the creation of remotes.
-/

namespace VoxPopuli

/-- A virtual element which is notified of a change of its links. -/
inductive Element where
  | group (g : Nat)
  | vRemote (n : Nat)
  deriving DecidableEq, Repr

/-- `groupByName`, and `remoteByName` when there is no group. -/
def VirtualNetwork.elementByName (w : World) (vName : QString) : Option Element :=
  match groupByName w vName with
  | some g => some (.group g)
  | none => (remoteByName w vName).map .vRemote

namespace PatchNode

def setPatch (w : World) (p : Patch) : World := { w with patch := p }

def notify (w : World) (rName : QString) : Option Element → Except Fault World
  | some (.group g) => VirtualGroup.removeSlave w g rName
  | some (.vRemote n) => VirtualRemote.updateVirtualRemote w (.free n)
  | none => pure w

def addEntry (w : World) (rName vName : QString) : Except Fault (Bool × World) :=
  match w.patch.addEntry rName vName with
  | (false, p) => pure (false, setPatch w p)
  | (true, p) => do
      let w := setPatch w p
      let w ← notify w rName (VirtualNetwork.elementByName w vName)
      pure (true, w)

def parseArray (w : World) (name : QString) : QStringList → Except Fault (SetError × World)
  | [] => pure (.noError, w)
  | vName :: rest => do
      let (added, w) ← addEntry w name vName
      if added then parseArray w name rest else pure (.wrongArg, w)

def addLink (w : World) (rName vName : QString) : Except Fault (Bool × World) := do
  let (added, w) ← addEntry w rName vName
  if !added then pure (false, w)
  else
    let a := w.patch.jsonData.toArray rName ++ [.string vName]
    let w := setPatch w { w.patch with jsonData := w.patch.jsonData.insert rName (.array a) }
    pure (true, w.valueChanged .patch)

def removeLink (w : World) (rName vName : QString) : Except Fault (Bool × World) :=
  match w.patch.remoteToVirtual.find? rName with
  | none => pure (false, w)
  | some vNames => do
      let w ← w.lock
      if vName ∈ vNames then
        let w := setPatch w { w.patch with
          jsonData := Patch.eraseLinkJson w.patch.jsonData rName vName }
        let w := w.valueChanged .patch
        let w := setPatch w { w.patch with
          remoteToVirtual := Rows.unlink w.patch.remoteToVirtual rName vName }
        match w.patch.virtualToRemote.find? vName with
        | none => pure (false, w.unlock)
        | some _ => do
            let w := setPatch w { w.patch with
              virtualToRemote := Rows.unlink w.patch.virtualToRemote vName rName }
            let w := w.unlock
            let w ← notify w rName (VirtualNetwork.elementByName w vName)
            pure (true, w)
      else pure (false, w.unlock)

/-- One turn of the loop of `removeRemoteLinks`. -/
def forgetRemote (rName : QString) (w : World) (vName : QString) : Except Fault World :=
  let w := setPatch w (w.patch.forgetRemote rName vName)
  notify w rName (VirtualNetwork.elementByName w vName)

def removeRemoteLinks (w : World) (rName : QString) : Except Fault (Bool × World) :=
  match w.patch.remoteToVirtual.find? rName with
  | none => pure (false, w)
  | some vNames => do
      let w ← w.lock
      let w ← vNames.foldlM (forgetRemote rName) w
      let w := setPatch w { w.patch with jsonData := w.patch.jsonData.remove rName }
      let w := w.valueChanged .patch
      let w := setPatch w { w.patch with
        remoteToVirtual := w.patch.remoteToVirtual.erase rName }
      pure (true, w.unlock)

/-- One turn of the loop of `removeVirtualLinks`. -/
def forgetVirtual (vName : QString) (element : Option Element) (w : World) (rName : QString) :
    Except Fault World :=
  match w.patch.remoteToVirtual.find? rName with
  | none => pure w
  | some vNames =>
      let w :=
        if vName ∈ vNames then (setPatch w (w.patch.forgetVirtual vName rName)).valueChanged .patch
        else w
      notify w rName element

def removeVirtualLinks (w : World) (vName : QString) : Except Fault (Bool × World) :=
  match w.patch.virtualToRemote.find? vName with
  | none => pure (false, w)
  | some rNames => do
      let element := VirtualNetwork.elementByName w vName
      let w ← w.lock
      let w ← rNames.foldlM (forgetVirtual vName element) w
      let w := setPatch w (w.patch.eraseVirtual vName)
      pure (true, w.unlock)

def fastTriggerRemote (w : World) (rName : QString) (e : FTriggerEvent) (v : HexData) :
    Except Fault World := do
  let w ← w.lock
  let vNames := w.patch.virtualsOf rName
  VirtualNetwork.fastTrigger w.unlock vNames rName e v

end PatchNode

/-! ## The buttons of remotes -/

namespace Remote

/-- `fastTrigger` of a real or emulated remote. -/
def fastTrigger (w : World) (r : Nat) (e : FTriggerEvent) (v : HexData) :
    Except Fault (SetError × World) :=
  match e with
  | .led | .led1 | .led2 | .led3 => pure (triggerLed w r e v)
  | .up | .down | .right | .left | .action => do
      let w ← PatchNode.fastTriggerRemote w (w.remoteName r) e v
      pure (.noError, w)

def setButtonState (w : World) (r : Nat) (b : XBEE_MSG_TYPE) (pressed : Bool) :
    Except Fault World :=
  let send (e : FTriggerEvent) (bName : QString) : Except Fault World := do
    let (_, w) ← fastTrigger w r e [if pressed then 1 else 0]
    pure (w.setString (.remote r) bName (if pressed then "down" else "up")).2
  match b with
  | .BUTTON_UP => send .up "Up"
  | .BUTTON_DOWN => send .down "Down"
  | .BUTTON_RIGHT => send .right "Right"
  | .BUTTON_LEFT => send .left "Left"
  | .BUTTON_ACTION => send .action "Action"
  | _ => pure w

def createRemoteJSon : QJsonObject := QJsonObject.build
  [("State", .string "Initializing"), ("Up", .string "up"), ("Down", .string "up"),
    ("Left", .string "up"), ("Right", .string "up"), ("Action", .string "up"),
    ("LED1", .double 0), ("LED2", .double 0), ("LED3", .double 0)]

/-- A remote as `populateNode` sees it. -/
def nodeClass (setValue : World → QString → QString → Except Fault (SetError × World)) :
    World.NodeClass where
  createSubNode w _ _ := pure (false, w)
  parseArray w _ _ := pure w
  setValue := setValue

end Remote

namespace RealRemote

def createRealRemoteJSon (address : QString) : QJsonObject :=
  ((Remote.createRemoteJSon.insert "MAC" (.string address)).insert "SignalStrength"
    (.string "NA")).insert "Battery" (.string "HIGH")

end RealRemote

namespace EmulatedRemote

/-- The button of a name, with the name of the right one as the source spells it. -/
def button? (name : QString) : Option XBEE_MSG_TYPE :=
  if name = "Up" then some .BUTTON_UP
  else if name = "Down" then some .BUTTON_DOWN
  else if name = "Left" then some .BUTTON_LEFT
  else if name = "Rigth" then some .BUTTON_RIGHT
  else if name = "Action" then some .BUTTON_ACTION
  else none

def setValue (w : World) (r : Nat) (name value : QString) : Except Fault (SetError × World) :=
  match button? name with
  | some type =>
      if value.toLower = "up" ∨ value = "0" then do
        let w ← Remote.setButtonState w r type false
        pure (.noError, w)
      else if value.toLower = "down" ∨ value = "1" then do
        let w ← Remote.setButtonState w r type true
        pure (.noError, w)
      else pure (.wrongArg, w)
  | none =>
      if name = "osc" then pure (.noError, (w.setString (.remote r) name value).2)
      else if name = "ipPort" then
        if value.count (':' : QChar) ≠ 1 then pure (.wrongArg, w)
        else pure (.noError, (w.setString (.remote r) "ipPort" value).2)
      else pure (Remote.setValue w r name value)

def createEmulatedRemoteJSon (oscAddress ipPort : QString) : QJsonObject :=
  (Remote.createRemoteJSon.insert "osc" (.string oscAddress)).insert "ipPort" (.string ipPort)

end EmulatedRemote

/-- `set` of a real or emulated remote. -/
def Remote.set (w : World) (r : Nat) (name value : QString) : Except Fault (SetError × World) :=
  if w.isReal r then pure (Remote.setValue w r name value)
  else EmulatedRemote.setValue w r name value

/-! ## The creation of remotes -/

namespace RemoteList

/-- The constructors, with what they put into the JSON, for a reference which is new. -/
def create (w : World) (r : Nat) (name : QString) (real : Bool) (o : QJsonObject) : World :=
  { w.setJson (.remote r) o with
    subnodes := Function.update w.subnodes (.remote r) []
    remoteName := Function.update w.remoteName r name
    isReal := Function.update w.isReal r real
    remoteLink := Function.update w.remoteLink r none
    freshRemote := w.freshRemote + 1 }

/-- `delete r`. The destructor of a real remote looks for its radio once more, and `remote()`
    drops a listed remote of the same address where there is none. The pointer which
    `clearRemoteModel` takes back from the radio's remote is not part of this state. -/
def destroy (w : World) (r : Nat) : World :=
  (if w.isReal r then (RealRemote.remote w r).2 else w).clearJsonData (.remote r)

def createSubNode (w : World) (name : QString) (data : QJsonObject) :
    Except Fault (Bool × World) := do
  let populate (real : Bool) (o : QJsonObject) : Except Fault (Bool × World) := do
    let r := w.freshRemote
    let w := create w r name real o
    let (populated, w) ←
      World.populateNode (Remote.nodeClass fun w => Remote.set w r) w (.remote r) data
    pure (populated, if populated then { w with remotes := w.remotes ++ [r] } else destroy w r)
  if data.contains "MAC" then
    populate true (QJsonObject.build [("MAC", .string (data.toString "MAC"))])
  else if data.contains "osc" then
    populate false (QJsonObject.build
      [("osc", .string (data.toString "osc")), ("ipPort", .string "")])
  else pure (false, w)

def addRemote (w : World) (address : QString) : Except Fault (Bool × World) :=
  if w.remotes.any fun r => macOf w r = address then pure (false, w)
  else do
    let remoteName := freeName (w.json .remoteList).keys "Remote"
    let (_, w) ← createSubNode w remoteName (RealRemote.createRealRemoteJSon address)
    pure (true, w)

def emulateRemote (w : World) (name osc ipPort : QString) : Except Fault (Bool × World) :=
  if w.remotes.any fun r =>
      w.remoteName r = name ∨ (osc ≠ "" ∧ EmulatedRemote.oscAddress w r = osc) then
    pure (false, w)
  else do
    let (_, w) ← createSubNode w name (EmulatedRemote.createEmulatedRemoteJSon osc ipPort)
    pure (true, w)

end RemoteList

end VoxPopuli
