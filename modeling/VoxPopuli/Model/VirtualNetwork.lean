import VoxPopuli.Model.NetworkModel

/-! # Virtual remotes and groups

`virtualnetwork.cpp`: the events of a virtual remote, virtual remotes, groups with
their avatars and their list of slaves, and the virtual network over them.
-/

namespace VoxPopuli

/-! ## Events -/

/-- `EventTrigger::addEvent`, with the answer of `updateEventTrigger`. -/
def EventTrigger.addEvent (t : EventTrigger) (accepted : Option Bool) (definition : QString) :
    Bool × EventTrigger :=
  match accepted with
  | none => (false, t.erase definition)
  | some hasCallback => (true, t.insert definition hasCallback)

namespace Event

/-- `EventTrigger::trigger`. -/
def trigger (w : World) (v : VRef) (b : Button) (name : QString) (t : EventTrigger) : World :=
  t.entries.foldl
    (fun w (definition, hasCallback) =>
      if hasCallback then w.observe (.callback v b name definition) else w) w

def triggerEvent (w : World) (v : VRef) (b : Button) (name : QString) : Bool × World :=
  let w := w.observe (.fired v b name)
  let w := trigger w v b "any" (w.anyTrigger v b)
  match (w.triggers v b).find? name with
  | none => (false, w)
  | some t => (true, trigger w v b name t)

/-- Looking a trigger up runs its callbacks. -/
def eventByTrigger (w : World) (v : VRef) (b : Button) (name : QString) :
    Option EventTrigger × World :=
  if name = "any" then (some (w.anyTrigger v b), w)
  else
    match (w.triggers v b).find? name with
    | none => (none, w)
    | some t => (some t, trigger w v b name t)

def setTrigger (w : World) (v : VRef) (b : Button) (name : QString) (t : EventTrigger) : World :=
  if name = "any" then
    { w with anyTrigger := Function.update w.anyTrigger v (Function.update (w.anyTrigger v) b t) }
  else
    { w with
      triggers := Function.update w.triggers v
        (Function.update (w.triggers v) b ((w.triggers v b).insert name t)) }

/-- `_jsonData[name].toArray()`: a missing key is created. -/
def readArray (w : World) (n : NodeRef) (name : QString) : QJsonArray × World :=
  ((w.json n).toArray name, if (w.json n).contains name then w else w.putJson n name .null)

def addEvent (w : World) (v : VRef) (b : Button) (description name : QString) : Bool × World :=
  let (found, w) := eventByTrigger w v b name
  let (a, w) := if found.isSome then readArray w (.event v b) name else ([], w)
  let (added, t) := EventTrigger.addEvent (found.getD ∅) (w.accepts description) description
  let w := setTrigger w v b name t
  if added then
    (true, (w.putJson (.event v b) name (.array (a ++ [.string description]))).valueChanged
      (.event v b))
  else (false, w)

/-- The definition is erased from a copy of the JSON array. -/
def removeEvent (w : World) (v : VRef) (b : Button) (definition name : QString) : Bool × World :=
  match eventByTrigger w v b name with
  | (none, w) => (false, w)
  | (some t, w) =>
      if (t.find? definition).isNone then (false, w)
      else
        let w := setTrigger w v b name (t.erase definition)
        let (a, w) := readArray w (.event v b) name
        if a.any fun x => x.toString = definition then (true, w.valueChanged (.event v b))
        else (false, w)

def createEventJSon : QJsonObject := [("any", .array [])]

/-- An event as `populateNode` sees it. -/
def nodeClass (v : VRef) (b : Button) : World.NodeClass where
  createSubNode w _ _ := pure (false, w)
  parseArray w name value := pure (value.foldl (fun w d => (addEvent w v b d name).2) w)
  setValue w name _ := pure (w.unknownValue (.event v b) name, w)

end Event

/-! ## Virtual remotes -/

/-- `Patch::remoteList`. -/
def PatchNode.remoteList (w : World) (virtualRemote : QString) : Except Fault (List Nat × World) := do
  let w ← w.lock
  let rNames := w.patch.remotesOf virtualRemote
  let w := w.unlock
  pure (rNames.filterMap (RemoteList.byName w), w)

/-- `VirtualGroup::slave`. -/
def VirtualGroup.slave (w : World) (g : Nat) (id : Int) : QString :=
  if 0 ≤ id then (w.slaves g)[id.toNat]?.getD "" else ""

namespace VirtualRemote

def patchedRemotes (w : World) (v : VRef) : Except Fault (List Nat × World) :=
  match v with
  | .free _ => PatchNode.remoteList w (w.vRemoteName v)
  | .member g _ =>
      if ("Global" : QString) <+: w.vRemoteName v then PatchNode.remoteList w (w.groupName g)
      else
        let rName := VirtualGroup.slave w g (w.get (.vRemote v) "RemoteID").toInt
        pure (if rName.isEmpty then [] else (RemoteList.byName w rName).toList, w)

/-- The body of `updateVirtualRemote`, for the first of the patched remotes. -/
def showRemote (w : World) (v : VRef) (r? : Option Nat) : World :=
  match r? with
  | none =>
      let w := (w.setString (.vRemote v) "Up" "NA").2
      let w := (w.setString (.vRemote v) "Down" "NA").2
      let w := (w.setString (.vRemote v) "Left" "NA").2
      let w := (w.setString (.vRemote v) "Right" "NA").2
      (w.setString (.vRemote v) "Action" "NA").2
  | some r =>
      let w := (w.setString (.vRemote v) "Up" (w.get (.remote r) "Up").toString).2
      let w := (w.setString (.vRemote v) "Down" (w.get (.remote r) "Down").toString).2
      let w := (w.setString (.vRemote v) "Left" (w.get (.remote r) "Left").toString).2
      let w := (w.setString (.vRemote v) "Right" (w.get (.remote r) "Right").toString).2
      (w.setString (.vRemote v) "Action" (w.get (.remote r) "Active").toString).2

def updateVirtualRemote (w : World) (v : VRef) : Except Fault World := do
  let (remotes, w) ← patchedRemotes w v
  pure (showRemote w v remotes.head?)

/-- `sendFastTrigger`, which is only called for LED events. -/
def sendFastTrigger (w : World) (v : VRef) (data : HexData) : Except Fault World := do
  let (remotes, w) ← patchedRemotes w v
  pure (remotes.foldl (fun w r => (Remote.triggerLed w r .led data).2) w)

/-- The name of the trigger for a value. -/
def press (data : HexData) : QString := if data.toInt ≠ 0 then "down" else "up"

def fastTrigger (w : World) (v : VRef) (e : FTriggerEvent) (data : HexData) :
    Except Fault (SetError × World) :=
  if e = .led then do
    let w ← sendFastTrigger w v data
    pure (w.setNumber (.vRemote v) "LED" data.toInt)
  else if h : e.toNat < 5 then
    let w := (Event.triggerEvent w v ⟨e.toNat, h⟩ (press data)).2
    pure (w.setString (.vRemote v) e.eventName (press data))
  else throw .outOfRange

/-- `setValue`. The buffer of `d` is freed by the assignment `d = 1`. -/
def setValue (w : World) (v : VRef) (name value : QString) : Except Fault (SetError × World) :=
  if name ∈ (["Up", "Down", "Left", "Right", "Action"] : QStringList) then
    if value = "down" then throw .useAfterFree
    else if value ≠ "up" then pure (.wrongArg, w)
    else fastTrigger w v (FTriggerEvent.eventID name) [0]
  else if name = "LED" then
    match value.toInt? with
    | none => pure (.wrongArg, w)
    | some n => fastTrigger w v .led [Byte.ofInt n]
  else if name = "State" then do
    let (remotes, w) ← patchedRemotes w v
    let w := remotes.foldl (fun w r => (Remote.setState w r value).2) w
    pure (w.setString (.vRemote v) name value)
  else if name = "remoteID" ∧ v.isMember then
    match value.toInt? with
    | none => pure (.wrongArg, w)
    | some n => do
        let (e, w) := w.setNumber (.vRemote v) name (Byte.ofInt n).val
        let w ← updateVirtualRemote w v
        pure (e, w)
  else pure (w.unknownValue (.vRemote v) name, w)

/-- The constructor, for a reference which is new. -/
def create (w : World) (v : VRef) (name : QString) : World :=
  { w with
    json := fun
      | .vRemote v' => if v' = v then [] else w.json (.vRemote v')
      | .event v' b => if v' = v then [] else w.json (.event v' b)
      | n => w.json n
    subnodes := fun
      | .vRemote v' => if v' = v then [] else w.subnodes (.vRemote v')
      | .event v' b => if v' = v then [] else w.subnodes (.event v' b)
      | n => w.subnodes n
    vRemoteName := Function.update w.vRemoteName v name
    anyTrigger := Function.update w.anyTrigger v fun _ => ∅
    triggers := Function.update w.triggers v fun _ => ∅
    fresh := w.fresh + 1 }

def createVirtualRemoteJSon : QJsonObject := QJsonObject.build
  [("LED", .double 0), ("Up", .string "NA"), ("Down", .string "NA"), ("Left", .string "NA"),
    ("Right", .string "NA"), ("Action", .string "NA"), ("State", .string "active"),
    ("EventUp", .object Event.createEventJSon), ("EventDown", .object Event.createEventJSon),
    ("EventLeft", .object Event.createEventJSon), ("EventRight", .object Event.createEventJSon),
    ("EventAction", .object Event.createEventJSon)]

def createSubNode (w : World) (v : VRef) (name : QString) (data : QJsonObject) :
    Except Fault (Bool × World) :=
  match Button.ofNodeName? name with
  | none => pure (false, w)
  | some b => World.populateNode (Event.nodeClass v b) w (.event v b) data

/-- A virtual remote as `populateNode` sees it. -/
def nodeClass (v : VRef) : World.NodeClass where
  createSubNode w := createSubNode w v
  parseArray w _ _ := pure w
  setValue w := setValue w v

end VirtualRemote

/-! ## Groups -/

namespace VirtualGroup

/-- The update of all virtual remotes of a group at the end of `updateFromPatch`. -/
def updateVirtualRemotes (w : World) (g : Nat) : Except Fault World := do
  let w ← (match w.globalRemote g with
    | none => throw .nullPointer
    | some v => VirtualRemote.updateVirtualRemote w v)
  (w.virtualRemotes g).foldlM (fun w r =>
    match r with
    | none => throw .nullPointer
    | some v => VirtualRemote.updateVirtualRemote w v) w

/-- A new list of slaves and its length in the JSON. -/
def setSlaves (w : World) (g : Nat) (slaves : QStringList) : World :=
  (({ w with slaves := Function.update w.slaves g slaves } : World).setNumber (.group g)
    "slavesNbr" slaves.length).2

/-- `updateFromPatch` before the virtual remotes are updated. -/
def refreshSlaves (w : World) (g : Nat) : World :=
  let updatedSlaves := w.patch.remotesOf (w.groupName g)
  if (w.slaves g).length ≠ updatedSlaves.length then setSlaves w g updatedSlaves else w

def updateFromPatch (w : World) (g : Nat) : Except Fault World :=
  updateVirtualRemotes (refreshSlaves w g) g

def removeSlave (w : World) (g : Nat) (slaveName : QString) : Except Fault World :=
  updateFromPatch (setSlaves w g ((w.slaves g).erase slaveName)) g

/-- One turn of the loop over the avatars in `fastTrigger`. -/
def triggerAvatar (id : Nat) (e : FTriggerEvent) (data : HexData) (w : World) :
    Option VRef → Except Fault World
  | none => throw .nullPointer
  | some v =>
      if (w.get (.vRemote v) "remoteID").toInt = id then do
        let (_, w) ← VirtualRemote.fastTrigger w v e data
        pure w
      else pure w

def fastTrigger (w : World) (g : Nat) (rName : QString) (e : FTriggerEvent) (data : HexData) :
    Except Fault World :=
  match (w.slaves g).idxOf? rName with
  | none => pure w
  | some id => do
      let w ← (w.virtualRemotes g).foldlM (triggerAvatar id e data) w
      match w.globalRemote g with
      | none => throw .nullPointer
      | some v => do
          let (_, w) ← VirtualRemote.fastTrigger w v e data
          pure w

/-- `_virtualRemotes[id - 1] = r` after the list has been filled up to `id`. -/
def setVirtualRemote (w : World) (g : Nat) (id : Int) (v : VRef) : Except Fault World :=
  if 1 ≤ id then
    let l := w.virtualRemotes g
    let l := l ++ List.replicate (id.toNat - l.length) none
    let l := l.set (id.toNat - 1) (some v)
    pure { w with virtualRemotes := Function.update w.virtualRemotes g l }
  else throw .outOfRange

/-- The constructor, for a reference which is new. -/
def create (w : World) (g : Nat) (name : QString) : World :=
  { w with
    json := Function.update w.json (.group g) []
    subnodes := Function.update w.subnodes (.group g) []
    groupName := Function.update w.groupName g name
    slaves := Function.update w.slaves g []
    globalRemote := Function.update w.globalRemote g none
    virtualRemotes := Function.update w.virtualRemotes g []
    fresh := w.fresh + 1 }

def createSubNode (w : World) (g : Nat) (name : QString) (data : QJsonObject) :
    Except Fault (Bool × World) :=
  if name = "GlobalRemote" ∨ ("Remote" : QString) <+: name then do
    let v := VRef.member g w.fresh
    let w := VirtualRemote.create w v name
    let (populated, w) ← World.populateNode (VirtualRemote.nodeClass v) w (.vRemote v) data
    if !populated then pure (false, w.clearJsonData (.vRemote v))
    else if name.head? = some ('G' : QChar) then
      pure (true, { w with globalRemote := Function.update w.globalRemote g (some v) })
    else
      match QString.toInt? (QString.mid name 6) with
      -- The group goes on listing a virtual remote which has been deleted.
      | none => pure (false, w.clearJsonData (.vRemote v))
      | some id => do
          let w ← setVirtualRemote w g id v
          pure (true, w)
  else pure (false, w)

/-- The turns of the loop of `setVirtualRemotesNbr` for a positive `delta`. -/
def addVirtualRemotes (w : World) (g : Nat) (nbr : Int) : Nat → Except Fault World
  | 0 => pure w
  | delta + 1 => do
      let rName : QString := ("Remote" : QString) ++ QString.ofInt (nbr - (delta + 1) + 1)
      let remoteJson := VirtualRemote.createVirtualRemoteJSon.insert "remoteID" (.double (-1))
      let (_, w) ← createSubNode w g rName remoteJson
      addVirtualRemotes w g nbr delta

/-- The turns for a negative `delta`. -/
def removeVirtualRemotes (w : World) (g : Nat) : Nat → Except Fault World
  | 0 => pure w
  | delta + 1 =>
      match (w.virtualRemotes g).getLast? with
      | none => throw .outOfRange
      | some none => throw .nullPointer
      | some (some v) =>
          let w := w.removeSubNode (.group g) (.vRemote v)
          let l := (w.virtualRemotes g).dropLast
          removeVirtualRemotes { w with virtualRemotes := Function.update w.virtualRemotes g l } g
            delta

def setVirtualRemotesNbr (w : World) (g : Nat) (nbr : Int) : Except Fault World :=
  let count := (w.json (.group g)).length
  if count < 3 then pure w
  else
    let delta := nbr - count + 3
    if 0 ≤ delta then addVirtualRemotes w g nbr delta.toNat
    else removeVirtualRemotes w g (-delta).toNat

def setValue (w : World) (g : Nat) (name value : QString) : Except Fault (SetError × World) :=
  if name = "avatarsNbr" then
    match value.toInt? with
    | none => pure (.wrongArg, w)
    | some nbr => do
        let w ← setVirtualRemotesNbr w g nbr
        pure (w.setNumber (.group g) name nbr)
  else pure (w.unknownValue (.group g) name, w)

def createGroupJSon : QJsonObject := QJsonObject.build
  [("slavesNbr", .double 0), ("avatarsNbr", .double 0),
    ("GlobalRemote", .object VirtualRemote.createVirtualRemoteJSon)]

/-- A group as `populateNode` sees it. -/
def nodeClass (g : Nat) : World.NodeClass where
  createSubNode w := createSubNode w g
  parseArray w _ _ := pure w
  setValue w := setValue w g

end VirtualGroup

/-! ## The virtual network -/

/-- The first number, counted from 1, which makes a name that is not taken. -/
def freeName (taken : QStringList) (base : QString) : QString :=
  base ++ QString.ofNat
    (((List.range' 1 (taken.length + 1)).find? fun n => base ++ QString.ofNat n ∉ taken).getD 0)

namespace VirtualNetwork

def groupByName (w : World) (name : QString) : Option Nat :=
  w.vGroups.find? fun g => w.groupName g = name

def remoteByName (w : World) (name : QString) : Option Nat :=
  w.vRemotes.find? fun n => w.vRemoteName (.free n) = name

def createSubNode (w : World) (name : QString) (data : QJsonObject) :
    Except Fault (Bool × World) :=
  if data.contains "GlobalRemote" then do
    let g := w.fresh
    let w := VirtualGroup.create w g name
    let (populated, w) ← World.populateNode (VirtualGroup.nodeClass g) w (.group g) data
    if !populated then pure (false, w.clearJsonData (.group g))
    else do
      let w ← VirtualGroup.updateFromPatch { w with vGroups := w.vGroups ++ [g] } g
      pure (true, w)
  else if data.contains "LED" then do
    let n := w.fresh
    let v := VRef.free n
    let w := VirtualRemote.create w v name
    let (populated, w) ← World.populateNode (VirtualRemote.nodeClass v) w (.vRemote v) data
    if !populated then pure (false, w.clearJsonData (.vRemote v))
    else do
      let w ← VirtualRemote.updateVirtualRemote { w with vRemotes := w.vRemotes ++ [n] } v
      pure (true, w)
  else pure (false, w)

def addRemote (w : World) (name : QString) : Except Fault (Bool × World) :=
  if (w.json .virtualNet).contains name then pure (false, w)
  else do
    let name := if name = "" then freeName (w.json .virtualNet).keys "Remote" else name
    let (_, w) ← createSubNode w name VirtualRemote.createVirtualRemoteJSon
    pure (true, w)

def removeRemote (w : World) (name : QString) : Bool × World :=
  match remoteByName w name with
  | none => (false, w)
  | some n =>
      (true, { w with vRemotes := w.vRemotes.erase n }.removeSubNode .virtualNet (.vRemote (.free n)))

def addGroup (w : World) (name : QString) : Except Fault (Bool × World) :=
  if (w.json .virtualNet).contains name then pure (false, w)
  else do
    let name := if name = "" then freeName (w.json .virtualNet).keys "Group" else name
    let (_, w) ← createSubNode w name VirtualGroup.createGroupJSon
    pure (true, w)

def removeGroup (w : World) (name : QString) : Bool × World :=
  match groupByName w name with
  | none => (false, w)
  | some g =>
      (true, { w with vGroups := w.vGroups.erase g }.removeSubNode .virtualNet (.group g))

def autoGenerateRemote (w : World) : Except Fault World :=
  w.remotes.foldlM (fun w r => do
    let (_, w) ← addRemote w (w.remoteName r)
    pure w) w

/-- One turn of the loop of `fastTrigger`. -/
def triggerElement (remoteName : QString) (e : FTriggerEvent) (data : HexData) (w : World)
    (elementName : QString) : Except Fault World :=
  match groupByName w elementName with
  | some g => VirtualGroup.fastTrigger w g remoteName e data
  | none =>
      match remoteByName w elementName with
      | some n => do
          let (_, w) ← VirtualRemote.fastTrigger w (.free n) e data
          pure w
      | none => pure w

def fastTrigger (w : World) (virtualElements : QStringList) (remoteName : QString)
    (e : FTriggerEvent) (data : HexData) : Except Fault World :=
  virtualElements.foldlM (triggerElement remoteName e data) w

end VirtualNetwork

end VoxPopuli
