import VoxPopuli.Misc
import VoxPopuli.Model.Patch
import VoxPopuli.XBee.XBeeRemote

/-! # The state of the two models

The network model (remotes and patch) and the event model (virtual remotes and
groups) after startup, as one record. Objects are typed references; what the code
keeps in an object is a function of its reference. Every node has its `_jsonData`, its
child nodes and the chain of its parents, through which a change of its JSON travels up.
-/

namespace VoxPopuli

/-! ## References -/

/-- The buttons which have an event handler, in the order of `_eventsHandler`. -/
abbrev Button := Fin 5

/-- A virtual remote: a free one, or a global remote or avatar of a group. -/
inductive VRef where
  | free (n : Nat)
  | member (g n : Nat)
  deriving DecidableEq, Repr

inductive NodeRef where
  | network
  | remoteList
  | patch
  | remote (r : Nat)
  | eventModel
  | virtualNet
  | group (g : Nat)
  | vRemote (v : VRef)
  | event (v : VRef) (b : Button)
  deriving DecidableEq, Repr

/-- Whether `_group` is set. -/
def VRef.isMember : VRef → Bool
  | free _ => false
  | member _ _ => true

def VRef.ancestors : VRef → List NodeRef
  | free _ => [.virtualNet, .eventModel]
  | member g _ => [.group g, .virtualNet, .eventModel]

/-- The parent of a node, its parent and so on. -/
def NodeRef.ancestors : NodeRef → List NodeRef
  | network | eventModel => []
  | remoteList | patch => [network]
  | remote _ => [remoteList, network]
  | virtualNet => [eventModel]
  | group _ => [virtualNet, eventModel]
  | vRemote v => v.ancestors
  | event v _ => vRemote v :: v.ancestors

/-! ## The state -/

/-- Whether the mutex of the patch is held. It may also be left out of account. -/
inductive MutexState where
  | noop
  | free
  | held
  deriving DecidableEq, Repr

/-- `EventTrigger`: for each definition, whether it has a callback. -/
abbrev EventTrigger := SortedMap QString Bool

/-- What is seen of a run from outside. -/
inductive Observation where
  /-- `Event::triggerEvent`. -/
  | fired (v : VRef) (b : Button) (trigger : QString)
  /-- A callback of a trigger has run. -/
  | callback (v : VRef) (b : Button) (trigger definition : QString)
  /-- `Remote::fastTrigger` with an LED event. -/
  | commanded (r : Nat) (e : FTriggerEvent) (data : HexData)
  /-- `set("State", value)` of a remote. -/
  | stateSet (r : Nat) (value : QString)
  /-- `qosc::sendMsg`. -/
  | osc (ip : QString) (port : Int) (address event : QString) (value : Nat)
  deriving DecidableEq, Repr

/-- The links, and which virtual elements there are under which names. -/
structure Roster where
  /-- The patch with its own JSON. -/
  patch : Patch := {}
  mutex : MutexState := .free
  /-- `VirtualNetwork::_vRemotes`. -/
  vRemotes : List Nat := []
  /-- `VirtualNetwork::_vGroups`. -/
  vGroups : List Nat := []
  vRemoteName : VRef → QString := fun _ => []
  groupName : Nat → QString := fun _ => []
  globalRemote : Nat → Option VRef := fun _ => none
  virtualRemotes : Nat → List (Option VRef) := fun _ => []
  /-- Numbers from here on have not been given to a group or a virtual remote. -/
  fresh : Nat := 0

structure World extends Roster where
  /-- The JSON of every node but the patch. -/
  json : NodeRef → QJsonObject := fun _ => []
  /-- `_subnodes`. -/
  subnodes : NodeRef → List NodeRef := fun _ => []
  slaves : Nat → QStringList := fun _ => []
  anyTrigger : VRef → Button → EventTrigger := fun _ _ => ∅
  triggers : VRef → Button → SortedMap QString EventTrigger := fun _ _ => ∅
  /-- Whether a definition of an event is accepted, and then whether it gets a
      callback: a matter of the MIDI ports and the keyboard. -/
  accepts : QString → Option Bool := fun _ => none
  /-- `RemoteList::_remotes`. -/
  remotes : List Nat := []
  remoteName : Nat → QString := fun _ => []
  /-- A `RealRemote`; the others are `EmulatedRemote`s. -/
  isReal : Nat → Bool := fun _ => false
  /-- `RealRemote::_remote`, as a position among the remotes of the radio. -/
  remoteLink : Nat → Option Nat := fun _ => none
  /-- `XBeeInterface::_remotes`. -/
  xbeeRemotes : List XBeeRemote := []
  /-- Numbers from here on have not been given to a remote. -/
  freshRemote : Nat := 0
  log : List Observation := []

namespace Button

def nodeName : Button → QString
  | 0 => "EventUp"
  | 1 => "EventDown"
  | 2 => "EventRight"
  | 3 => "EventLeft"
  | 4 => "EventAction"

def ofNodeName? (name : QString) : Option Button :=
  if name = "EventUp" then some 0
  else if name = "EventDown" then some 1
  else if name = "EventLeft" then some 3
  else if name = "EventRight" then some 2
  else if name = "EventAction" then some 4
  else none

end Button

namespace World

/-! ## JSON -/

def nameOf (w : World) : NodeRef → QString
  | .network => "network"
  | .remoteList => "Remotes"
  | .patch => "Patch"
  | .remote r => w.remoteName r
  | .eventModel => "eventsProcessor"
  | .virtualNet => "VirtualNet"
  | .group g => w.groupName g
  | .vRemote v => w.vRemoteName v
  | .event _ b => b.nodeName

def jsonOf (w : World) : NodeRef → QJsonObject
  | .patch => w.patch.jsonData
  | n => w.json n

def get (w : World) (n : NodeRef) (name : QString) : QVariant := (w.json n).value name

def setJson (w : World) (n : NodeRef) (o : QJsonObject) : World :=
  { w with json := Function.update w.json n o }

def putJson (w : World) (n : NodeRef) (name : QString) (v : QJsonValue) : World :=
  w.setJson n ((w.json n).insert name v)

/-- The JSON of a node is copied into its parent's, and so on up to the root. -/
def mirror (w : World) : NodeRef → List NodeRef → World
  | _, [] => w
  | n, p :: rest => (w.putJson p (w.nameOf n) (.object (w.jsonOf n))).mirror p rest

/-- Copying JSON into ancestors changes nothing but their JSON. -/
theorem mirror_frame (w : World) (n : NodeRef) (ancestors : List NodeRef) :
    ∃ json, w.mirror n ancestors = { w with json := json } ∧
      ∀ n' ∉ ancestors, json n' = w.json n' := by
  induction ancestors generalizing w n with
  | nil => exact ⟨w.json, rfl, fun _ _ => rfl⟩
  | cons p rest ih =>
      obtain ⟨json, same, others⟩ := ih (w.putJson p (w.nameOf n) (.object (w.jsonOf n))) p
      refine ⟨json, same, fun n' outside => ?_⟩
      rw [others n' fun member => outside (List.mem_cons_of_mem p member)]
      have differ : n' ≠ p := fun same => outside (same ▸ List.mem_cons_self)
      simp [putJson, setJson, differ]

def updateParentJSon (w : World) (n : NodeRef) : World := w.mirror n n.ancestors

/-- `valueChanged`, up to the message it prints. -/
def valueChanged (w : World) (n : NodeRef) : World := w.updateParentJSon n

/-- `setString`, `setNumber` and `setBool`: `same` compares with the value there is. -/
def assign (w : World) (n : NodeRef) (name : QString) (same : QJsonValue → Bool)
    (v : QJsonValue) : SetError × World :=
  if (w.get n name).elim false same then (.sameValue, w)
  else (.noError, (w.putJson n name v).valueChanged n)

def setString (w : World) (n : NodeRef) (name value : QString) : SetError × World :=
  w.assign n name (fun | .string s => s = value | _ => false) (.string value)

def setNumber (w : World) (n : NodeRef) (name : QString) (value : ℚ) : SetError × World :=
  w.assign n name (fun | .double d => d = value | _ => false) (.double value)

theorem not_mem_ancestors (n : NodeRef) : n ∉ n.ancestors := by
  cases n with
  | vRemote v | event v b => cases v <;> simp [NodeRef.ancestors, VRef.ancestors]
  | network | remoteList | patch | remote r | eventModel | virtualNet | group g =>
      simp [NodeRef.ancestors]

section

variable (w : World) (n : NodeRef)

/-- The JSON of a node is not in its ancestors. -/
theorem get_valueChanged (k : QString) : (w.valueChanged n).get n k = w.get n k := by
  obtain ⟨json, same, others⟩ := w.mirror_frame n n.ancestors
  rw [valueChanged, updateParentJSon, same]
  exact congrArg (fun o => QJsonObject.value o k) (others n (not_mem_ancestors n))

/-- A value is stored in a node and its ancestors only. -/
theorem assign_frame (k : QString) (same : QJsonValue → Bool) (v : QJsonValue) :
    ∃ json, (w.assign n k same v).2 = { w with json := json } ∧
      ∀ n' ∉ n :: n.ancestors, json n' = w.json n' := by
  unfold assign
  split
  · exact ⟨w.json, rfl, fun _ _ => rfl⟩
  · obtain ⟨json, written, others⟩ := mirror_frame (w.putJson n k v) n n.ancestors
    refine ⟨json, written, fun n' outside => ?_⟩
    obtain ⟨other, above⟩ := not_or.mp fun h => outside (List.mem_cons.mpr h)
    rw [others n' above]
    simp [putJson, setJson, other]

theorem json_assign {w : World} {n n' : NodeRef} {k : QString} {same : QJsonValue → Bool}
    {v : QJsonValue} (outside : n' ∉ n :: n.ancestors) :
    (w.assign n k same v).2.json n' = w.json n' := by
  obtain ⟨json, written, others⟩ := w.assign_frame n k same v
  rw [written]
  exact others n' outside

/-- A value is stored when only the value itself compares equal to it. -/
theorem get_assign {k : QString} {same : QJsonValue → Bool} {v : QJsonValue}
    (exact : ∀ v', same v' = true → v' = v) (k' : QString) :
    (w.assign n k same v).2.get n k' = if k' = k then some v else w.get n k' := by
  unfold assign
  split
  · rename_i equal
    split
    · rename_i own
      subst own
      cases stored : w.get n k' with
      | none => simp [stored] at equal
      | some v' =>
          rw [stored, Option.elim_some] at equal
          rw [exact v' equal]
    · rfl
  · dsimp only
    rw [get_valueChanged]
    split
    · rename_i own
      simp [get, putJson, setJson, own]
    · rename_i other
      simp [get, putJson, setJson, other]

theorem get_setString (k value k' : QString) :
    (w.setString n k value).2.get n k' = if k' = k then some (.string value) else w.get n k' := by
  refine w.get_assign n (fun v' equal => ?_) k'
  cases v' with
  | string s => simpa using equal
  | null | bool b | double d | array a | object o => cases equal

theorem get_setNumber (k : QString) (value : ℚ) (k' : QString) :
    (w.setNumber n k value).2.get n k' = if k' = k then some (.double value) else w.get n k' := by
  refine w.get_assign n (fun v' equal => ?_) k'
  cases v' with
  | double d => simpa using equal
  | null | bool b | string s | array a | object o => cases equal

end

/-- `JSonNode::setValue` and `JSonNode::parseArray`. -/
def unknownValue (w : World) (n : NodeRef) (name : QString) : SetError :=
  if (w.json n).contains name then .readOnly else .doesNotExist

/-! ## Nodes -/

def setSubnodes (w : World) (p : NodeRef) (l : List NodeRef) : World :=
  { w with subnodes := Function.update w.subnodes p l }

@[simp] theorem json_setSubnodes (w : World) (p : NodeRef) (l : List NodeRef) :
    (w.setSubnodes p l).json = w.json := rfl

@[simp] theorem toRoster_setSubnodes (w : World) (p : NodeRef) (l : List NodeRef) :
    (w.setSubnodes p l).toRoster = w.toRoster := rfl

def addSubNode (w : World) (p n : NodeRef) : World :=
  ((w.putJson p (w.nameOf n) (.object (w.jsonOf n))).setSubnodes p
    (w.subnodes p ++ [n])).updateParentJSon p

def removeSubNode (w : World) (p n : NodeRef) : World :=
  ((w.setJson p ((w.json p).remove (w.nameOf n))).setSubnodes p
    ((w.subnodes p).erase n)).updateParentJSon p

/-- `clearJsonData`, which is what the destructor of a node does. Whoever lists the node
    still does. -/
def clearJsonData (w : World) (n : NodeRef) : World := (w.setSubnodes n []).setJson n []

theorem json_clearJsonData {w : World} {n p : NodeRef} (apart : p ≠ n) :
    (w.clearJsonData n).json p = w.json p := Function.update_of_ne apart _ _

theorem subnodes_clearJsonData {w : World} {n p : NodeRef} (apart : p ≠ n) :
    (w.clearJsonData n).subnodes p = w.subnodes p := Function.update_of_ne apart _ _

/-- There is nothing to clear in a node of which nothing has been stored. -/
theorem clearJsonData_bare {w : World} {n : NodeRef} (json : w.json n = [])
    (subnodes : w.subnodes n = []) : w.clearJsonData n = w := by
  have json' : Function.update w.json n [] = w.json := by rw [← json, Function.update_eq_self]
  have subnodes' : Function.update w.subnodes n [] = w.subnodes := by
    rw [← subnodes, Function.update_eq_self]
  rw [clearJsonData, setJson, setSubnodes, subnodes']
  exact congrArg (fun json => { w with json := json }) json'

/-- `_name = name` of a node which can be renamed. -/
def setName (w : World) (n : NodeRef) (name : QString) : World :=
  match n with
  | .remote r => { w with remoteName := Function.update w.remoteName r name }
  | .group g => { w with groupName := Function.update w.groupName g name }
  | .vRemote v => { w with vRemoteName := Function.update w.vRemoteName v name }
  | _ => w

def rename (w : World) (n : NodeRef) (name : QString) : Bool × World :=
  match n.ancestors with
  | [] => (false, w)
  | p :: _ =>
      if (w.json p).contains name then (false, w)
      else
        (true, ((w.setJson p ((w.json p).remove (w.nameOf n))).setName n name).updateParentJSon n)

/-- The methods through which `populateNode` hands the members of a document to a class. -/
structure NodeClass where
  createSubNode : World → QString → QJsonObject → Except Fault (Bool × World)
  parseArray : World → QString → QStringList → Except Fault World
  setValue : World → QString → QString → Except Fault (SetError × World)

/-- The texts of an array. Its numbers are all read from the array itself, as 0. -/
def arrayTexts (a : QJsonArray) : QStringList :=
  a.filterMap fun
    | .string s => some s
    | .bool b => some (if b then "true" else "false")
    | .double _ => some "0"
    | _ => none

/-- The loop of `populateNode`, with what is done when a child is refused. -/
def populateMembers (c : NodeClass) (refused : World → Except Fault World) (w : World) :
    QJsonObject → Except Fault (Bool × World)
  | [] => pure (true, w)
  | (k, v) :: rest =>
      match v with
      | .object o => do
          let (created, w) ← c.createSubNode w k o
          if created then populateMembers c refused w rest
          else do
            let w ← refused w
            pure (false, w)
      | .array a => do
          let w ← c.parseArray w k (arrayTexts a)
          populateMembers c refused w rest
      | .bool b => do
          let (_, w) ← c.setValue w k (if b then "true" else "false")
          populateMembers c refused w rest
      | .string s => do
          let (_, w) ← c.setValue w k s
          populateMembers c refused w rest
      | .double d => do
          let (_, w) ← c.setValue w k (QString.ofDouble d)
          populateMembers c refused w rest
      | .null => populateMembers c refused w rest

/-- `_jsonData = data` of any node. -/
def storeJson (w : World) (n : NodeRef) (data : QJsonObject) : World :=
  match n with
  | .patch => { w with patch := { w.patch with jsonData := data } }
  | n => w.setJson n data

/-- The end of `populateNode`: a node keeps the document, and its parent lists it. -/
def adopt (w : World) (n : NodeRef) (data : QJsonObject) : World :=
  match n.ancestors with
  | [] => w.storeJson n data
  | p :: _ => (w.storeJson n data).addSubNode p n

/-- The loop of `populateNode(_jsonData)`. The document is the JSON of the node itself, and the
    iterator is a position in it, so that every turn reads the JSON as it is by then. No class
    gives a node a new member for one it has: the members there are at the start are `turns`
    enough. -/
def populateOwn (c : NodeClass) (refused : World → Except Fault World) (n : NodeRef) :
    (turns i : Nat) → World → Except Fault (Bool × World)
  | 0, i, w => if (w.jsonOf n).length ≤ i then pure (true, w) else throw .stackOverflow
  | turns + 1, i, w =>
      match (w.jsonOf n)[i]? with
      | none => pure (true, w)
      | some m => do
          let (created, w) ← populateMembers c refused w [m]
          if created then populateOwn c refused n turns (i + 1) w else pure (false, w)

/-- What `populateNode` does when a child is refused. A node which has data deletes its
    children and is populated with its data again. The deleted children stay in `_subnodes`,
    where the first one is looked at again, at the latest when the node prints itself for its
    parent: nothing can be said of a node which had any. -/
def repopulate (c : NodeClass) (n : NodeRef) : Nat → World → Except Fault World
  | depth, w =>
      if (w.jsonOf n).isEmpty then pure w
      else if w.subnodes n ≠ [] then throw .useAfterFree
      else
        match depth with
        | 0 => throw .stackOverflow
        | depth + 1 => do
            let (populated, w) ← populateOwn c (repopulate c n depth) n (w.jsonOf n).length 0 w
            pure (if populated then w.adopt n (w.jsonOf n) else w)

/-- How often `populateNode` can call itself before the stack is used up. -/
def stackDepth : Nat := 1000

def populateNode (c : NodeClass) (w : World) (n : NodeRef) (data : QJsonObject) :
    Except Fault (Bool × World) :=
  if (' ' : QChar) ∈ w.nameOf n then pure (false, w)
  else do
    let (populated, w) ← populateMembers c (repopulate c n stackDepth) w data
    if populated then pure (true, w.adopt n data)
    else pure (false, w)

/-! ## The mutex of the patch -/

def lock (w : World) : Except Fault World :=
  match w.mutex with
  | .noop => pure w
  | .free => pure { w with mutex := .held }
  | .held => throw .deadlock

def unlock (w : World) : World :=
  match w.mutex with
  | .noop => w
  | .free | .held => { w with mutex := .free }

def observe (w : World) (o : Observation) : World := { w with log := w.log ++ [o] }

end World

end VoxPopuli
