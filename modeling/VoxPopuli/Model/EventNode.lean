import VoxPopuli.Lib.Runs
import VoxPopuli.Model.EventTrigger
import VoxPopuli.Model.VirtualNetwork

/-! # Event nodes

`Event` of `virtualnetwork.cpp` with its callbacks: the definitions of an event are kept in
the callbacks of its triggers and once more in its JSON. Looking a trigger up runs it.
-/

namespace VoxPopuli

/-- An `Event`: its JSON, the trigger `any` and the other triggers by name. -/
structure EventNode where
  json : QJsonObject := Event.createEventJSon
  inEvents : Bool := false
  anyTrigger : Callbacks := ∅
  triggers : SortedMap QString Callbacks := ∅

namespace EventNode

def eventByTrigger (n : EventNode) (trigger : QString) : Option Callbacks × List Effect :=
  if trigger = "any" then (some n.anyTrigger, [])
  else
    match n.triggers.find? trigger with
    | none => (none, [])
    | some t => (some t, t.trigger trigger 0)

def setTrigger (n : EventNode) (trigger : QString) (t : Callbacks) : EventNode :=
  if trigger = "any" then { n with anyTrigger := t }
  else { n with triggers := n.triggers.insert trigger t }

/-- `_jsonData[trigger].toArray()`: a missing key is created. -/
def readArray (n : EventNode) (trigger : QString) : QJsonArray × EventNode :=
  (n.json.toArray trigger,
    if n.json.contains trigger then n else { n with json := n.json.insert trigger .null })

def addEvent (s : Surroundings) (n : EventNode) (description trigger : QString) :
    Bool × EventNode × List Effect :=
  let (found, effects) := n.eventByTrigger trigger
  let (a, n) := if found.isSome then n.readArray trigger else ([], n)
  let (added, t) := (found.getD ∅).addEvent s n.inEvents description
  let n := n.setTrigger trigger t
  if added then
    (true, { n with json := n.json.insert trigger (.array (a ++ [.string description])) }, effects)
  else (false, n, effects)

/-- The definition is erased from a copy of the JSON array. -/
def removeEvent (n : EventNode) (definition trigger : QString) : Bool × EventNode × List Effect :=
  match n.eventByTrigger trigger with
  | (none, effects) => (false, n, effects)
  | (some t, effects) =>
      let (removed, t) := t.removeEvent definition
      if !removed then (false, n, effects)
      else
        let (a, n) := (n.setTrigger trigger t).readArray trigger
        (a.any fun x => x.toString = definition, n, effects)

def triggerEvent (n : EventNode) (trigger : QString) : Bool × List Effect :=
  let effects := n.anyTrigger.trigger "any" 0
  match n.triggers.find? trigger with
  | none => (false, effects)
  | some t => (true, effects ++ t.trigger trigger 0)

def parseArray (s : Surroundings) (n : EventNode) (name : QString) :
    QStringList → EventNode × List Effect
  | [] => (n, [])
  | v :: rest =>
      let (_, n, effects) := n.addEvent s v name
      let (n, more) := n.parseArray s name rest
      (n, effects ++ more)

/-- The callbacks of a trigger, none when there is no such trigger. -/
def callbacks (n : EventNode) (trigger : QString) : Callbacks :=
  if trigger = "any" then n.anyTrigger else (n.triggers.find? trigger).getD ∅

/-- Whether there is a trigger of the name. -/
def Has (n : EventNode) (trigger : QString) : Prop :=
  trigger = "any" ∨ (n.triggers.find? trigger).isSome

instance (n : EventNode) (trigger : QString) : Decidable (n.Has trigger) :=
  inferInstanceAs (Decidable (_ ∨ _))

/-! ## Lookups -/

variable {n : EventNode} {trigger : QString}

theorem eventByTrigger_fst (n : EventNode) (trigger : QString) :
    (n.eventByTrigger trigger).1 = if n.Has trigger then some (n.callbacks trigger) else none := by
  unfold eventByTrigger callbacks Has
  split
  · rename_i any
    simp [any]
  · rename_i other
    cases found : n.triggers.find? trigger with
    | none => simp [other]
    | some t => simp [other]

theorem callbacks_of_not_has (absent : ¬n.Has trigger) : n.callbacks trigger = ∅ := by
  unfold Has at absent
  obtain ⟨other, none⟩ := not_or.mp absent
  rw [Option.not_isSome_iff_eq_none] at none
  simp [callbacks, other, none]

@[simp] theorem callbacks_setTrigger (n : EventNode) (trigger trigger' : QString) (t : Callbacks) :
    (n.setTrigger trigger t).callbacks trigger' =
      if trigger' = trigger then t else n.callbacks trigger' := by
  unfold setTrigger callbacks
  by_cases any : trigger = "any"
  · subst any
    simp only [if_true]
    split <;> rfl
  · simp only [any, if_false]
    by_cases same : trigger' = trigger
    · subst same
      simp [any]
    · simp [same]

@[simp] theorem json_setTrigger (n : EventNode) (trigger : QString) (t : Callbacks) :
    (n.setTrigger trigger t).json = n.json := by
  unfold setTrigger
  split <;> rfl

@[simp] theorem inEvents_setTrigger (n : EventNode) (trigger : QString) (t : Callbacks) :
    (n.setTrigger trigger t).inEvents = n.inEvents := by
  unfold setTrigger
  split <;> rfl

/-- A definition is accepted whatever its trigger holds already. -/
def Accepts (s : Surroundings) (n : EventNode) (definition : QString) : Prop :=
  (updateEventTrigger s n.inEvents definition none).isSome

end EventNode

end VoxPopuli
