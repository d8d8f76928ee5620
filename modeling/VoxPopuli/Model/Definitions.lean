import VoxPopuli.Model.EventNode

/-! # The definitions of an event and their JSON

The JSON array of a trigger should list the keys of its callbacks, and a call which fails
should leave the event as it is. Two slips break this: `removeEvent` erases the definition
from a copy of the array, and `addEvent` neither looks for a definition which is there already
nor takes a new trigger back when the definition is refused. The lookup of a trigger runs it,
so configuring an event can fire it too.
-/

namespace VoxPopuli

/-- The calls which change the definitions of an event. -/
inductive EventCall where
  | add (s : Surroundings) (definition trigger : QString)
  | remove (definition trigger : QString)

namespace EventCall

def perform (n : EventNode) : EventCall → Bool × EventNode × List Effect
  | add s definition trigger => n.addEvent s definition trigger
  | remove definition trigger => n.removeEvent definition trigger

/-- One call of a run. -/
def step (n : EventNode) (c : EventCall) : Except Fault EventNode := pure (c.perform n).2.1

end EventCall

namespace EventNode

/-- The array of each trigger lists the definitions of its callbacks, each of them once. -/
def Agrees (n : EventNode) : Prop :=
  ∀ trigger, ∃ definitions : QStringList, n.json.toArray trigger = definitions.map .string ∧
    definitions.Perm (n.callbacks trigger).keys

/-- A call which fails has changed nothing. -/
def LeavesOnFailure (n : EventNode) (c : EventCall) : Prop :=
  (c.perform n).1 = false → (c.perform n).2.1 = n

/-- The definition is new to its trigger, and it is accepted or the trigger is there already,
    with its array; or there is nothing to remove. -/
def Safe (n : EventNode) : EventCall → Prop
  | .add s definition trigger => definition ∉ (n.callbacks trigger).keys ∧
      (n.Accepts s definition ∨ n.Has trigger ∧ n.json.contains trigger)
  | .remove definition trigger => definition ∉ (n.callbacks trigger).keys

variable {s : Surroundings} {n : EventNode} {definition trigger : QString}

/-! ## What the calls do -/

/-- What `addEvent` makes of the JSON before it adds the definition. -/
def lookedUp (n : EventNode) (trigger : QString) : EventNode :=
  if n.Has trigger then (n.readArray trigger).2 else n

@[simp] theorem callbacks_readArray (n : EventNode) (trigger trigger' : QString) :
    (n.readArray trigger).2.callbacks trigger' = n.callbacks trigger' := by
  unfold readArray callbacks
  cases n.json.contains trigger <;> rfl

@[simp] theorem callbacks_lookedUp (n : EventNode) (trigger trigger' : QString) :
    (n.lookedUp trigger).callbacks trigger' = n.callbacks trigger' := by
  unfold lookedUp
  split
  · exact callbacks_readArray n trigger trigger'
  · rfl

/-- Reading an array creates its key, which still reads as the empty array. -/
theorem toArray_readArray (n : EventNode) (trigger trigger' : QString) :
    (n.readArray trigger).2.json.toArray trigger' = n.json.toArray trigger' := by
  unfold readArray
  by_cases there : n.json.contains trigger
  · simp [there]
  · have absent : n.json.value trigger = none := by simpa [QJsonObject.contains] using there
    simp only [there, Bool.false_eq_true, if_false]
    by_cases same : trigger' = trigger
    · subst same
      simp [QJsonObject.toArray, absent, QJsonValue.toArray]
    · simp [QJsonObject.toArray, same]

/-- `addEvent`, with the trigger as it is found. -/
theorem addEvent_eq (s : Surroundings) (n : EventNode) (definition trigger : QString) :
    n.addEvent s definition trigger =
      match updateEventTrigger s n.inEvents definition none with
      | none => (false, (n.lookedUp trigger).setTrigger trigger
          ((n.callbacks trigger).erase definition), (n.eventByTrigger trigger).2)
      | some cb => (true,
          { (n.lookedUp trigger).setTrigger trigger
              ((n.callbacks trigger).insert definition cb) with
            json := (n.lookedUp trigger).json.insert trigger
              (.array ((if n.Has trigger then n.json.toArray trigger else []) ++
                [.string definition])) },
          (n.eventByTrigger trigger).2) := by
  have found := eventByTrigger_fst n trigger
  have inEvents : (n.lookedUp trigger).inEvents = n.inEvents := by
    unfold lookedUp readArray
    split <;> [split; skip] <;> rfl
  unfold addEvent Callbacks.addEvent
  by_cases has : n.Has trigger
  · have looked : n.lookedUp trigger = (n.readArray trigger).2 := if_pos has
    rw [looked] at inEvents ⊢
    simp only [found, has, if_true, Option.isSome_some, Option.getD_some, inEvents]
    cases updateEventTrigger s n.inEvents definition none with
    | none => rfl
    | some cb => simp [readArray]
  · have looked : n.lookedUp trigger = n := if_neg has
    rw [looked]
    simp only [found, has, if_false, Option.isSome_none, Option.getD_none,
      callbacks_of_not_has has, Bool.false_eq_true]
    cases updateEventTrigger s n.inEvents definition none with
    | none => rfl
    | some cb => simp

/-- Only the trigger which is named changes, as `EventTrigger::addEvent` changes it. -/
theorem callbacks_addEvent (s : Surroundings) (n : EventNode) (definition trigger trigger' : QString) :
    (n.addEvent s definition trigger).2.1.callbacks trigger' =
      if trigger' = trigger then ((n.callbacks trigger).addEvent s n.inEvents definition).2
      else n.callbacks trigger' := by
  rw [addEvent_eq, Callbacks.addEvent]
  cases updateEventTrigger s n.inEvents definition none with
  | none => rw [callbacks_setTrigger, callbacks_lookedUp]
  | some cb =>
      rw [← callbacks_lookedUp n trigger trigger', ← callbacks_setTrigger]
      rfl

/-- A trigger's definition which is not there is not removed. -/
theorem removeEvent_absent (absent : definition ∉ (n.callbacks trigger).keys) :
    n.removeEvent definition trigger = (false, n, (n.eventByTrigger trigger).2) := by
  have found := eventByTrigger_fst n trigger
  unfold removeEvent
  cases lookup : n.eventByTrigger trigger with
  | mk t effects =>
      rw [lookup] at found
      dsimp only at found
      cases t with
      | none => rfl
      | some t =>
          have same : t = n.callbacks trigger := by
            split at found
            · exact Option.some.inj found
            · cases found
          subst same
          have gone : ((n.callbacks trigger).find? definition).isNone := by
            simpa [SortedMap.mem_keys] using absent
          simp [Callbacks.removeEvent, gone]

/-- One which is there leaves the callbacks but stays in the JSON. -/
theorem removeEvent_present (present : definition ∈ (n.callbacks trigger).keys) :
    (n.removeEvent definition trigger).2.1 =
      ((n.setTrigger trigger ((n.callbacks trigger).erase definition)).readArray trigger).2 := by
  have has : n.Has trigger := by
    by_contra absent
    rw [callbacks_of_not_has absent] at present
    exact List.not_mem_nil present
  have found := eventByTrigger_fst n trigger
  rw [if_pos has] at found
  have there : ((n.callbacks trigger).find? definition).isNone = false := by
    have some := SortedMap.mem_keys.mp present
    cases value : (n.callbacks trigger).find? definition with
    | none => simp [value] at some
    | some cb => rfl
  unfold removeEvent
  cases lookup : n.eventByTrigger trigger with
  | mk t effects =>
      rw [lookup] at found
      dsimp only at found
      subst found
      simp [Callbacks.removeEvent, there]

/-- The callbacks after `removeEvent`, whether or not the definition was there. -/
theorem callbacks_removeEvent (n : EventNode) (definition trigger trigger' : QString) :
    (n.removeEvent definition trigger).2.1.callbacks trigger' =
      if trigger' = trigger then (n.callbacks trigger).erase definition
      else n.callbacks trigger' := by
  by_cases present : definition ∈ (n.callbacks trigger).keys
  · rw [removeEvent_present present, callbacks_readArray, callbacks_setTrigger]
  · rw [removeEvent_absent present, SortedMap.erase_of_not_mem present]
    split
    · rename_i same
      rw [same]
    · rfl

/-! ## Which calls keep the agreement -/

theorem map_string_injective {l l' : QStringList}
    (same : l.map QJsonValue.string = l'.map QJsonValue.string) : l = l' :=
  List.map_injective_iff.mpr (fun _ _ equal => QJsonValue.string.inj equal) same

theorem Agrees.perm_keys (h : n.Agrees) {definitions : QStringList}
    (array : n.json.toArray trigger = definitions.map .string) :
    definitions.Perm (n.callbacks trigger).keys := by
  obtain ⟨definitions', array', perm⟩ := h trigger
  rw [array] at array'
  rw [map_string_injective array']
  exact perm

theorem Agrees.toArray_eq (h : n.Agrees) (trigger : QString) :
    (if n.Has trigger then n.json.toArray trigger else []) = n.json.toArray trigger := by
  split
  · rfl
  · rename_i absent
    obtain ⟨definitions, array, perm⟩ := h trigger
    rw [callbacks_of_not_has absent] at perm
    rw [array, List.perm_nil.mp perm]
    rfl

theorem toArray_lookedUp (n : EventNode) (trigger trigger' : QString) :
    (n.lookedUp trigger).json.toArray trigger' = n.json.toArray trigger' := by
  unfold lookedUp
  split
  · exact toArray_readArray n trigger trigger'
  · rfl

/-- A new definition is added to both. A definition which is there already is added to the
    array again. -/
theorem Agrees.add_iff (h : n.Agrees) (accepted : n.Accepts s definition) :
    (n.addEvent s definition trigger).2.1.Agrees ↔ definition ∉ (n.callbacks trigger).keys := by
  obtain ⟨cb, accept⟩ := Option.isSome_iff_exists.mp accepted
  obtain ⟨definitions, array, perm⟩ := h trigger
  have arrays : ∀ trigger', (n.addEvent s definition trigger).2.1.json.toArray trigger' =
      if trigger' = trigger then (definitions ++ [definition]).map .string
      else n.json.toArray trigger' := by
    intro trigger'
    rw [addEvent_eq, accept, h.toArray_eq, array]
    dsimp only
    by_cases same : trigger' = trigger
    · subst same
      simp [QJsonObject.toArray, QJsonValue.toArray]
    · have old := toArray_lookedUp n trigger trigger'
      simp only [QJsonObject.toArray] at old
      simp [QJsonObject.toArray, same, old]
  have maps : ∀ trigger', (n.addEvent s definition trigger).2.1.callbacks trigger' =
      if trigger' = trigger then (n.callbacks trigger).insert definition cb
      else n.callbacks trigger' := by
    intro trigger'
    rw [callbacks_addEvent, Callbacks.addEvent, accept]
  constructor
  · intro after present
    have perm' := after.perm_keys ((arrays trigger).trans (if_pos rfl))
    have nodup := perm'.nodup_iff.mpr (SortedMap.nodup_keys _)
    have twice : definition ∈ definitions := perm.mem_iff.mpr present
    exact (List.nodup_append.mp nodup).2.2 definition twice definition List.mem_cons_self rfl
  · intro new trigger'
    rw [arrays, maps]
    by_cases same : trigger' = trigger
    · simp only [same, if_true]
      refine ⟨_, rfl, ?_⟩
      have swap : (definitions ++ [definition]).Perm (definition :: definitions) :=
        List.perm_append_comm
      exact (swap.trans (perm.cons definition)).trans (SortedMap.keys_insert_perm new cb).symm
    · simp only [same, if_false]
      exact h trigger'

/-- A refused definition leaves everything as it is only when its trigger is there already
    with its array, and does not have the definition. -/
theorem add_refused_iff (refused : ¬n.Accepts s definition) :
    (n.addEvent s definition trigger).2.1 = n ↔ definition ∉ (n.callbacks trigger).keys ∧
      n.Has trigger ∧ n.json.contains trigger := by
  have refuse := Option.not_isSome_iff_eq_none.mp refused
  rw [addEvent_eq, refuse]
  dsimp only
  constructor
  · intro same
    have erased : (n.callbacks trigger).erase definition = n.callbacks trigger := by
      have maps := congrArg (fun n => n.callbacks trigger) same
      simpa using maps
    have new : definition ∉ (n.callbacks trigger).keys := by
      rw [← erased, SortedMap.mem_keys]
      simp
    have has : n.Has trigger := by
      by_contra absent
      have looked : n.lookedUp trigger = n := if_neg absent
      have other : trigger ≠ "any" := fun any => absent (.inl any)
      rw [looked, setTrigger, if_neg other] at same
      have triggers := congrArg EventNode.triggers same
      refine absent (.inr ?_)
      rw [← triggers]
      simp
    refine ⟨new, has, ?_⟩
    have json := congrArg EventNode.json same
    rw [json_setTrigger, lookedUp, if_pos has, readArray] at json
    by_contra missing
    simp only [missing, if_false] at json
    rw [← json] at missing
    simp [QJsonObject.contains] at missing
  · intro h
    obtain ⟨new, has, there⟩ := h
    have looked : n.lookedUp trigger = n := by simp [lookedUp, has, readArray, there]
    rw [looked, SortedMap.erase_of_not_mem new]
    unfold setTrigger callbacks
    rcases has with any | other
    · simp [any]
    · by_cases any : trigger = "any"
      · simp [any]
      · obtain ⟨t, found⟩ := Option.isSome_iff_exists.mp other
        simp [any, found, SortedMap.insert_of_find? found]

/-- What is removed from the callbacks stays in the array. -/
theorem Agrees.not_remove (h : n.Agrees) (present : definition ∈ (n.callbacks trigger).keys) :
    ¬(n.removeEvent definition trigger).2.1.Agrees := by
  intro after
  obtain ⟨definitions, array, perm⟩ := h trigger
  rw [removeEvent_present present] at after
  have kept : (((n.setTrigger trigger ((n.callbacks trigger).erase definition)).readArray
      trigger).2.json).toArray trigger = definitions.map .string := by
    rw [toArray_readArray, json_setTrigger, array]
  have same := after.perm_keys kept
  have still := same.mem_iff.mp (perm.mem_iff.mpr present)
  rw [callbacks_readArray, callbacks_setTrigger, if_pos rfl, SortedMap.mem_keys] at still
  simp at still

/-- One call. -/
theorem Agrees.safe_iff (h : n.Agrees) (c : EventCall) :
    (c.perform n).2.1.Agrees ∧ n.LeavesOnFailure c ↔ n.Safe c := by
  cases c with
  | add s definition trigger =>
      by_cases accepted : n.Accepts s definition
      · have succeeds : (n.addEvent s definition trigger).1 = true := by
          obtain ⟨cb, accept⟩ := Option.isSome_iff_exists.mp accepted
          rw [addEvent_eq, accept]
        simp only [EventCall.perform, h.add_iff accepted, LeavesOnFailure, succeeds, Safe, accepted,
          Bool.true_eq_false, false_imp_iff, true_or, and_true]
      · have fails : (n.addEvent s definition trigger).1 = false := by
          rw [addEvent_eq, Option.not_isSome_iff_eq_none.mp accepted]
        simp only [EventCall.perform, LeavesOnFailure, fails, Safe, accepted, false_or, true_imp_iff,
          add_refused_iff accepted]
        constructor
        · exact fun h => h.2
        · intro safe
          refine ⟨?_, safe⟩
          rw [(add_refused_iff accepted).mpr safe]
          exact h
  | remove definition trigger =>
      by_cases present : definition ∈ (n.callbacks trigger).keys
      · exact iff_of_false (fun both => h.not_remove present both.1) fun safe => safe present
      · simp only [EventCall.perform, LeavesOnFailure, removeEvent_absent present, Safe, present,
          not_false_eq_true, implies_true, and_true, iff_true]
        exact h

/-- The definitions and the JSON agree in every state of a run, and the calls which fail leave
    the event as it is, exactly when they agree at the start and every call is safe. -/
theorem definitions_persisted_iff (n : EventNode) (calls : List EventCall) :
    (∀ n', Runs.Reaches EventCall.step n calls n' → n'.Agrees) ∧
        Runs.Throughout EventCall.step LeavesOnFailure n calls ↔
      n.Agrees ∧ Runs.Throughout EventCall.step Safe n calls := by
  rw [Runs.reaches_iff_throughout, and_assoc, Runs.throughout_and]
  refine and_congr_right fun start => Runs.throughout_congr (I := Agrees) start ?_ ?_
  · intro n c h
    rw [← h.safe_iff c]
    refine and_congr_left fun _ => ⟨fun next => next _ rfl, fun after n' first => ?_⟩
    cases first
    exact after
  · exact fun n c n' _ both first => both.1 n' first

/-- A definition which is removed again stays in the JSON, and a refused one leaves its new
    trigger behind. -/
theorem not_definitions_persisted :
    let note : QString := "M|Synth:0|NoteOn|3C7F"
    let s : Surroundings := ⟨fun _ _ => none, fun _ => none⟩
    ¬(∀ n', Runs.Reaches EventCall.step {} [.add s note "any", .remove note "any"] n' → n'.Agrees) ∧
      ¬Runs.Throughout EventCall.step LeavesOnFailure {} [.add s "note" "down"] := by
  refine ⟨fun agrees => ?_, fun leaves => ?_⟩
  · have after := agrees _ (.there rfl (.there rfl (.here _ [])))
    obtain ⟨definitions, array, perm⟩ := after ("any" : QString)
    have count := perm.length_eq
    rw [← List.length_map (f := QJsonValue.string), ← array] at count
    exact absurd count (by decide)
  · have same := congrArg (fun n => n.triggers.keys) (leaves.1 rfl)
    exact absurd same (by decide)

/-! ## Which calls run a trigger -/

/-- The calls which configure an event. -/
inductive ConfigCall where
  | addEvent (s : Surroundings) (definition trigger : QString)
  | removeEvent (definition trigger : QString)
  | eventByTrigger (trigger : QString)
  | parseArray (s : Surroundings) (name : QString) (value : QStringList)

/-- The callbacks which a call runs, and the signals it emits. -/
def ConfigCall.effects (n : EventNode) : ConfigCall → List Effect
  | addEvent s definition trigger => (n.addEvent s definition trigger).2.2
  | removeEvent definition trigger => (n.removeEvent definition trigger).2.2
  | eventByTrigger trigger => (n.eventByTrigger trigger).2
  | parseArray s name value => (n.parseArray s name value).2

/-- The call looks up no trigger, other than `any`, which the event has: one which it has
    already, or one which the definitions before in the array have made. -/
def ConfigCall.Quiet (n : EventNode) : ConfigCall → Prop
  | addEvent _ _ trigger | removeEvent _ trigger | eventByTrigger trigger =>
      trigger = "any" ∨ ¬n.Has trigger
  | parseArray _ name value => name = "any" ∨ value = [] ∨ ¬n.Has name ∧ value.length = 1

/-- A lookup is quiet when it is for `any`, or finds nothing. -/
theorem eventByTrigger_quiet_iff (n : EventNode) (trigger : QString) :
    (n.eventByTrigger trigger).2 = [] ↔ trigger = "any" ∨ ¬n.Has trigger := by
  unfold eventByTrigger Has
  by_cases any : trigger = "any"
  · simp [any]
  · cases found : n.triggers.find? trigger with
    | none => simp [any]
    | some t => simp [any, Callbacks.trigger]

theorem addEvent_effects (s : Surroundings) (n : EventNode) (definition trigger : QString) :
    (n.addEvent s definition trigger).2.2 = (n.eventByTrigger trigger).2 := by
  rw [addEvent_eq]
  cases updateEventTrigger s n.inEvents definition none with
  | none => rfl
  | some cb => rfl

theorem removeEvent_effects (n : EventNode) (definition trigger : QString) :
    (n.removeEvent definition trigger).2.2 = (n.eventByTrigger trigger).2 := by
  unfold removeEvent
  cases n.eventByTrigger trigger with
  | mk t effects =>
      cases t with
      | none => rfl
      | some t =>
          dsimp only
          split <;> rfl

theorem has_setTrigger (n : EventNode) (trigger : QString) (t : Callbacks) :
    (n.setTrigger trigger t).Has trigger := by
  unfold setTrigger Has
  by_cases any : trigger = "any"
  · exact .inl any
  · exact .inr (by simp [any])

/-- Whether or not the definition is accepted, the event has the trigger afterwards. -/
theorem has_addEvent (s : Surroundings) (n : EventNode) (definition trigger : QString) :
    (n.addEvent s definition trigger).2.1.Has trigger := by
  rw [addEvent_eq]
  cases updateEventTrigger s n.inEvents definition none with
  | none => exact has_setTrigger _ trigger _
  | some cb => exact has_setTrigger _ trigger _

theorem parseArray_quiet_iff (s : Surroundings) (n : EventNode) (name : QString)
    (value : QStringList) : (n.parseArray s name value).2 = [] ↔
      name = "any" ∨ value = [] ∨ ¬n.Has name ∧ value.length = 1 := by
  induction value generalizing n with
  | nil => simp [parseArray]
  | cons v rest ih =>
      have has := has_addEvent s n v name
      simp only [parseArray, List.append_eq_nil_iff, addEvent_effects, eventByTrigger_quiet_iff,
        ih, has, not_true, false_and, or_false, List.cons_ne_nil, false_or, List.length_cons,
        Nat.add_eq_right, List.length_eq_zero_iff]
      tauto

/-- A call which configures an event runs no callback and emits no signal exactly when it is
    quiet. -/
theorem configuring_quiet_iff (n : EventNode) (call : ConfigCall) :
    call.effects n = [] ↔ call.Quiet n := by
  cases call with
  | addEvent s definition trigger =>
      rw [ConfigCall.effects, addEvent_effects]
      exact eventByTrigger_quiet_iff n trigger
  | removeEvent definition trigger =>
      rw [ConfigCall.effects, removeEvent_effects]
      exact eventByTrigger_quiet_iff n trigger
  | eventByTrigger trigger => exact eventByTrigger_quiet_iff n trigger
  | parseArray s name value => exact parseArray_quiet_iff s n name value

/-- A second definition for a trigger sends the first one. -/
theorem not_configuring_quiet :
    let s : Surroundings := ⟨fun _ _ => some 0, fun _ => none⟩
    let call := ConfigCall.parseArray s "down" ["M|Synth:0|NoteOn|3C7F", "M|Synth:0|CC|0700"]
    call.effects {} ≠ [] ∧
      .callback "down" "M|Synth:0|NoteOn|3C7F" (.midi 0 0 9 [0x3C, 0x7F]) 0 ∈ call.effects {} := by
  decide +kernel

end EventNode

end VoxPopuli
