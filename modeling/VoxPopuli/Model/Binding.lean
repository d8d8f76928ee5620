import VoxPopuli.Model.MidiInterface

/-! # The binding of MIDI definitions to ports

A definition should have a callback exactly while there is an output port of its name, and the
callback should be bound to that port. Opening a port and every change of the definitions bind
them anew. Closing a port leaves the callbacks behind for which no other port is found, and
renaming a port binds nothing.
-/

namespace VoxPopuli

namespace Midi

/-- A MIDI definition which a trigger of an output event has. -/
def Held (m : Midi) (e : EventRef) (trigger definition : QString) (d : MidiDefinition) : Prop :=
  (m.events e).inEvents = false ∧ definition ∈ ((m.events e).callbacks trigger).keys ∧
    (definition.splitOn ('|' : QChar)).head? = some ("M" : QString) ∧
    MidiDefinition.parse? (definition.splitOn ('|' : QChar)) = some d

/-- The callback of a definition while the port of its name is `port?`. -/
def boundTo (d : MidiDefinition) (port? : Option Nat) : Option EventCb :=
  port?.map fun p => .midi p d.channel d.event d.data

/-- Every definition is bound to the open port of its name, if there is one. -/
def AllBound (m : Midi) : Prop :=
  ∀ e trigger definition d, m.Held e trigger definition d →
    ((m.events e).callbacks trigger).find? definition =
      some (boundTo d (m.portByName false d.port))

/-- The triggers which are registered are those with a MIDI definition, each of them once. -/
def Registered (m : Midi) : Prop :=
  m.midiEventTriggers.Nodup ∧ ∀ e trigger, (e, trigger) ∈ m.midiEventTriggers ↔
    ∃ definition ∈ ((m.events e).callbacks trigger).keys,
      (definition.splitOn ('|' : QChar)).head? = some ("M" : QString)

/-- The triggers hold accepted definitions only. -/
def AllAccepted (m : Midi) : Prop :=
  ∀ e trigger, ∀ definition ∈ ((m.events e).callbacks trigger).keys,
    (m.events e).Accepts m.surroundings definition

end Midi

/-! ## Definitions -/

/-- Whether a definition is accepted is a matter of its text and of the keyboard. -/
theorem EventNode.accepts_congr {s s' : Surroundings} (keyboard : s'.keyboard = s.keyboard)
    {n n' : EventNode} (inEvents : n'.inEvents = n.inEvents) {definition : QString}
    (accepted : n.Accepts s definition) : n'.Accepts s' definition := by
  unfold Accepts at *
  rw [inEvents]
  by_cases midi : (definition.splitOn ('|' : QChar)).head? = some ("M" : QString)
  · rw [updateEventTrigger_midi _ _ midi, Option.isSome_map] at *
    exact accepted
  · rw [updateEventTrigger_other keyboard _ midi]
    exact accepted

/-- The first part of a definition starts with its first character. -/
theorem head?_splitOn (definition : QString) : ∃ rest part, definition.splitOn ('|' : QChar) = part :: rest ∧
    (part ≠ [] → definition.head? = part.head?) := by
  cases definition with
  | nil => exact ⟨[], [], rfl, fun empty => absurd rfl empty⟩
  | cons c definition =>
      rw [List.splitOn_cons_eq_if_modifyHead]
      split
      · exact ⟨_, [], rfl, fun empty => absurd rfl empty⟩
      · cases parts : definition.splitOn ('|' : QChar) with
        | nil => exact absurd parts (List.splitOn_ne_nil _ _)
        | cons part rest => exact ⟨rest, c :: part, rfl, fun _ => rfl⟩

/-- Of the accepted definitions those for MIDI start with an `M`, and are parsed. -/
theorem EventNode.Accepts.midi_iff {s : Surroundings} {n : EventNode} {definition : QString}
    (accepted : n.Accepts s definition) :
    (definition.splitOn ('|' : QChar)).head? = some ("M" : QString) ↔
      definition.head? = some ('M' : QChar) := by
  obtain ⟨rest, part, parts, first⟩ := head?_splitOn definition
  unfold Accepts updateEventTrigger at accepted
  simp only [parts, List.head?_cons] at accepted
  rw [parts, List.head?_cons, Option.some.injEq]
  split at accepted
  · rename_i midi
    rw [first (by rw [midi]; decide), midi]
    decide
  · rename_i other
    split at accepted
    · rename_i key
      rw [first (by rw [key]; decide), key]
      decide
    · cases accepted

namespace Midi

variable {m m' : Midi}

/-- An update replaces the callback of a MIDI definition when there is a port of its name. -/
theorem find?_update {callbacks : Callbacks} {definition : QString} {d : MidiDefinition}
    {cb : Option EventCb} (s : Surroundings)
    (midi : (definition.splitOn ('|' : QChar)).head? = some ("M" : QString))
    (parsed : MidiDefinition.parse? (definition.splitOn ('|' : QChar)) = some d)
    (there : callbacks.find? definition = some cb) :
    (callbacks.update s false "M").find? definition =
      some ((boundTo d (s.portByName false d.port)).or cb) := by
  have starts : ("M" : QString) <+: definition := by
    obtain ⟨rest, part, parts, first⟩ := head?_splitOn definition
    rw [parts, List.head?_cons, Option.some.injEq] at midi
    have head := first (by rw [midi]; decide)
    rw [midi] at head
    cases definition with
    | nil => cases head
    | cons c definition =>
        cases head
        exact ⟨definition, rfl⟩
  rw [Callbacks.update, SortedMap.find?_mapEntries, there, Option.map_some, if_pos starts,
    updateEventTrigger_midi s false midi, parsed]
  simp only [Option.map_some, Option.getD_some, boundTo]
  cases s.portByName false d.port with
  | none => rfl
  | some p => rfl

/-- The update of all triggers of a list changes their callbacks and nothing else. -/
theorem foldl_updateTrigger {l : List (EventRef × QString)} (nodup : l.Nodup) (m : Midi) :
    ∃ events, l.foldl updateTrigger m = { m with events := events } ∧
      ∀ e, (events e).inEvents = (m.events e).inEvents ∧ ∀ trigger,
        (events e).callbacks trigger = if (e, trigger) ∈ l then
          ((m.events e).callbacks trigger).update m.surroundings (m.events e).inEvents "M"
        else (m.events e).callbacks trigger := by
  induction l generalizing m with
  | nil => exact ⟨m.events, rfl, fun e => ⟨rfl, fun trigger => rfl⟩⟩
  | cons t l ih =>
      obtain ⟨new, nodup⟩ := List.nodup_cons.mp nodup
      obtain ⟨events, same, updated⟩ := ih nodup (m.updateTrigger t)
      refine ⟨events, same, fun e => ?_⟩
      obtain ⟨inEvents, callbacks⟩ := updated e
      have here : ((m.updateTrigger t).events e).inEvents = (m.events e).inEvents ∧ ∀ trigger,
          ((m.updateTrigger t).events e).callbacks trigger = if (e, trigger) = t then
            ((m.events e).callbacks trigger).update m.surroundings (m.events e).inEvents "M"
          else (m.events e).callbacks trigger := by
        obtain ⟨e', trigger'⟩ := t
        by_cases same : e = e'
        · subst same
          simp only [updateTrigger, Function.update_self, EventNode.inEvents_setTrigger,
            EventNode.callbacks_setTrigger, Prod.mk.injEq, true_and]
          intro trigger
          split
          · rename_i same
            rw [same]
          · rfl
        · simp [updateTrigger, same]
      refine ⟨inEvents.trans here.1, fun trigger => ?_⟩
      rw [callbacks trigger, here.1, here.2 trigger]
      by_cases member : (e, trigger) ∈ l
      · have other : (e, trigger) ≠ t := by
          intro same
          exact new (same ▸ member)
        simp only [member, other, if_true, if_false, List.mem_cons, false_or]
        rfl
      · simp only [member, if_false, List.mem_cons, or_false]

theorem updateEventTriggers_eq (registered : m.Registered) :
    ∃ events, m.updateEventTriggers = { m with events := events } ∧
      ∀ e, (events e).inEvents = (m.events e).inEvents ∧ ∀ trigger,
        (events e).callbacks trigger = if (e, trigger) ∈ m.midiEventTriggers then
          ((m.events e).callbacks trigger).update m.surroundings (m.events e).inEvents "M"
        else (m.events e).callbacks trigger :=
  foldl_updateTrigger registered.1 m

/-- What stays the same when triggers are updated: everything but the callbacks themselves. -/
theorem keys_updateEventTriggers (registered : m.Registered) (e : EventRef) (trigger : QString) :
    ((m.updateEventTriggers.events e).callbacks trigger).keys =
      ((m.events e).callbacks trigger).keys := by
  obtain ⟨events, same, updated⟩ := updateEventTriggers_eq registered
  rw [same]
  dsimp only
  rw [(updated e).2]
  split
  · exact SortedMap.keys_mapEntries _ _
  · rfl

theorem Registered.held_iff (registered : m.Registered) {e : EventRef} {trigger definition : QString}
    {d : MidiDefinition} :
    m.updateEventTriggers.Held e trigger definition d ↔ m.Held e trigger definition d := by
  unfold Held
  rw [keys_updateEventTriggers registered]
  obtain ⟨events, same, updated⟩ := updateEventTriggers_eq registered
  rw [same]
  dsimp only
  rw [(updated e).1]

/-- After the ports have changed, updating the triggers binds all definitions again, except
    those which have lost their port. `old` finds the ports before. -/
theorem allBound_update_iff (registered : m.Registered) {old : QString → Option Nat}
    (bound : ∀ e trigger definition d, m.Held e trigger definition d →
      ((m.events e).callbacks trigger).find? definition = some (boundTo d (old d.port))) :
    m.updateEventTriggers.AllBound ↔ ∀ e trigger definition d, m.Held e trigger definition d →
      m.portByName false d.port = none → old d.port = none := by
  obtain ⟨events, same, updated⟩ := updateEventTriggers_eq registered
  have ports : ∀ name, m.updateEventTriggers.portByName false name = m.portByName false name := by
    intro name
    rw [same]
    rfl
  have found : ∀ e trigger definition d, m.Held e trigger definition d →
      ((m.updateEventTriggers.events e).callbacks trigger).find? definition =
        some ((boundTo d (m.portByName false d.port)).or (boundTo d (old d.port))) := by
    intro e trigger definition d held
    have isRegistered : (e, trigger) ∈ m.midiEventTriggers :=
      (registered.2 e trigger).mpr ⟨definition, held.2.1, held.2.2.1⟩
    rw [same]
    dsimp only
    rw [(updated e).2, if_pos isRegistered, held.1]
    exact find?_update m.surroundings held.2.2.1 held.2.2.2 (bound e trigger definition d held)
  unfold AllBound
  constructor
  · intro all e trigger definition d held lost
    have now := all e trigger definition d (registered.held_iff.mpr held)
    rw [found e trigger definition d held, ports, lost] at now
    simpa [boundTo] using now
  · intro kept e trigger definition d held
    have held := registered.held_iff.mp held
    rw [found e trigger definition d held, ports]
    cases port : m.portByName false d.port with
    | none => simp [boundTo, kept e trigger definition d held port]
    | some p => simp [boundTo]

end Midi

/-! ## Changes of the definitions -/

namespace EventNode

variable {s : Surroundings} {n : EventNode} {definition trigger : QString}

@[simp] theorem inEvents_readArray (n : EventNode) (trigger : QString) :
    (n.readArray trigger).2.inEvents = n.inEvents := by
  unfold readArray
  cases n.json.contains trigger <;> rfl

theorem inEvents_addEvent (s : Surroundings) (n : EventNode) (definition trigger : QString) :
    (n.addEvent s definition trigger).2.1.inEvents = n.inEvents := by
  have looked : (n.lookedUp trigger).inEvents = n.inEvents := by
    unfold lookedUp
    split
    · exact inEvents_readArray n trigger
    · rfl
  rw [addEvent_eq]
  cases updateEventTrigger s n.inEvents definition none with
  | none => rw [inEvents_setTrigger, looked]
  | some cb => exact (inEvents_setTrigger _ _ _).trans looked

theorem inEvents_removeEvent (n : EventNode) (definition trigger : QString) :
    (n.removeEvent definition trigger).2.1.inEvents = n.inEvents := by
  by_cases present : definition ∈ (n.callbacks trigger).keys
  · rw [removeEvent_present present, inEvents_readArray, inEvents_setTrigger]
  · rw [removeEvent_absent present]

theorem addEvent_fst (s : Surroundings) (n : EventNode) (definition trigger : QString) :
    (n.addEvent s definition trigger).1 = true ↔ n.Accepts s definition := by
  rw [addEvent_eq, Accepts]
  cases updateEventTrigger s n.inEvents definition none with
  | none => simp
  | some cb => simp

theorem find?_addEvent (s : Surroundings) (n : EventNode) (definition trigger trigger' x : QString) :
    ((n.addEvent s definition trigger).2.1.callbacks trigger').find? x =
      if trigger' = trigger ∧ x = definition then updateEventTrigger s n.inEvents definition none
      else (n.callbacks trigger').find? x := by
  rw [callbacks_addEvent, Callbacks.addEvent]
  by_cases same : trigger' = trigger
  · subst same
    by_cases equal : x = definition
    · subst equal
      cases updateEventTrigger s n.inEvents x none <;> simp
    · cases updateEventTrigger s n.inEvents definition none <;> simp [equal]
  · simp [same]

theorem find?_removeEvent (n : EventNode) (definition trigger trigger' x : QString) :
    ((n.removeEvent definition trigger).2.1.callbacks trigger').find? x =
      if trigger' = trigger ∧ x = definition then none else (n.callbacks trigger').find? x := by
  rw [callbacks_removeEvent]
  by_cases same : trigger' = trigger
  · subst same
    by_cases equal : x = definition
    · simp [equal]
    · simp [equal]
  · simp [same]

/-- The definitions of a trigger after one has been added, if those which it has are accepted. -/
theorem mem_keys_addEvent {s : Surroundings} {n : EventNode} {definition trigger : QString}
    (accepted : ∀ x ∈ (n.callbacks trigger).keys, n.Accepts s x) (trigger' x : QString) :
    x ∈ ((n.addEvent s definition trigger).2.1.callbacks trigger').keys ↔
      x ∈ (n.callbacks trigger').keys ∨
        trigger' = trigger ∧ x = definition ∧ (n.addEvent s definition trigger).1 = true := by
  rw [SortedMap.mem_keys, SortedMap.mem_keys, find?_addEvent, addEvent_fst]
  by_cases this : trigger' = trigger ∧ x = definition
  · obtain ⟨rfl, rfl⟩ := this
    simp only [and_self, if_true, true_and]
    rw [Accepts]
    constructor
    · exact Or.inr
    · intro old
      rcases old with old | new
      · exact accepted x (SortedMap.mem_keys.mpr old)
      · exact new
  · rw [if_neg this]
    constructor
    · exact Or.inl
    · intro old
      rcases old with old | ⟨same, equal, _⟩
      · exact old
      · exact absurd ⟨same, equal⟩ this

theorem mem_keys_removeEvent (n : EventNode) (definition trigger trigger' x : QString) :
    x ∈ ((n.removeEvent definition trigger).2.1.callbacks trigger').keys ↔
      x ∈ (n.callbacks trigger').keys ∧ ¬(trigger' = trigger ∧ x = definition) := by
  rw [SortedMap.mem_keys, SortedMap.mem_keys, find?_removeEvent]
  by_cases this : trigger' = trigger ∧ x = definition
  · simp [this]
  · rw [if_neg this]
    exact ⟨fun there => ⟨there, this⟩, fun there => there.1⟩

end EventNode

theorem Callbacks.holdsMidi_iff {s : Surroundings} {n : EventNode} {callbacks : Callbacks}
    (accepted : ∀ x ∈ callbacks.keys, n.Accepts s x) : callbacks.holdsMidi = true ↔
      ∃ x ∈ callbacks.keys, (x.splitOn ('|' : QChar)).head? = some ("M" : QString) := by
  unfold holdsMidi
  rw [List.any_eq_true]
  refine exists_congr fun x => and_congr_right fun there => ?_
  rw [decide_eq_true_eq, (accepted x there).midi_iff]

namespace Midi

variable {m m' : Midi}

/-- What always holds of the triggers and the ports. -/
structure Tidy (m : Midi) : Prop where
  registered : m.Registered
  accepted : m.AllAccepted
  ports : ∀ p ∈ m.ports, p < m.freshPort
  subnodes : m.subnodes = m.ports

/-- Callbacks which run leave the interface alone. -/
theorem runEffects_ends (m : Midi) (e : EventRef) (effects : List Effect) :
    Ends (fun _ => True) (m.runEffects e effects) fun m' => ∃ log, m' = { m with log := log } := by
  unfold runEffects
  refine Ends.foldlM (I := fun _ m' => ∃ log, m' = ({ m with log := log } : Midi)) ⟨m.log, rfl⟩ ?_
  intro effect rest m₁ same
  obtain ⟨log, rfl⟩ := same
  dsimp only
  split
  · split
    · exact ⟨_, rfl⟩
    · trivial
  · exact ⟨_, rfl⟩

/-- An event is replaced by one with accepted definitions, and the triggers are registered
    accordingly. -/
theorem Tidy.replace (h : m.Tidy) {e : EventRef} {n : EventNode} {log : List (EventRef × Effect)}
    {triggers : List (EventRef × QString)} (inEvents : n.inEvents = (m.events e).inEvents)
    (accepted : ∀ trigger, ∀ x ∈ (n.callbacks trigger).keys, (m.events e).Accepts m.surroundings x)
    (nodup : triggers.Nodup)
    (others : ∀ e' trigger, e' ≠ e → ((e', trigger) ∈ triggers ↔ (e', trigger) ∈ m.midiEventTriggers))
    (registered : ∀ trigger, (e, trigger) ∈ triggers ↔ ∃ x ∈ (n.callbacks trigger).keys,
      (x.splitOn ('|' : QChar)).head? = some ("M" : QString)) :
    Tidy { m with
      log := log
      events := Function.update m.events e n
      midiEventTriggers := triggers } := by
  refine ⟨⟨nodup, fun e' trigger => ?_⟩, fun e' trigger x member => ?_, h.ports, h.subnodes⟩
  · dsimp only
    by_cases same : e' = e
    · subst same
      rw [Function.update_self]
      exact registered trigger
    · rw [Function.update_of_ne same, others e' trigger same]
      exact h.registered.2 e' trigger
  · by_cases same : e' = e
    · subst same
      simp only [Function.update_self] at member ⊢
      exact EventNode.accepts_congr rfl inEvents (accepted trigger x member)
    · simp only [Function.update_of_ne same] at member ⊢
      exact h.accepted e' trigger x member

/-- An event is replaced by one with bound definitions. -/
theorem AllBound.replace (bound : m.AllBound) {e : EventRef} {n : EventNode}
    {log : List (EventRef × Effect)} {triggers : List (EventRef × QString)}
    (new : n.inEvents = false → ∀ trigger x d, x ∈ (n.callbacks trigger).keys →
      (x.splitOn ('|' : QChar)).head? = some ("M" : QString) →
      MidiDefinition.parse? (x.splitOn ('|' : QChar)) = some d →
      (n.callbacks trigger).find? x = some (boundTo d (m.portByName false d.port))) :
    AllBound { m with
      log := log
      events := Function.update m.events e n
      midiEventTriggers := triggers } := by
  rintro e' trigger x d ⟨output, there, midi, parsed⟩
  dsimp only at output there ⊢
  by_cases same : e' = e
  · subst same
    rw [Function.update_self] at output there ⊢
    exact new output trigger x d there midi parsed
  · rw [Function.update_of_ne same] at output there ⊢
    exact bound e' trigger x d ⟨output, there, midi, parsed⟩

theorem addEventTrigger_if (m : Midi) (t : EventRef × QString) (c : Prop) [Decidable c] :
    (if c then m.addEventTrigger t else m) = { m with
      midiEventTriggers := if c ∧ t ∉ m.midiEventTriggers then m.midiEventTriggers ++ [t]
        else m.midiEventTriggers } := by
  unfold addEventTrigger
  by_cases holds : c
  · by_cases there : t ∈ m.midiEventTriggers <;> simp [holds, there]
  · simp [holds]

theorem mem_addEventTrigger {l : List (EventRef × QString)} {t t' : EventRef × QString} {c : Prop}
    [Decidable c] : t' ∈ (if c ∧ t ∉ l then l ++ [t] else l) ↔ t' ∈ l ∨ c ∧ t' = t := by
  split
  · rename_i new
    simp [new.1]
  · rename_i kept
    constructor
    · exact Or.inl
    · rintro (old | ⟨holds, rfl⟩)
      · exact old
      · by_contra new
        exact kept ⟨holds, new⟩

theorem nodup_addEventTrigger {l : List (EventRef × QString)} (nodup : l.Nodup)
    {t : EventRef × QString} {c : Prop} [Decidable c] :
    (if c ∧ t ∉ l then l ++ [t] else l).Nodup := by
  split
  · rename_i new
    refine List.nodup_append.mpr ⟨nodup, List.nodup_singleton t, fun x old y same => ?_⟩
    rw [List.mem_singleton.mp same]
    rintro rfl
    exact new.2 old
  · exact nodup

/-- Adding a definition binds it, and registers the trigger if it is one for MIDI. -/
theorem Tidy.addEvent (h : m.Tidy) (e : EventRef) (definition trigger : QString) :
    Ends (fun _ => True) (m.addEvent e definition trigger) fun m' =>
      m'.Tidy ∧ (m.AllBound → m'.AllBound) := by
  have inEvents := EventNode.inEvents_addEvent m.surroundings (m.events e) definition trigger
  have found := EventNode.find?_addEvent m.surroundings (m.events e) definition trigger
  have success := EventNode.addEvent_fst m.surroundings (m.events e) definition trigger
  have keys := @EventNode.mem_keys_addEvent m.surroundings (m.events e) definition trigger
    (h.accepted e trigger)
  unfold Midi.addEvent
  generalize (m.events e).addEvent m.surroundings definition trigger = result
    at inEvents found success keys ⊢
  obtain ⟨added, n, effects⟩ := result
  dsimp only at inEvents found success keys ⊢
  apply (runEffects_ends m e effects).bind
  rintro m₁ ⟨log, rfl⟩
  have accepted : ∀ trigger', ∀ x ∈ (n.callbacks trigger').keys,
      (m.events e).Accepts m.surroundings x := by
    intro trigger' x member
    rcases (keys trigger' x).mp member with old | ⟨_, rfl, new⟩
    · exact h.accepted e trigger' x old
    · exact success.mp new
  rw [addEventTrigger_if, ends_pure]
  refine ⟨h.replace inEvents accepted ?_ ?_ ?_, fun bound => bound.replace ?_⟩
  · exact nodup_addEventTrigger h.registered.1
  · intro e' trigger' other
    rw [mem_addEventTrigger]
    simp [other]
  · intro trigger'
    rw [mem_addEventTrigger, h.registered.2 e trigger']
    constructor
    · rintro (⟨x, old, midi⟩ | ⟨⟨new, starts⟩, same⟩)
      · exact ⟨x, (keys trigger' x).mpr (Or.inl old), midi⟩
      · obtain rfl := (Prod.mk.inj same).2
        exact ⟨definition, (keys trigger' definition).mpr (Or.inr ⟨rfl, rfl, new⟩),
          (success.mp new).midi_iff.mpr starts⟩
    · rintro ⟨x, there, midi⟩
      rcases (keys trigger' x).mp there with old | ⟨rfl, rfl, new⟩
      · exact Or.inl ⟨x, old, midi⟩
      · exact Or.inr ⟨⟨new, (success.mp new).midi_iff.mp midi⟩, rfl⟩
  · intro output trigger' x d there midi parsed
    rw [found]
    by_cases this : trigger' = trigger ∧ x = definition
    · obtain ⟨rfl, rfl⟩ := this
      rw [inEvents] at output
      rw [if_pos ⟨rfl, rfl⟩, updateEventTrigger_midi _ _ midi, parsed, output]
      simp only [Option.map_some, boundTo, surroundings]
      cases m.portByName false d.port <;> rfl
    · rw [if_neg this]
      rw [SortedMap.mem_keys, found, if_neg this, ← SortedMap.mem_keys] at there
      exact bound e trigger' x d ⟨inEvents ▸ output, there, midi, parsed⟩

theorem removeEventTrigger_if (m : Midi) (t : EventRef × QString) (c : Prop) [Decidable c] :
    (if c then m.removeEventTrigger t else m) = { m with
      midiEventTriggers := if c then m.midiEventTriggers.erase t else m.midiEventTriggers } := by
  split <;> rfl

/-- Removing a definition takes the trigger out when it has no other one for MIDI. -/
theorem Tidy.removeEvent (h : m.Tidy) (e : EventRef) (definition trigger : QString) :
    Ends (fun _ => True) (m.removeEvent e definition trigger) fun m' =>
      m'.Tidy ∧ (m.AllBound → m'.AllBound) := by
  have inEvents := EventNode.inEvents_removeEvent (m.events e) definition trigger
  have found := EventNode.find?_removeEvent (m.events e) definition trigger
  have keys := EventNode.mem_keys_removeEvent (m.events e) definition trigger
  unfold Midi.removeEvent
  generalize (m.events e).removeEvent definition trigger = result at inEvents found keys ⊢
  obtain ⟨removed, n, effects⟩ := result
  dsimp only at inEvents found keys ⊢
  apply (runEffects_ends m e effects).bind
  rintro m₁ ⟨log, rfl⟩
  have accepted : ∀ trigger', ∀ x ∈ (n.callbacks trigger').keys,
      (m.events e).Accepts m.surroundings x := by
    intro trigger' x member
    exact h.accepted e trigger' x ((keys trigger' x).mp member).1
  have holdsMidi := fun trigger' => Callbacks.holdsMidi_iff (accepted trigger')
  rw [removeEventTrigger_if, ends_pure]
  refine ⟨h.replace inEvents accepted ?_ ?_ ?_, fun bound => bound.replace ?_⟩
  · split
    · exact h.registered.1.erase _
    · exact h.registered.1
  · intro e' trigger' other
    split
    · exact List.mem_erase_of_ne (by simp [other])
    · exact Iff.rfl
  · intro trigger'
    by_cases this : trigger' = trigger ∧ definition ∈ ((m.events e).callbacks trigger).keys ∧
        definition.head? = some ('M' : QChar)
    · obtain ⟨rfl, there, starts⟩ := this
      rw [← holdsMidi trigger']
      cases more : (n.callbacks trigger').holdsMidi with
      | true =>
          simp only [there, starts, Bool.not_true, Bool.false_eq_true, and_false, if_false, iff_true]
          exact (h.registered.2 e trigger').mpr ⟨definition, there,
            (h.accepted e trigger' definition there).midi_iff.mpr starts⟩
      | false =>
          simp only [there, starts, Bool.not_false, and_self, if_true, Bool.false_eq_true, iff_false]
          exact fun member => (h.registered.1.mem_erase_iff.mp member).1 rfl
    · -- the definitions for MIDI are those of before
      have kept : (e, trigger') ∈ m.midiEventTriggers ↔
          ∃ x ∈ (n.callbacks trigger').keys, (x.splitOn ('|' : QChar)).head? = some ("M" : QString) := by
        rw [h.registered.2 e trigger']
        refine exists_congr fun x => and_congr_left fun midi => ?_
        rw [keys]
        constructor
        · intro old
          refine ⟨old, ?_⟩
          rintro ⟨rfl, rfl⟩
          exact this ⟨rfl, old, (h.accepted e trigger' x old).midi_iff.mp midi⟩
        · exact And.left
      rw [← kept]
      split
      · rename_i taken
        refine List.mem_erase_of_ne ?_
        intro same
        exact this ⟨(Prod.mk.inj same).2, taken.1, taken.2.1⟩
      · exact Iff.rfl
  · intro output trigger' x d there midi parsed
    obtain ⟨old, other⟩ := (keys trigger' x).mp there
    rw [found, if_neg other]
    exact bound e trigger' x d ⟨inEvents ▸ output, old, midi, parsed⟩

/-! ## Changes of the ports -/

/-- The JSON is left alone, or the one of a port is copied into it. -/
def Copied (m : Midi) (p : Nat) (json : QJsonObject) : Prop :=
  json = m.json ∨ ∃ o, json = m.json.insert (m.portName p) (.object o)

/-- Nothing is stored, or a member of the JSON of a port with its copy in the interface. -/
def Stored (m : Midi) (p : Nat) (key : QString) (portJson : Nat → QJsonObject)
    (json : QJsonObject) : Prop :=
  portJson = m.portJson ∧ json = m.json ∨
    ∃ v, portJson = Function.update m.portJson p ((m.portJson p).insert key v) ∧
      json = m.json.insert (m.portName p) (.object ((m.portJson p).insert key v))

theorem Stored.copied {p : Nat} {key : QString} {portJson : Nat → QJsonObject} {json : QJsonObject}
    (stored : m.Stored p key portJson json) : m.Copied p json := by
  rcases stored with ⟨-, same⟩ | ⟨v, -, same⟩
  · exact .inl same
  · exact .inr ⟨_, same⟩

/-- Setting a value of a port stores its port, and changes neither its name nor its direction. -/
theorem setPortValue_stored (m : Midi) (p : Nat) (name value : QString) :
    ∃ isPortOpen portJson json, (m.setPortValue p name value).2 =
      { m with isPortOpen := isPortOpen, portJson := portJson, json := json } ∧
        m.Stored p "port" portJson json := by
  have assigned : ∀ (m : Midi) same v, ∃ portJson json,
      (m.assignPort p "port" same v).2 = { m with portJson := portJson, json := json } ∧
        m.Stored p "port" portJson json := by
    intro m same v
    unfold assignPort
    split
    · exact ⟨_, _, rfl, .inl ⟨rfl, rfl⟩⟩
    · exact ⟨_, _, rfl, .inr ⟨_, rfl, rfl⟩⟩
  have opened : ∀ isOpen same v, ∃ isPortOpen portJson json,
      ((m.setOpen p isOpen).assignPort p "port" same v).2 =
        { m with isPortOpen := isPortOpen, portJson := portJson, json := json } ∧
          m.Stored p "port" portJson json := by
    intro isOpen same v
    obtain ⟨portJson, json, eq, stored⟩ := assigned (m.setOpen p isOpen) same v
    exact ⟨_, portJson, json, eq, stored⟩
  have quiet : ∀ same v, ∃ isPortOpen portJson json, (m.assignPort p "port" same v).2 =
      { m with isPortOpen := isPortOpen, portJson := portJson, json := json } ∧
        m.Stored p "port" portJson json := by
    intro same v
    obtain ⟨portJson, json, eq, stored⟩ := assigned m same v
    exact ⟨m.isPortOpen, portJson, json, eq, stored⟩
  unfold setPortValue setPortNumber setPortString
  dsimp only
  split
  · rename_i port
    subst port
    split
    · exact opened _ _ _
    · cases value.toInt? with
      | none =>
          cases (m.portsName (m.isInPort p)).idxOf? value with
          | none => exact quiet _ _
          | some i =>
              dsimp only [Option.map_some]
              split
              · exact quiet _ _
              · split
                · exact opened _ _ _
                · exact quiet _ _
      | some n =>
          dsimp only
          split
          · exact quiet _ _
          · split
            · exact opened _ _ _
            · exact quiet _ _
  · exact ⟨m.isPortOpen, m.portJson, m.json, rfl, .inl ⟨rfl, rfl⟩⟩

theorem setPortValue_eq (m : Midi) (p : Nat) (name value : QString) :
    ∃ isPortOpen portJson json, (m.setPortValue p name value).2 =
      { m with isPortOpen := isPortOpen, portJson := portJson, json := json } ∧ m.Copied p json := by
  obtain ⟨isPortOpen, portJson, json, same, stored⟩ := setPortValue_stored m p name value
  exact ⟨isPortOpen, portJson, json, same, stored.copied⟩

/-- A state with the same events and other ports. -/
theorem Tidy.moved (h : m.Tidy) (events : m'.events = m.events)
    (triggers : m'.midiEventTriggers = m.midiEventTriggers) (keyboard : m'.keyboard = m.keyboard)
    (ports : ∀ p ∈ m'.ports, p < m'.freshPort) (subnodes : m'.subnodes = m'.ports) : m'.Tidy := by
  refine ⟨?_, fun e trigger x member => ?_, ports, subnodes⟩
  · unfold Registered
    rw [events, triggers]
    exact h.registered
  · rw [events] at member
    exact EventNode.accepts_congr keyboard (by rw [events]) (h.accepted e trigger x member)

theorem Tidy.updated (h : m.Tidy) : m.updateEventTriggers.Tidy := by
  have keys := keys_updateEventTriggers h.registered
  obtain ⟨events, same, updated⟩ := updateEventTriggers_eq h.registered
  rw [same] at keys ⊢
  refine ⟨⟨h.registered.1, fun e trigger => ?_⟩, fun e trigger x member => ?_, h.ports, h.subnodes⟩
  · rw [keys]
    exact h.registered.2 e trigger
  · rw [keys] at member
    exact EventNode.accepts_congr rfl (updated e).1 (h.accepted e trigger x member)

/-- Ports which change are followed by the definitions, except by those which have no port
    any more. -/
theorem AllBound.moved_iff (bound : m.AllBound) (h : m'.Tidy) (events : m'.events = m.events) :
    m'.updateEventTriggers.AllBound ↔ ∀ e trigger definition d, m.Held e trigger definition d →
      m'.portByName false d.port = none → m.portByName false d.port = none := by
  have held : ∀ {e trigger definition d},
      m'.Held e trigger definition d ↔ m.Held e trigger definition d := by
    unfold Held
    simp [events]
  have before : ∀ e trigger definition d, m'.Held e trigger definition d →
      ((m'.events e).callbacks trigger).find? definition =
        some (boundTo d (m.portByName false d.port)) := fun e trigger definition d there =>
    events ▸ bound e trigger definition d (held.mp there)
  rw [allBound_update_iff h.registered before]
  simp only [held]

/-- A port which is created comes after the others. -/
theorem Tidy.createPort (h : m.Tidy) (name : QString) (inPort : Bool) (port : QString) :
    (m.createPort name inPort port).2.Tidy ∧
      (m.createPort name inPort port).2.events = m.events ∧
      ∀ portName, (m.createPort name inPort port).2.portByName false portName = none →
        m.portByName false portName = none := by
  have others : ∀ (portName : QString), m.ports.find? (fun p =>
      Function.update m.portName m.freshPort name p = portName ∧
        Function.update m.isInPort m.freshPort inPort p = false) = m.portByName false portName := by
    intro portName
    refine List.find?_congr fun p there => ?_
    have older : p ≠ m.freshPort := Nat.ne_of_lt (h.ports p there)
    simp only [Function.update_of_ne older]
  have later : ∀ p ∈ m.ports, p < m.freshPort + 1 := fun p there => Nat.lt_succ_of_lt (h.ports p there)
  unfold Midi.createPort
  dsimp only
  split
  · refine ⟨h.moved rfl rfl rfl later h.subnodes, rfl, fun portName => ?_⟩
    unfold portByName
    dsimp only
    rw [others]
    exact id
  · obtain ⟨isPortOpen, portJson, json, same, -⟩ := setPortValue_eq { m with
      portName := Function.update m.portName m.freshPort name
      isInPort := Function.update m.isInPort m.freshPort inPort
      isPortOpen := Function.update m.isPortOpen m.freshPort false
      portJson := Function.update m.portJson m.freshPort []
      freshPort := m.freshPort + 1 } m.freshPort "port" port
    rw [same]
    refine ⟨h.moved rfl rfl rfl ?_ ?_, rfl, fun portName => ?_⟩
    · intro p there
      rcases List.mem_append.mp there with old | new
      · exact later p old
      · rw [List.mem_singleton.mp new]
        exact Nat.lt_succ_self _
    · exact congrArg (· ++ [m.freshPort]) h.subnodes
    · unfold portByName
      dsimp only
      rw [List.find?_append, others]
      intro none
      exact (Option.or_eq_none_iff.mp none).1

/-- Closing a port loses the definitions for which it was the last one. -/
theorem AllBound.close_iff (bound : m.AllBound) (h : m.Tidy) {name : QString} {p : Nat}
    (found : m.ports.find? (fun p => m.portName p = name) = some p) {json : QJsonObject} :
    { m with
      json := json
      subnodes := m.subnodes.erase p
      ports := m.ports.erase p }.updateEventTriggers.AllBound ↔
      ¬(m.isInPort p = false ∧ (∀ q ∈ m.ports.erase p, m.portName q = name → m.isInPort q = true) ∧
        ∃ e trigger definition d, m.Held e trigger definition d ∧ d.port = name) := by
  have here := List.mem_of_find?_eq_some found
  have named : m.portName p = name := by simpa using List.find?_some found
  have tidy : Tidy { m with
      json := json
      subnodes := m.subnodes.erase p
      ports := m.ports.erase p } := by
    refine h.moved rfl rfl rfl (fun q there => h.ports q (List.mem_of_mem_erase there)) ?_
    exact congrArg (List.erase · p) h.subnodes
  rw [bound.moved_iff tidy rfl]
  -- a name is lost when the port is the only one for output which has it
  have lost : ∀ portName, (m.ports.erase p).find? (fun q => m.portName q = portName ∧
      m.isInPort q = false) = none ∧ m.portByName false portName ≠ none ↔
      portName = name ∧ m.isInPort p = false ∧
        ∀ q ∈ m.ports.erase p, m.portName q = name → m.isInPort q = true := by
    intro portName
    rw [List.find?_eq_none, Ne, portByName, List.find?_eq_none]
    constructor
    · rintro ⟨none, some⟩
      push Not at some
      obtain ⟨q, there, matching⟩ := some
      have same : q = p := by
        by_contra other
        exact none q ((List.mem_erase_of_ne other).mpr there) matching
      subst same
      obtain ⟨rfl, output⟩ : m.portName q = portName ∧ m.isInPort q = false := by simpa using matching
      refine ⟨named, output, fun q' there' same => ?_⟩
      have not := none q' there'
      simp only [decide_eq_true_eq, not_and, Bool.not_eq_false] at not
      exact not (same.trans named.symm)
    · rintro ⟨rfl, output, others⟩
      refine ⟨fun q there matching => ?_, fun none => ?_⟩
      · obtain ⟨same, isOutput⟩ : m.portName q = portName ∧ m.isInPort q = false := by
          simpa using matching
        rw [others q there same] at isOutput
        cases isOutput
      · exact none p here (by simp [named, output])
  constructor
  · rintro kept ⟨output, others, e, trigger, definition, d, held, rfl⟩
    obtain ⟨none, some⟩ := (lost d.port).mpr ⟨rfl, output, others⟩
    exact some (kept e trigger definition d held none)
  · intro kept e trigger definition d held none
    by_contra some
    obtain ⟨same, output, others⟩ := (lost d.port).mp ⟨none, some⟩
    exact kept ⟨output, others, e, trigger, definition, d, held, same⟩

/-- Looking for a port under another name of one of the ports. -/
theorem portByName_rename_iff {p : Nat} {name newName : QString}
    (found : m.ports.find? (fun p => m.portName p = name) = some p) (portName : QString) :
    m.ports.find? (fun q => Function.update m.portName p newName q = portName ∧
        m.isInPort q = false) = m.portByName false portName ↔
      ¬(m.isInPort p = false ∧ newName ≠ name ∧ (portName = name ∨ portName = newName ∧
        ∀ q ∈ m.ports.takeWhile (· ≠ p), m.portName q = newName → m.isInPort q = true)) := by
  have here := List.mem_of_find?_eq_some found
  have named : m.portName p = name := by simpa using List.find?_some found
  have same : ((Function.update m.portName p newName p = portName ∧ m.isInPort p = false) ↔
      (m.portName p = portName ∧ m.isInPort p = false)) →
      m.ports.find? (fun q => Function.update m.portName p newName q = portName ∧
        m.isInPort q = false) = m.portByName false portName := by
    intro atPort
    refine List.find?_congr fun q _ => ?_
    by_cases this : q = p
    · subst this
      exact decide_eq_decide.mpr atPort
    · rw [Function.update_of_ne this]
  rw [Function.update_self, named] at same
  by_cases input : m.isInPort p = true
  · exact iff_of_true (same (by simp [input])) (by simp [input])
  have output : m.isInPort p = false := Bool.eq_false_iff.mpr input
  by_cases unchanged : newName = name
  · exact iff_of_true (same (by rw [unchanged])) (by simp [unchanged])
  by_cases old : portName = name
  · subst old
    refine iff_of_false ?_ (by simp [output, unchanged])
    have before : m.portByName false portName = some p := by
      obtain ⟨_, earlier, later, ports, others⟩ := List.find?_eq_some_iff_append.mp found
      refine List.find?_eq_some_iff_append.mpr ⟨by simp [named, output], earlier, later, ports, ?_⟩
      intro q there
      have other := others q there
      simp only [Bool.not_eq_true', decide_eq_false_iff_not] at other
      simp [other]
    rw [before]
    intro after
    have matching := List.find?_some after
    simp only [Function.update_self, decide_eq_true_eq] at matching
    exact unchanged matching.1
  by_cases new : portName = newName
  · subst new
    obtain ⟨earlier, later, ports, first⟩ := List.eq_append_cons_of_mem here
    have others : ∀ q ∈ earlier, q ≠ p := fun q there same => first (same ▸ there)
    have before : m.ports.takeWhile (· ≠ p) = earlier := by
      rw [ports, List.takeWhile_append_of_pos (by simpa using others)]
      simp
    have earlierSame : earlier.find? (fun q => Function.update m.portName p portName q = portName ∧
        m.isInPort q = false) =
          earlier.find? (fun q => m.portName q = portName ∧ m.isInPort q = false) := by
      refine List.find?_congr fun q there => ?_
      rw [Function.update_of_ne (others q there)]
    rw [before, portByName, ports, List.find?_append, List.find?_append, earlierSame]
    cases older : earlier.find? (fun q => m.portName q = portName ∧ m.isInPort q = false) with
    | some q =>
        obtain ⟨same, isOutput⟩ : m.portName q = portName ∧ m.isInPort q = false := by
          simpa using List.find?_some older
        refine iff_of_true rfl ?_
        rintro ⟨_, _, no | ⟨_, all⟩⟩
        · exact old no
        · rw [all q (List.mem_of_find?_eq_some older) same] at isOutput
          cases isOutput
    | none =>
        have none := List.find?_eq_none.mp older
        refine iff_of_false ?_ (not_not_intro ⟨output, unchanged, Or.inr ⟨rfl, ?_⟩⟩)
        · have this : decide (m.portName p = portName ∧ m.isInPort p = false) = false := by
            simp [named, Ne.symm old]
          rw [Option.none_or, Option.none_or, List.find?_cons_of_pos (by simp [output]),
            List.find?_cons_of_neg (by simp [this])]
          intro after
          have matching := List.find?_some after.symm
          rw [this] at matching
          cases matching
        · intro q there same
          have not := none q there
          simp only [decide_eq_true_eq, not_and, Bool.not_eq_false] at not
          exact not same
  · exact iff_of_true (same (by simp [Ne.symm old, Ne.symm new])) (by simp [old, new])

theorem boundTo_inj {d : MidiDefinition} {port? port?' : Option Nat} :
    boundTo d port? = boundTo d port?' ↔ port? = port?' := by
  refine ⟨fun same => Option.map_injective ?_ same, congrArg (boundTo d)⟩
  intro p p' equal
  cases equal
  rfl

/-- Renaming a port leaves the callbacks at the port which the definitions had before. -/
theorem AllBound.rename_iff (bound : m.AllBound) {p : Nat} {newName : QString} {json : QJsonObject} :
    AllBound { m with portName := Function.update m.portName p newName, json := json } ↔
      ∀ e trigger definition d, m.Held e trigger definition d →
        m.ports.find? (fun q => Function.update m.portName p newName q = d.port ∧
          m.isInPort q = false) = m.portByName false d.port := by
  constructor
  · intro all e trigger definition d held
    have now := all e trigger definition d held
    rw [bound e trigger definition d held, Option.some.injEq, boundTo_inj] at now
    exact now.symm
  · intro same e trigger definition d held
    exact (bound e trigger definition d held).trans
      (congrArg (fun port? => some (boundTo d port?)) (same e trigger definition d held).symm)

end Midi

/-! ## Runs -/

/-- A command after which some definition is not bound as it should be. Closing the last output
    port of a name does so when there is a definition for the name. Renaming an output port does
    so when there is a definition for the old name, or one for the new name which would find the
    port. -/
def MidiOp.Strands (m : Midi) : MidiOp → Prop
  | closePort name => ∃ p, m.ports.find? (fun p => m.portName p = name) = some p ∧
      m.isInPort p = false ∧ (∀ q ∈ m.ports.erase p, m.portName q = name → m.isInPort q = true) ∧
      ∃ e trigger definition d, m.Held e trigger definition d ∧ d.port = name
  | renamePort name newName => ∃ p, port? m name = some p ∧ m.json.contains newName = false ∧
      m.isInPort p = false ∧ newName ≠ name ∧ ∃ e trigger definition d,
        m.Held e trigger definition d ∧ (d.port = name ∨ d.port = newName ∧
          ∀ q ∈ m.ports.takeWhile (· ≠ p), m.portName q = newName → m.isInPort q = true)
  | _ => False

namespace Midi

variable {m m' : Midi}

/-- A command other than closing and renaming a port keeps the definitions bound, and these two
    do unless they strand one. -/
theorem Tidy.perform (h : m.Tidy) (op : MidiOp) :
    Ends (fun _ => ¬op.Strands m) (op.perform m) fun m' =>
      m'.Tidy ∧ (m.AllBound → (m'.AllBound ↔ ¬op.Strands m)) := by
  cases op with
  | openPort name inPort port =>
      rw [MidiOp.perform, ends_pure, addPort]
      split
      · exact ⟨h, fun bound => iff_of_true bound id⟩
      · obtain ⟨tidy, events, kept⟩ := h.createPort name inPort port
        refine ⟨tidy.updated, fun bound => iff_of_true ?_ id⟩
        exact (bound.moved_iff tidy events).mpr fun _ _ _ d _ => kept d.port
  | closePort name =>
      rw [MidiOp.perform, ends_pure, removePort, MidiOp.Strands]
      cases found : m.ports.find? fun p => m.portName p = name with
      | none => exact ⟨h, fun bound => iff_of_true bound (by rintro ⟨p, there, _⟩; cases there)⟩
      | some p =>
          refine ⟨Tidy.updated ?_, fun bound => ?_⟩
          · refine h.moved rfl rfl rfl (fun q there => h.ports q (List.mem_of_mem_erase there)) ?_
            exact congrArg (List.erase · p) h.subnodes
          · rw [bound.close_iff h found]
            simp
  | renamePort name newName =>
      rw [MidiOp.perform, ends_pure, MidiOp.Strands, MidiOp.port?, h.subnodes]
      cases found : m.ports.find? fun p => m.portName p = name with
      | none => exact ⟨h, fun bound => iff_of_true bound (by rintro ⟨p, there, _⟩; cases there)⟩
      | some p =>
          dsimp only [renamePort]
          cases taken : m.json.contains newName with
          | true => exact ⟨h, fun bound => iff_of_true bound (by rintro ⟨_, _, no, _⟩; cases no)⟩
          | false =>
              refine ⟨h.moved rfl rfl rfl h.ports h.subnodes, fun bound => ?_⟩
              simp only [Bool.false_eq_true, if_false]
              rw [bound.rename_iff]
              simp only [portByName_rename_iff found]
              constructor
              · rintro kept ⟨_, same, _, output, other, e, trigger, definition, d, held, affected⟩
                cases same
                exact kept e trigger definition d held ⟨output, other, affected⟩
              · rintro kept e trigger definition d held ⟨output, other, affected⟩
                exact kept ⟨p, rfl, trivial, output, other, e, trigger, definition, d, held, affected⟩
  | setPort name key value =>
      rw [MidiOp.perform, ends_pure]
      split
      · exact ⟨h, fun bound => iff_of_true bound id⟩
      · rename_i p _
        obtain ⟨isPortOpen, portJson, json, same, -⟩ := setPortValue_eq m p key value
        rw [same]
        exact ⟨h.moved rfl rfl rfl h.ports h.subnodes, fun bound => iff_of_true bound id⟩
  | addEvent e definition trigger =>
      refine ((h.addEvent e definition trigger).mono_err fun _ _ => id).mono fun m' kept => ?_
      exact ⟨kept.1, fun bound => iff_of_true (kept.2 bound) id⟩
  | removeEvent e definition trigger =>
      refine ((h.removeEvent e definition trigger).mono_err fun _ _ => id).mono fun m' kept => ?_
      exact ⟨kept.1, fun bound => iff_of_true (kept.2 bound) id⟩
  | triggerEvent e trigger =>
      refine ((runEffects_ends m e _).mono_err fun _ _ => id).mono ?_
      rintro m' ⟨log, rfl⟩
      exact ⟨h.moved rfl rfl rfl h.ports h.subnodes, fun bound => iff_of_true bound id⟩

/-- A new interface: no port, and events without definitions. -/
def start (portsName : Bool → QStringList) (keyboard : QStringList → Option Bool)
    (inEvents : EventRef → Bool) : Midi :=
  { portsName, keyboard, events := fun e => { inEvents := inEvents e } }

theorem tidy_start (portsName : Bool → QStringList) (keyboard : QStringList → Option Bool)
    (inEvents : EventRef → Bool) : (start portsName keyboard inEvents).Tidy := by
  have none : ∀ e trigger,
      (((start portsName keyboard inEvents).events e).callbacks trigger).keys = [] := by
    intro e trigger
    unfold EventNode.callbacks
    split <;> rfl
  refine ⟨⟨List.nodup_nil, fun e trigger => ?_⟩, fun e trigger x member => ?_, ?_, rfl⟩
  · rw [none]
    simp [start]
  · rw [none] at member
    exact absurd member List.not_mem_nil
  · exact fun p there => absurd there List.not_mem_nil

/-- In every state of a run the definitions are bound to the open ports of their names, and the
    triggers which have definitions for MIDI are the registered ones, exactly when no command of
    the run strands a definition. -/
theorem bindings_follow_ports_iff (portsName : Bool → QStringList)
    (keyboard : QStringList → Option Bool) (inEvents : EventRef → Bool) (ops : List MidiOp) :
    (∀ m, Runs.Reaches MidiOp.perform (start portsName keyboard inEvents) ops m →
      m.AllBound ∧ m.Registered) ↔
    Runs.Throughout MidiOp.perform (fun m op => ¬op.Strands m)
      (start portsName keyboard inEvents) ops := by
  have tidy := tidy_start portsName keyboard inEvents
  have bound : (start portsName keyboard inEvents).AllBound := by
    intro e trigger definition d held
    have there := held.2.1
    unfold EventNode.callbacks at there
    split at there
    · exact absurd there List.not_mem_nil
    · exact absurd there List.not_mem_nil
  have keeps : ∀ (m : Midi) op m', m.Tidy → MidiOp.perform m op = .ok m' → m'.Tidy :=
    fun m op m' h first => ((h.perform op).of_ok first).1
  rw [← Runs.reaches_iff bound tidy keeps
    (fun m op m' h bound first => ((h.perform op).of_ok first).2 bound)
    fun m op e h fails => by
      have failed := h.perform op
      rw [fails] at failed
      exact failed]
  constructor
  · exact fun all m reached => (all m reached).1
  · exact fun all m reached => ⟨all m reached, (reached.always tidy keeps).registered⟩

/-- A note for a port which is closed: its callback stays bound to the port. -/
theorem not_bindings_follow_ports :
    ¬∀ (portsName : Bool → QStringList) (keyboard : QStringList → Option Bool)
      (inEvents : EventRef → Bool) (ops : List MidiOp) (m : Midi),
      Runs.Reaches MidiOp.perform (start portsName keyboard inEvents) ops m →
        m.AllBound ∧ m.Registered := by
  intro all
  let e : EventRef := (.free 0, 0)
  let ops : List MidiOp := [.openPort "Synth" false "",
    .addEvent e "M|Synth:0|NoteOn|3C7F" "note", .closePort "Synth"]
  have run : Ends (fun _ => False)
      (ops.foldlM MidiOp.perform (start (fun _ => []) (fun _ => none) fun _ => false)) fun m =>
        (m.events e).inEvents = false ∧
          ((m.events e).callbacks "note").find? "M|Synth:0|NoteOn|3C7F" =
            some (some (.midi 0 0 9 [0x3C, 0x7F])) ∧ m.portByName false "Synth" = none := by
    decide
  obtain ⟨m, ended, output, callback, none⟩ := ends_total.mp run
  have bound := (all _ _ _ ops m (.of_run ended)).1 e "note" "M|Synth:0|NoteOn|3C7F"
    ⟨"Synth", 0, 9, [0x3C, 0x7F]⟩
    ⟨output, SortedMap.mem_keys.mpr (by rw [callback]; rfl), by decide, by decide⟩
  rw [callback, none] at bound
  cases bound

end Midi

end VoxPopuli
