import VoxPopuli.Model.Returns
import VoxPopuli.Model.Views

/-! # What the add functions report

Four functions add a child to a container and return whether they have. They do not look at
what `createSubNode` returns, so a child which is refused for a blank in its name is reported
as added; and the one for ports asks whether the port is open, not whether the name is taken.
-/

namespace VoxPopuli

open World

/-- What a container has of its children: its own list, its child nodes, their names and the
    documents under these names. -/
structure Shown (α : Type) where
  own : List α
  subnodes : List α
  name : α → QString
  json : QJsonObject

namespace Shown

variable {α : Type} {c c' : Shown α} {name requested : QString} {otherwise : Prop}

/-- One child has come, with the name. The others have kept their names and documents. -/
structure Added (name : QString) (c c' : Shown α) : Prop where
  child : ∃ e ∉ c.own, c'.own.Perm (c.own ++ [e]) ∧ c'.subnodes = c.subnodes ++ [e] ∧
    c'.name e = name
  entry : c'.json.HasObject name
  names : ∀ a ∈ c.own, c'.name a = c.name a
  documents : ∀ a ∈ c.own, c'.json.value (c.name a) = c.json.value (c.name a)
  others : ∀ k ≠ name, c'.json.value k = c.json.value k

structure Unchanged (c c' : Shown α) : Prop where
  own : c'.own = c.own
  subnodes : c'.subnodes = c.subnodes
  names : ∀ a ∈ c.own, c'.name a = c.name a
  json : c'.json = c.json

/-- The name is in use, by a child or as a key. -/
def Uses (c : Shown α) (name : QString) : Prop := name ∈ c.own.map c.name ∨ c.json.contains name

/-- The result tells what has happened. It tells of a failure under a name only when the name is
    no name, in use, or for another reason which is allowed for. -/
structure Reports (requested name : QString) (otherwise : Prop) (c : Shown α) (result : Bool)
    (c' : Shown α) : Prop where
  added : result = true ↔ Added name c c'
  unchanged : result = false ↔ Unchanged c c'
  fails : requested ≠ "" → result = false → (' ' : QChar) ∈ requested ∨ c.Uses requested ∨ otherwise

theorem Unchanged.refl (c : Shown α) : Unchanged c c := ⟨rfl, rfl, fun _ _ => rfl, rfl⟩

theorem Unchanged.not_added (same : Unchanged c c') : ¬Added name c c' := by
  intro added
  obtain ⟨e, -, perm, -⟩ := added.child
  have length := perm.length_eq
  rw [same.own, List.length_append, List.length_singleton] at length
  omega

theorem reports_true_iff : Reports requested name otherwise c true c' ↔ Added name c c' := by
  constructor
  · exact fun reports => reports.added.mp rfl
  · exact fun added => ⟨iff_of_true rfl added, iff_of_false nofun fun same => same.not_added added,
      nofun⟩

theorem reports_false_iff (same : Unchanged c c') : Reports requested name otherwise c false c' ↔
    (requested ≠ "" → (' ' : QChar) ∈ requested ∨ c.Uses requested ∨ otherwise) := by
  constructor
  · exact fun reports some => reports.fails some rfl
  · exact fun fails => ⟨iff_of_false nofun same.not_added, iff_of_true rfl same, fun some _ => fails some⟩

end Shown

/-! ## Ports -/

namespace Midi

variable {m m' : Midi}

def shown (m : Midi) : Shown Nat := ⟨m.ports, m.subnodes, m.portName, m.json⟩

/-- The objects in the JSON are documents of ports, and these tell the direction. -/
structure Documented (m : Midi) : Prop where
  backed : ∀ k o, m.json.value k = some (.object o) →
    ∃ p ∈ m.ports, m.portName p = k ∧ m.portJson p = o
  typed : ∀ p ∈ m.ports, (m.portJson p).value "type" =
    some (.string (if m.isInPort p then "in" else "out"))

theorem Documented.congr (h : m.Documented) (ports : m'.ports = m.ports)
    (portName : m'.portName = m.portName) (isInPort : m'.isInPort = m.isInPort)
    (portJson : m'.portJson = m.portJson) (json : m'.json = m.json) : m'.Documented := by
  constructor
  · rw [json, ports, portName, portJson]
    exact h.backed
  · rw [ports, portJson, isInPort]
    exact h.typed

theorem documented_update (h : m.Tidy) (documented : m.Documented) :
    m.updateEventTriggers.Documented := by
  obtain ⟨events, same, -⟩ := updateEventTriggers_eq h.registered
  rw [same]
  exact documented.congr rfl rfl rfl rfl rfl

theorem value_type (inPort : Bool) (port : QString) :
    (createMidiPortJSon inPort port).value "type" =
      some (.string (if inPort then "in" else "out")) := rfl

theorem direction_injective : ∀ a b : Bool,
    (if a then ("in" : QString) else ("out" : QString)) =
      (if b then ("in" : QString) else ("out" : QString)) → a = b := by
  decide

theorem value_port (inPort : Bool) (port : QString) :
    (createMidiPortJSon inPort port).value "port" = some (.string port) := rfl

theorem Documented.createPort (documented : m.Documented) (h : m.Tidy) (name : QString)
    (inPort : Bool) (port : QString) : (m.createPort name inPort port).2.Documented := by
  have older : ∀ p ∈ m.ports, p ≠ m.freshPort := fun p there => Nat.ne_of_lt (h.ports p there)
  by_cases blank : (' ' : QChar) ∈ name
  · unfold Midi.createPort
    dsimp only
    rw [if_pos blank]
    refine ⟨fun k o found => ?_, fun p there => ?_⟩
    · obtain ⟨p, there, named, document⟩ := documented.backed k o found
      refine ⟨p, there, ?_, ?_⟩
      · exact (Function.update_of_ne (older p there) _ _).trans named
      · exact (Function.update_of_ne (older p there) _ _).trans document
    · simp only [Function.update_of_ne (older p there)]
      exact documented.typed p there
  · obtain ⟨isPortOpen, json, same, own, others⟩ := createPort_eq m blank inPort port
    rw [same]
    refine ⟨fun k o found => ?_, fun p there => ?_⟩
    · by_cases new : k = name
      · subst new
        refine ⟨m.freshPort, List.mem_append_right _ (List.mem_singleton_self _),
          Function.update_self .., ?_⟩
        cases own.symm.trans found
        exact Function.update_self ..
      · obtain ⟨p, there, named, document⟩ := documented.backed k o ((others k new).symm.trans found)
        refine ⟨p, List.mem_append_left _ there, ?_, ?_⟩
        · exact (Function.update_of_ne (older p there) _ _).trans named
        · exact (Function.update_of_ne (older p there) _ _).trans document
    · rcases List.mem_append.mp there with old | single
      · simp only [Function.update_of_ne (older p old)]
        exact documented.typed p old
      · cases List.mem_singleton.mp single
        simp only [Function.update_self]
        exact value_type inPort port

theorem Documented.closePort (documented : m.Documented) {name : QString} {p : Nat}
    (found : m.ports.find? (fun p => m.portName p = name) = some p) :
    Midi.Documented { m with
      json := m.json.remove name
      subnodes := m.subnodes.erase p
      ports := m.ports.erase p } := by
  have named : m.portName p = name := by simpa using List.find?_some found
  refine ⟨fun k o there => ?_, fun q there => documented.typed q (List.mem_of_mem_erase there)⟩
  dsimp only at there
  by_cases gone : k = name
  · rw [gone, QJsonObject.value_remove_self] at there
    cases there
  · rw [QJsonObject.value_remove_of_ne _ gone] at there
    obtain ⟨q, inside, own, document⟩ := documented.backed k o there
    refine ⟨q, (List.mem_erase_of_ne ?_).mpr inside, own, document⟩
    rintro rfl
    exact gone (own.symm.trans named)

theorem Documented.renamePort (documented : m.Documented) {p : Nat} (inside : p ∈ m.ports)
    (newName : QString) :
    Midi.Documented { m with
      portName := Function.update m.portName p newName
      json := (m.json.remove (m.portName p)).insert newName (.object (m.portJson p)) } := by
  refine ⟨fun k o there => ?_, documented.typed⟩
  dsimp only at there ⊢
  by_cases new : k = newName
  · subst new
    rw [QJsonObject.value_insert_self] at there
    cases there
    exact ⟨p, inside, Function.update_self .., rfl⟩
  · rw [QJsonObject.value_insert_of_ne _ new] at there
    by_cases gone : k = m.portName p
    · rw [gone, QJsonObject.value_remove_self] at there
      cases there
    · rw [QJsonObject.value_remove_of_ne _ gone] at there
      obtain ⟨q, inside', own, document⟩ := documented.backed k o there
      refine ⟨q, inside', ?_, document⟩
      rw [Function.update_of_ne, own]
      rintro rfl
      exact gone own.symm

theorem Documented.stored (documented : m.Documented) {p : Nat} (inside : p ∈ m.ports)
    {isPortOpen : Nat → Bool} {portJson : Nat → QJsonObject} {json : QJsonObject}
    (stored : m.Stored p "port" portJson json) :
    Midi.Documented { m with isPortOpen := isPortOpen, portJson := portJson, json := json } := by
  rcases stored with ⟨rfl, rfl⟩ | ⟨v, rfl, rfl⟩
  · exact documented.congr rfl rfl rfl rfl rfl
  · refine ⟨fun k o there => ?_, fun q inside' => ?_⟩
    · dsimp only at there ⊢
      by_cases own : k = m.portName p
      · subst own
        rw [QJsonObject.value_insert_self] at there
        cases there
        exact ⟨p, inside, rfl, Function.update_self ..⟩
      · rw [QJsonObject.value_insert_of_ne _ own] at there
        obtain ⟨q, inside', named, document⟩ := documented.backed k o there
        refine ⟨q, inside', named, ?_⟩
        rw [Function.update_of_ne, document]
        rintro rfl
        exact own named.symm
    · dsimp only
      by_cases own : q = p
      · subst own
        rw [Function.update_self, QJsonObject.value_insert_of_ne _ (by decide)]
        exact documented.typed q inside
      · rw [Function.update_of_ne own]
        exact documented.typed q inside'

/-- Step lemma. -/
theorem perform_documented (h : m.Tidy) (documented : m.Documented) (op : MidiOp) :
    Ends (fun _ => True) (op.perform m) Documented := by
  cases op with
  | openPort name inPort port =>
      rw [MidiOp.perform, ends_pure, addPort]
      split
      · exact documented
      · exact documented_update (h.createPort name inPort port).1 (documented.createPort h name inPort port)
  | closePort name =>
      rw [MidiOp.perform, ends_pure, removePort]
      cases found : m.ports.find? fun p => m.portName p = name with
      | none => exact documented
      | some p =>
          refine documented_update ?_ (documented.closePort found)
          refine h.moved rfl rfl rfl (fun q there => h.ports q (List.mem_of_mem_erase there)) ?_
          exact congrArg (List.erase · p) h.subnodes
  | renamePort name newName =>
      rw [MidiOp.perform, ends_pure, MidiOp.port?, h.subnodes]
      cases found : m.ports.find? fun p => m.portName p = name with
      | none => exact documented
      | some p =>
          dsimp only [Midi.renamePort]
          split
          · exact documented
          · exact documented.renamePort (List.mem_of_find?_eq_some found) newName
  | setPort name key value =>
      rw [MidiOp.perform, ends_pure, MidiOp.port?, h.subnodes]
      cases found : m.ports.find? fun p => m.portName p = name with
      | none => exact documented
      | some p =>
          obtain ⟨isPortOpen, portJson, json, same, stored⟩ := setPortValue_stored m p key value
          dsimp only
          rw [same]
          exact documented.stored (List.mem_of_find?_eq_some found) stored
  | addEvent e definition trigger =>
      apply (runEffects_ends m e _).bind
      rintro m' ⟨log, rfl⟩
      dsimp only
      rw [addEventTrigger_if, ends_pure]
      exact documented.congr rfl rfl rfl rfl rfl
  | removeEvent e definition trigger =>
      apply (runEffects_ends m e _).bind
      rintro m' ⟨log, rfl⟩
      dsimp only
      rw [removeEventTrigger_if, ends_pure]
      exact documented.congr rfl rfl rfl rfl rfl
  | triggerEvent e trigger =>
      refine (runEffects_ends m e _).mono ?_
      rintro m' ⟨log, rfl⟩
      exact documented.congr rfl rfl rfl rfl rfl

/-- What holds in every state of a run. -/
theorem sound_reaches {portsName : Bool → QStringList} {keyboard : QStringList → Option Bool}
    {inEvents : EventRef → Bool} {ops : List MidiOp}
    (reached : Runs.Reaches MidiOp.perform (start portsName keyboard inEvents) ops m) :
    m.Tidy ∧ m.Documented := by
  refine reached.always (I := fun m => m.Tidy ∧ m.Documented)
    ⟨tidy_start portsName keyboard inEvents, nofun, nofun⟩ ?_
  intro m op m' h first
  exact ⟨((h.1.perform op).of_ok first).1, (perform_documented h.1 h.2 op).of_ok first⟩

/-- A port of the direction is open under the text. -/
def Opened (m : Midi) (inPort : Bool) (port : QString) : Prop :=
  ∃ p ∈ m.ports, QVariant.toString ((m.portJson p).value "port") = port ∧ m.isInPort p = inPort

/-- A port is refused when its text is open already; otherwise it comes unless there is a blank
    in its name, and takes the place of the document of one which has the name. -/
theorem reports_addPort_iff (h : m.Tidy) (documented : m.Documented) (name : QString)
    (inPort : Bool) (port : QString) :
    Shown.Reports name name False m.shown (m.addPort name inPort port).1
      (m.addPort name inPort port).2.shown ↔
        (m.Opened inPort port ∧ (name ≠ "" → (' ' : QChar) ∈ name ∨ m.shown.Uses name)) ∨
          (¬m.Opened inPort port ∧ (' ' : QChar) ∉ name ∧ name ∉ m.ports.map m.portName) := by
  have guard : (m.ports.any fun p => QVariant.toString ((m.portJson p).value "port") = port ∧
      m.isInPort p = inPort) = true ↔ m.Opened inPort port := by
    simp [Opened]
  have older : ∀ p ∈ m.ports, p ≠ m.freshPort := fun p there => Nat.ne_of_lt (h.ports p there)
  by_cases opened : m.Opened inPort port
  · rw [addPort, if_pos (guard.mpr opened), Shown.reports_false_iff (.refl _)]
    simp [opened]
  · rw [addPort, if_neg fun taken => opened (guard.mp taken), Shown.reports_true_iff]
    obtain ⟨ports, subnodes, portName, json⟩ := sameViews_update (h.createPort name inPort port).1
    by_cases blank : (' ' : QChar) ∈ name
    · have kept : (m.createPort name inPort port).2.ports = m.ports := by
        unfold createPort
        dsimp only
        rw [if_pos blank]
      refine iff_of_false (fun added => ?_) (by simp [opened, blank])
      obtain ⟨e, -, perm, -⟩ := added.child
      have length := perm.length_eq
      simp only [shown, ports, kept, List.length_append, List.length_singleton] at length
      omega
    · obtain ⟨isPortOpen, json', same, own, others⟩ := createPort_eq m blank inPort port
      rw [same] at ports subnodes portName json ⊢
      dsimp only at ports subnodes portName json
      simp only [opened, blank, false_and, false_or, not_false_eq_true, true_and]
      constructor
      · intro added taken
        obtain ⟨p, there, named⟩ := List.mem_map.mp taken
        have document := added.documents p there
        simp only [shown, named, json, own] at document
        obtain ⟨q, there', -, document'⟩ := documented.backed name _ document.symm
        have type := documented.typed q there'
        rw [document', value_type] at type
        have port' : QVariant.toString ((m.portJson q).value "port") = port := by
          rw [document', value_port]
          rfl
        have direction := direction_injective _ _ (QJsonValue.string.inj (Option.some.inj type))
        exact opened ⟨q, there', port', direction.symm⟩
      · intro new
        refine ⟨⟨m.freshPort, fun there => older _ there rfl, ?_, subnodes, ?_⟩, ?_, ?_, ?_, ?_⟩
        · exact .of_eq ports
        · exact (portName _ (List.mem_append_right _ (List.mem_singleton_self _))).trans
            (Function.update_self ..)
        · exact ⟨_, json ▸ own⟩
        · intro p there
          exact (portName p (List.mem_append_left _ there)).trans
            (Function.update_of_ne (older p there) _ _)
        · intro p there
          have differ : m.portName p ≠ name := fun named => new (List.mem_map.mpr ⟨p, there, named⟩)
          exact (congrArg (QJsonObject.value · _) json).trans (others _ differ)
        · intro k differ
          exact (congrArg (QJsonObject.value · _) json).trans (others k differ)

end Midi

/-! ## Remotes, virtual remotes and groups -/

namespace World

variable {w w' w₁ : World} {p e : NodeRef} {k name requested : QString} {D : Set Nat}
  {otherwise : Prop}

def shown (w : World) (p : NodeRef) : Shown NodeRef := ⟨w.children p, w.subnodes p, w.nameOf, w.json p⟩

/-- The nodes which belong to one child of a container, or to none. -/
def Scope.tight (p e : NodeRef) (D : Set Nat) : Scope where
  nodes := { n | ∀ c, n.holder = some (p, c) → c = e }
  driven := D

theorem Scope.names_tight (named : (Scope.tight p e D).Names w p k) : k = w.nameOf e := by
  obtain ⟨n, inside, c, held, rfl⟩ := named
  rw [inside c held]

theorem Made.unchanged (made : Made e name w w') (container : IsContainer p) :
    Shown.Unchanged (w.shown p) (w'.shown p) :=
  ⟨made.children p container, made.subnodes p container, fun _ member => made.name_child member,
    made.json p container⟩

/-- A container after a child has arrived, by the name of the child. -/
inductive Outcome (p : NodeRef) (name : QString) (w w' : World) : Prop
  | refused (blank : (' ' : QChar) ∈ name) (same : Shown.Unchanged (w.shown p) (w'.shown p))
  | arrived (solid : (' ' : QChar) ∉ name) (added : Shown.Added name (w.shown p) (w'.shown p))

theorem value_adopt (held : e.holder = some (p, e)) (data : QJsonObject) (other : k ≠ w.nameOf e) :
    ((w.adopt e data).json p).value k = (w.json p).value k := by
  have place := childOf_of_holder held
  obtain ⟨rest, parent⟩ := place.parent
  obtain ⟨json, same, own, -⟩ := adopt_frame (w := w) parent place.minor data
  rw [same]
  dsimp only
  rw [own, QJsonObject.value_insert_of_ne _ other]

/-- In its container a child which arrives changes nothing of the others. -/
theorem Arrival.outcome {Told : World → World → Prop} {data : QJsonObject} {list : World → World}
    {q : Bool × World} (arrival : Arrival (Scope.tight p e D) Told e name data list w₁ q)
    (container : IsContainer p) (held : e.holder = some (p, e)) (made : Made e name w w₁)
    (new : name ∉ (w.children p).map w.nameOf)
    (quiet : p = .remoteList → (Scope.tight p e D).Quiet w₁)
    (joined : ∀ w₂ : World, Joined p e w₂ (list (w₂.adopt e data)))
    (json : ∀ w₂ : World, (list w₂).json = w₂.json)
    (silent : ∀ w₂ w₃, Told w₂ w₃ → Deeds (Scope.tight p e D).silent w₂ w₃) :
    Outcome p name w q.2 := by
  cases arrival with
  | refused blank => exact .refused blank ((made.clear held).unchanged container)
  | @arrived w₂ w₄ solid grown told =>
      have last := silent _ _ told
      have join := joined w₂
      have values : ∀ k, k ≠ w₂.nameOf e → ((list (w₂.adopt e data)).json p).value k =
          (w₂.json p).value k := by
        intro k other
        rw [json]
        exact value_adopt held data other
      generalize list (w₂.adopt e data) = w₃ at join values last
      have holds := grown.holds container quiet
      have holds' := last.holds container fun _ => Scope.quiet_silent _ w₃
      have own₂ : w₂.nameOf e = name := (holds.names e e held).trans made.own
      have own₃ : w₃.nameOf e = name := (congrFun join.names e).trans own₂
      have others : ∀ k ≠ name, (w₄.json p).value k = (w.json p).value k := by
        intro k other
        have third := last.value container (fun _ => Scope.quiet_silent _ w₃) fun named =>
          other ((Scope.names_tight (D := ∅) named).trans own₃)
        have second := grown.value container quiet fun named =>
          other ((Scope.names_tight named).trans made.own)
        rw [third, values k (own₂ ▸ other), second, made.json p container]
      have names : ∀ c ∈ w.children p, w₄.nameOf c = w.nameOf c := by
        intro c member
        have child := mem_children_holder member
        rw [holds'.names c c child, join.names, holds.names c c child, made.name_child member]
      refine .arrived solid ⟨⟨e, made.new p, ?_, ?_, ?_⟩, ?_, names, fun c member => ?_, others⟩
      · show (w₄.children p).Perm (w.children p ++ [e])
        rw [holds'.children, ← made.children p container, ← holds.children]
        exact join.children
      · show w₄.subnodes p = w.subnodes p ++ [e]
        rw [holds'.subnodes, join.subnodes, holds.subnodes, made.subnodes p container]
      · exact (holds'.names e e held).trans own₃
      · exact holds'.kept name ((join.entries name).mpr (.inr own₂.symm))
      · exact others _ fun named => new (named ▸ List.mem_map_of_mem member)

/-- A child which is reported as added was so unless its name was refused. -/
theorem Outcome.reports_iff (outcome : Outcome p name w w') :
    Shown.Reports requested name otherwise (w.shown p) true (w'.shown p) ↔ (' ' : QChar) ∉ name := by
  rw [Shown.reports_true_iff]
  cases outcome with
  | refused blank same => exact iff_of_false same.not_added fun solid => solid blank
  | arrived solid added => exact iff_of_true added solid

/-- A call which adds a child to a container returns, and its result tells what has happened. -/
def Tells (w : World) (p : NodeRef) (requested name : QString) (otherwise : Prop)
    (call : Except Fault (Bool × World)) : Prop :=
  ∃ result w', call = .ok (result, w') ∧
    Shown.Reports requested name otherwise (w.shown p) result (w'.shown p)

theorem tells_iff {call : Except Fault (Bool × World)} {condition : Prop}
    (ends : Ends (fun _ => False) call fun q =>
      Shown.Reports requested name otherwise (w.shown p) q.1 (q.2.shown p) ↔ condition) :
    w.Tells p requested name otherwise call ↔ condition := by
  obtain ⟨⟨result, w'⟩, returned, iff⟩ := ends_total.mp ends
  constructor
  · rintro ⟨result', w'', returned', reports⟩
    cases returned.symm.trans returned'
    exact iff.mp reports
  · exact fun holds => ⟨result, w', returned, iff.mpr holds⟩

end World

namespace VirtualNetwork

variable {w : World} {name base : QString}

/-- A number brings no blank into a name. -/
theorem blank_chosenName (solid : (' ' : QChar) ∉ base) :
    (' ' : QChar) ∈ chosenName w name base ↔ (' ' : QChar) ∈ name := by
  unfold chosenName
  split
  · rename_i empty
    obtain ⟨n, free, -⟩ := freeName_least (w.json .virtualNet).keys base
    rw [free, empty]
    refine iff_of_false (fun member => ?_) List.not_mem_nil
    rcases List.mem_append.mp member with own | number
    · exact solid own
    · exact absurd (QString.not_isSpace_of_digit (QString.digit?_of_mem_ofNat number)) (by decide)
  · rfl

/-- The result of a call which has created an element of the network. -/
theorem reports_created {q : World} (new : ¬(w.json .virtualNet).contains name)
    (solid : (' ' : QChar) ∉ base)
    (outcome : Outcome .virtualNet (chosenName w name base) w q) :
    Shown.Reports name (chosenName w name base) False (w.shown .virtualNet) true
      (q.shown .virtualNet) ↔ (w.json .virtualNet).contains name ∨ (' ' : QChar) ∉ name := by
  rw [outcome.reports_iff, blank_chosenName solid, or_iff_right new]

theorem reports_refused (taken : (w.json .virtualNet).contains name) {chosen : QString} :
    Shown.Reports name chosen False (w.shown .virtualNet) false (w.shown .virtualNet) ↔
      (w.json .virtualNet).contains name ∨ (' ' : QChar) ∉ name := by
  refine iff_of_true ?_ (.inl taken)
  exact (Shown.reports_false_iff (.refl _)).mpr fun _ => .inr (.inl (.inr taken))

variable (h : w.Registered) (listed : w.RemotesListed)

include h listed

theorem addRemote_reports (name : QString) :
    Ends (fun _ => True) (addRemote w name) fun q =>
      Shown.Reports name (chosenName w name "Remote") False (w.shown .virtualNet) q.1
        (q.2.shown .virtualNet) ↔ (w.json .virtualNet).contains name ∨ (' ' : QChar) ∉ name := by
  unfold addRemote
  split
  · exact reports_refused ‹_›
  · rename_i new
    have made := Made.create_free h.vRemotesOld (chosenName w name "Remote")
    have nodes : (Scope.tight .virtualNet (.vRemote (.free w.fresh)) Set.univ).Holds
        (.free w.fresh) := by
      refine ⟨?_, fun b => ?_⟩
      all_goals
        rintro c ⟨⟩
        rfl
    have created := createRemote_arrival nodes (made.remotesListed listed)
      fun _ r _ => ⟨nofun, Set.mem_univ r⟩
    refine created.bind fun q arrival => ?_
    have outcome := arrival.outcome (.inr rfl) rfl made (chosenName_free h new "Remote") nofun
      (fun w₂ => .append_free w.fresh _) (fun _ => rfl) fun _ _ => id
    exact reports_created new (by decide) outcome

theorem addGroup_reports (name : QString) :
    Ends (fun _ => True) (addGroup w name) fun q =>
      Shown.Reports name (chosenName w name "Group") False (w.shown .virtualNet) q.1
        (q.2.shown .virtualNet) ↔ (w.json .virtualNet).contains name ∨ (' ' : QChar) ∉ name := by
  unfold addGroup
  split
  · exact reports_refused ‹_›
  · rename_i new
    have made := Made.create_group h.groupsOld (chosenName w name "Group")
    have nodes : (Scope.tight .virtualNet (.group w.fresh) Set.univ).HoldsGroup w.fresh := by
      refine ⟨?_, fun n => ⟨?_, fun b => ?_⟩⟩
      all_goals
        rintro c ⟨⟩
        rfl
    have created := createGroup_arrival nodes (made.remotesListed listed)
      fun _ r _ => ⟨nofun, Set.mem_univ r⟩
    refine created.bind fun q arrival => ?_
    have outcome := arrival.outcome (.inr rfl) rfl made (chosenName_free h new "Group") nofun
      (fun w₂ => .append_group w.fresh _) (fun _ => rfl) fun _ _ => id
    exact reports_created new (by decide) outcome

end VirtualNetwork

namespace RemoteList

variable {w : World} {name osc : QString}

/-- What `emulateRemote` asks of the remotes which are there. -/
def Taken (w : World) (name osc : QString) : Prop :=
  ∃ r ∈ w.remotes, w.remoteName r = name ∨ (osc ≠ "" ∧ EmulatedRemote.oscAddress w r = osc)

/-- Another reason for which it may fail. -/
def OscUsed (w : World) (osc : QString) : Prop :=
  osc ≠ "" ∧ ∃ r ∈ w.remotes, EmulatedRemote.oscAddress w r = osc

theorem emulateRemote_reports (listed : w.RemotesListed) (name osc ipPort : QString) :
    Ends (fun _ => True) (emulateRemote w name osc ipPort) fun q =>
      Shown.Reports name name (OscUsed w osc) (w.shown .remoteList) q.1 (q.2.shown .remoteList) ↔
        Taken w name osc ∨ (' ' : QChar) ∉ name := by
  have guard : (w.remotes.any fun r => w.remoteName r = name ∨
      (osc ≠ "" ∧ EmulatedRemote.oscAddress w r = osc)) = true ↔ Taken w name osc := by
    simp [Taken]
  by_cases taken : Taken w name osc
  · rw [emulateRemote, if_pos (guard.mpr taken)]
    refine iff_of_true ?_ (.inl taken)
    refine (Shown.reports_false_iff (.refl _)).mpr fun _ => ?_
    obtain ⟨r, inside, named | ⟨some, address⟩⟩ := taken
    · exact .inr (.inl (.inl (List.mem_map.mpr
        ⟨.remote r, mem_children_remoteList.mpr ⟨r, inside, rfl⟩, named⟩)))
    · exact .inr (.inr ⟨some, r, inside, address⟩)
  · rw [emulateRemote, if_neg fun any => taken (guard.mp any)]
    have made := Made.create_remote listed.old name false
      (QJsonObject.build [("osc", .string osc), ("ipPort", .string "")])
    have new : name ∉ (w.children .remoteList).map w.nameOf := by
      intro used
      obtain ⟨c, member, named⟩ := List.mem_map.mp used
      obtain ⟨r, inside, rfl⟩ := mem_children_remoteList.mp member
      exact taken ⟨r, inside, .inl named⟩
    have drives : (Scope.tight .remoteList (.remote w.freshRemote) {w.freshRemote}).Drives
        w.freshRemote := by
      refine ⟨?_, rfl⟩
      rintro c ⟨⟩
      rfl
    have covers : (Scope.tight .remoteList (.remote w.freshRemote) {w.freshRemote}).Covers w := by
      refine ⟨nofun, fun g _ => nofun, fun v _ => ?_⟩
      cases v <;> nofun
    have quiet : (Scope.tight .remoteList (.remote w.freshRemote) {w.freshRemote}).Quiet
        (create w w.freshRemote name false
          (QJsonObject.build [("osc", .string osc), ("ipPort", .string "")])) := by
      rintro r rfl ⟨⟨isReal, -, -⟩, -⟩
      simp [create] at isReal
    refine (createEmulated_arrival drives covers name osc ipPort).bind fun q arrival => ?_
    have outcome := arrival.outcome (.inl rfl) rfl made new (fun _ => quiet)
      (fun w₂ => .append_remote w.freshRemote _) (fun _ => rfl) ?_
    · rw [ends_pure, outcome.reports_iff, or_iff_right taken]
    · rintro w₂ _ rfl
      exact .refl _ w₂

end RemoteList

/-- When the results of the add functions tell what has happened. -/
theorem add_reports_iff {mutex : MutexState} {w : World} (reachable : w.Reachable mutex)
    (unlocked : mutex ≠ .held) {portsName : Bool → QStringList}
    {keyboard : QStringList → Option Bool} {inEvents : EventRef → Bool} {ops : List MidiOp} {m : Midi}
    (reached : Runs.Reaches MidiOp.perform (Midi.start portsName keyboard inEvents) ops m)
    (name osc ipPort port : QString) (inPort : Bool) :
    (w.Tells .virtualNet name (VirtualNetwork.chosenName w name "Remote") False
        (VirtualNetwork.addRemote w name) ↔
      (w.json .virtualNet).contains name ∨ (' ' : QChar) ∉ name) ∧
    (w.Tells .virtualNet name (VirtualNetwork.chosenName w name "Group") False
        (VirtualNetwork.addGroup w name) ↔
      (w.json .virtualNet).contains name ∨ (' ' : QChar) ∉ name) ∧
    (w.Tells .remoteList name name (RemoteList.OscUsed w osc)
        (RemoteList.emulateRemote w name osc ipPort) ↔
      RemoteList.Taken w name osc ∨ (' ' : QChar) ∉ name) ∧
    (Shown.Reports name name False m.shown (m.addPort name inPort port).1
        (m.addPort name inPort port).2.shown ↔
      (m.Opened inPort port ∧ (name ≠ "" → (' ' : QChar) ∈ name ∨ m.shown.Uses name)) ∨
        (¬m.Opened inPort port ∧ (' ' : QChar) ∉ name ∧ name ∉ m.ports.map m.portName)) := by
  have orderly := reachable.orderly
  have sound := reachable.sound
  have wellFormed := orderly.toSound.wellFormed
  have registered := wellFormed.toRegistered
  have free : w.Unlocked := by
    rw [Unlocked, sound.2]
    exact unlocked
  obtain ⟨tidy, documented⟩ := Midi.sound_reaches reached
  refine ⟨tells_iff ?_, tells_iff ?_, tells_iff ?_, ?_⟩
  · exact (VirtualNetwork.addRemote_returns free name).join
      (VirtualNetwork.addRemote_reports registered orderly.listed name)
  · exact (VirtualNetwork.addGroup_returns free name).join
      (VirtualNetwork.addGroup_reports registered orderly.listed name)
  · exact (RemoteList.emulateRemote_returns wellFormed free name osc ipPort).join
      (RemoteList.emulateRemote_reports orderly.listed name osc ipPort)
  · exact Midi.reports_addPort_iff tidy documented name inPort port

/-- The name is in use in the virtual network and among the ports, and new among the remotes. -/
theorem add_reports_iff_used :
    Ends (fun _ => False) ((initial .free fun _ => none).run
      [.addRemote "1", .addVirtualRemote "A", .emulateRemote "E" "/e" ""]) fun w =>
      Ends (fun _ => False) ((MidiOp.openPort "A" true "5").perform
        (Midi.start (fun _ => []) (fun _ => none) fun _ => false)) fun m =>
        w.Tells .virtualNet "A" "A" False (VirtualNetwork.addRemote w "A") ∧
        w.Tells .virtualNet "A" "A" False (VirtualNetwork.addGroup w "A") ∧
        w.Tells .remoteList "A" "A" (RemoteList.OscUsed w "/a")
          (RemoteList.emulateRemote w "A" "/a" "") ∧
        Shown.Reports "A" "A" False m.shown (m.addPort "A" true "5").1
          (m.addPort "A" true "5").2.shown := by
  have run : Ends (fun _ => False) ((initial .free fun _ => none).run
      [.addRemote "1", .addVirtualRemote "A", .emulateRemote "E" "/e" ""]) fun w =>
        (w.json .virtualNet).contains "A" := by decide +kernel
  have opened : Ends (fun _ => False) ((MidiOp.openPort "A" true "5").perform
      (Midi.start (fun _ => []) (fun _ => none) fun _ => false)) fun m =>
        m.Opened true "5" ∧ m.shown.Uses "A" := by
    unfold Midi.Opened Shown.Uses
    decide +kernel
  obtain ⟨w, ended, taken⟩ := ends_total.mp run
  obtain ⟨m, performed, text, used⟩ := ends_total.mp opened
  have solid : (' ' : QChar) ∉ ("A" : QString) := by decide
  obtain ⟨remote, group, emulated, port⟩ := add_reports_iff (w := w) ⟨_, _, ended⟩ (by decide)
    (.there performed (.here m [])) "A" "/a" "" "5" true
  rw [ended, performed]
  exact ⟨remote.mpr (.inl taken), group.mpr (.inl taken), emulated.mpr (.inr solid),
    port.mpr (.inl ⟨text, fun _ => .inr used⟩)⟩

/-- Nothing is added under a name with a blank, and it is reported as added. A port is not
    added under a new name when its text is open. -/
theorem misreported :
    (Ends (fun _ => False) (VirtualNetwork.addRemote (initial .free fun _ => none) "A B") fun q =>
      q.1 = true ∧ ¬Shown.Added "A B" ((initial .free fun _ => none).shown .virtualNet)
        (q.2.shown .virtualNet)) ∧
    Ends (fun _ => False)
      ((MidiOp.openPort "A" true "5").perform
        (Midi.start (fun _ => []) (fun _ => none) fun _ => false)) fun m =>
      (m.addPort "B" true "5").1 = false ∧ ¬m.shown.Uses "B" := by
  constructor
  · have refused : Ends (fun _ => False)
        (VirtualNetwork.addRemote (initial .free fun _ => none) "A B") fun q =>
        q.1 = true ∧ q.2.subnodes .virtualNet = [] := by
      decide +kernel
    refine refused.mono fun q nothing => ⟨nothing.1, fun added => ?_⟩
    obtain ⟨e, -, -, there, -⟩ := added.child
    simp only [World.shown, nothing.2] at there
    exact absurd there (by simp)
  · unfold Shown.Uses
    decide +kernel

end VoxPopuli
