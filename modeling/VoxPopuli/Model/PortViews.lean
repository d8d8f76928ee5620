import VoxPopuli.Lib.Directory
import VoxPopuli.Model.Binding

/-! # The ports of the interface in their three views

The interface lists its ports, has them as child nodes and has an object for each of them in
its JSON. A name is only asked for when a port is renamed, so a port may be opened under the
name of another one, whose entry it replaces.
-/

namespace VoxPopuli

/-- The names of the objects in the JSON of a container. -/
def QJsonObject.HasObject (o : QJsonObject) (k : QString) : Prop := ∃ o', o.value k = some (.object o')

theorem QJsonObject.hasObject_insert (o o' : QJsonObject) (k k' : QString) :
    (o.insert k (.object o')).HasObject k' ↔ o.HasObject k' ∨ k' = k := by
  unfold HasObject
  by_cases same : k' = k
  · simp [same]
  · simp [same]

theorem QJsonObject.hasObject_remove (o : QJsonObject) (k k' : QString) :
    (o.remove k).HasObject k' ↔ k' ≠ k ∧ o.HasObject k' := by
  unfold HasObject
  by_cases same : k' = k
  · simp [same]
  · simp [same]

/-- The three views which a container has of its children: its own list, its child nodes and
    the objects of its JSON. -/
structure ThreeViews (own subnodes : List QString) (json : QJsonObject) : Prop where
  distinct : own.Nodup
  subnodes : subnodes.Perm own
  objects : ∀ k, json.HasObject k ↔ k ∈ own

theorem Complete.threeViews {α : Type} {children others : List α} {name : α → QString}
    {json : QJsonObject} (h : Complete children others name json.HasObject) :
    ThreeViews (children.map name) (others.map name) json :=
  ⟨h.nodup, h.perm.map name, h.entry_iff⟩

namespace Midi

variable {m m' : Midi}

def InOrder (m : Midi) : Prop := Complete m.ports m.subnodes m.portName m.json.HasObject

/-- There is nothing but ports in the JSON. -/
def OnlyPorts (m : Midi) : Prop := ∀ k, m.json.contains k → m.json.HasObject k

theorem hasObject_iff (only : m.OnlyPorts) (k : QString) :
    m.json.HasObject k ↔ m.json.contains k = true := by
  refine ⟨?_, only k⟩
  rintro ⟨o, found⟩
  rw [QJsonObject.contains, found]
  rfl

theorem Copied.hasObject {p : Nat} {json : QJsonObject} (copied : m.Copied p json) (k : QString) :
    (json.HasObject k → m.json.HasObject k ∨ k = m.portName p) ∧
      (m.json.HasObject k → json.HasObject k) := by
  rcases copied with rfl | ⟨o, rfl⟩
  · exact ⟨.inl, id⟩
  · rw [QJsonObject.hasObject_insert]
    exact ⟨id, .inl⟩

theorem onlyPorts_insert {json : QJsonObject} {o : QJsonObject} {name : QString}
    (only : ∀ k, json.contains k → json.HasObject k) (k : QString)
    (there : (json.insert name (.object o)).contains k) :
    (json.insert name (.object o)).HasObject k := by
  rw [QJsonObject.hasObject_insert]
  by_cases same : k = name
  · exact .inr same
  · refine .inl (only k ?_)
    rwa [QJsonObject.contains, QJsonObject.value_insert_of_ne _ same] at there

theorem onlyPorts_remove {json : QJsonObject} {name : QString}
    (only : ∀ k, json.contains k → json.HasObject k) (k : QString)
    (there : (json.remove name).contains k) : (json.remove name).HasObject k := by
  rw [QJsonObject.hasObject_remove]
  by_cases same : k = name
  · rw [same, QJsonObject.contains, QJsonObject.value_remove_self] at there
    cases there
  · refine ⟨same, only k ?_⟩
    rwa [QJsonObject.contains, QJsonObject.value_remove_of_ne _ same] at there

theorem Copied.onlyPorts {p : Nat} {json : QJsonObject} (copied : m.Copied p json)
    (only : m.OnlyPorts) : ∀ k, json.contains k → json.HasObject k := by
  rcases copied with rfl | ⟨o, rfl⟩
  · exact only
  · exact onlyPorts_insert only

end Midi

namespace MidiOp

/-- A port is opened under the name of another one. -/
def Doubles (m : Midi) : MidiOp → Prop
  | openPort name inPort port =>
      (∀ p ∈ m.ports, QVariant.toString ((m.portJson p).value "port") = port → m.isInPort p ≠ inPort) ∧
        (' ' : QChar) ∉ name ∧ m.json.contains name
  | _ => False

end MidiOp

namespace Midi

variable {m m' : Midi}

/-- What the views show is the same. -/
structure SameViews (m m' : Midi) : Prop where
  ports : m'.ports = m.ports
  subnodes : m'.subnodes = m.subnodes
  portName : ∀ p ∈ m.ports, m'.portName p = m.portName p
  json : m'.json = m.json

theorem sameViews_update (h : m.Tidy) : SameViews m m.updateEventTriggers := by
  obtain ⟨events, same, -⟩ := updateEventTriggers_eq h.registered
  rw [same]
  exact ⟨rfl, rfl, fun _ _ => rfl, rfl⟩

theorem SameViews.onlyPorts (same : SameViews m m') (only : m.OnlyPorts) : m'.OnlyPorts := by
  unfold OnlyPorts
  rw [same.json]
  exact only

theorem SameViews.inOrder_iff (same : SameViews m m') : m'.InOrder ↔ m.InOrder := by
  unfold InOrder
  rw [same.ports, same.subnodes, same.json]
  constructor
  · exact fun order => order.congr (fun p there => (same.portName p there).symm) fun k => Iff.rfl
  · exact fun order => order.congr same.portName fun k => Iff.rfl

/-- A port which is opened: the interface after it, and its entry. -/
theorem createPort_eq (m : Midi) {name : QString} (solid : (' ' : QChar) ∉ name) (inPort : Bool)
    (port : QString) : ∃ isPortOpen json, (m.createPort name inPort port).2 =
      { m with
        portName := Function.update m.portName m.freshPort name
        isInPort := Function.update m.isInPort m.freshPort inPort
        isPortOpen := isPortOpen
        portJson := Function.update m.portJson m.freshPort (createMidiPortJSon inPort port)
        freshPort := m.freshPort + 1
        json := json
        subnodes := m.subnodes ++ [m.freshPort]
        ports := m.ports ++ [m.freshPort] } ∧
      json.value name = some (.object (createMidiPortJSon inPort port)) ∧
        ∀ k ≠ name, json.value k = m.json.value k := by
  obtain ⟨isPortOpen, portJson, json, same, stored⟩ := setPortValue_stored { m with
    portName := Function.update m.portName m.freshPort name
    isInPort := Function.update m.isInPort m.freshPort inPort
    isPortOpen := Function.update m.isPortOpen m.freshPort false
    portJson := Function.update m.portJson m.freshPort []
    freshPort := m.freshPort + 1 } m.freshPort "port" port
  have own : Function.update m.portName m.freshPort name m.freshPort = name :=
    Function.update_self ..
  have others : ∀ k ≠ name, json.value k = m.json.value k := by
    intro k differ
    rcases stored.copied with kept | ⟨o, put⟩
    · rw [kept]
    · dsimp only at put
      rw [put, own, QJsonObject.value_insert_of_ne _ differ]
  have documents : Function.update portJson m.freshPort (createMidiPortJSon inPort port) =
      Function.update m.portJson m.freshPort (createMidiPortJSon inPort port) := by
    rcases stored with ⟨kept, -⟩ | ⟨v, put, -⟩
    · rw [kept]
      exact Function.update_idem ..
    · rw [put]
      simp only [Function.update_idem]
  refine ⟨isPortOpen, json.insert name (.object (createMidiPortJSon inPort port)), ?_, ?_, ?_⟩
  · unfold createPort
    dsimp only
    rw [if_neg solid, same, ← documents]
  · exact QJsonObject.value_insert_self ..
  · intro k differ
    rw [QJsonObject.value_insert_of_ne _ differ]
    exact others k differ

/-- A port which is opened joins the others, in order when no other has its name. -/
theorem createPort_views (h : m.Tidy) (only : m.OnlyPorts) {name : QString} (inPort : Bool)
    (port : QString) : (m.createPort name inPort port).2.OnlyPorts ∧ (m.InOrder →
      ((m.createPort name inPort port).2.InOrder ↔ ¬((' ' : QChar) ∉ name ∧ m.json.contains name))) := by
  have older : ∀ p ∈ m.ports, Function.update m.portName m.freshPort name p = m.portName p :=
    fun p there => Function.update_of_ne (Nat.ne_of_lt (h.ports p there)) _ _
  by_cases space : (' ' : QChar) ∈ name
  · unfold Midi.createPort
    dsimp only
    rw [if_pos space]
    refine ⟨only, fun order => iff_of_true ?_ fun taken => taken.1 space⟩
    exact Complete.congr order older fun k => Iff.rfl
  · obtain ⟨isPortOpen, json, same, document, others⟩ := createPort_eq m space inPort port
    rw [same]
    have own : Function.update m.portName m.freshPort name m.freshPort = name :=
      Function.update_self ..
    have entries : ∀ k, json.HasObject k ↔ m.json.HasObject k ∨
        k = Function.update m.portName m.freshPort name m.freshPort := by
      intro k
      rw [own]
      by_cases new : k = name
      · rw [new]
        exact iff_of_true ⟨_, document⟩ (.inr rfl)
      · rw [or_iff_left new, QJsonObject.HasObject, others k new]
        rfl
    refine ⟨fun k there => ?_, fun order => ?_⟩
    · refine (entries k).mpr ?_
      rw [own]
      by_cases new : k = name
      · exact .inr new
      · refine .inl (only k ?_)
        rwa [QJsonObject.contains, ← others k new]
    · have taken : m.json.contains name = true ↔ name ∈ m.ports.map m.portName := by
        rw [← hasObject_iff only, order.entry_iff]
      rw [taken]
      have before : Complete m.ports m.subnodes (Function.update m.portName m.freshPort name)
          m.json.HasObject := Complete.congr order older fun k => Iff.rfl
      have names : m.ports.map (Function.update m.portName m.freshPort name) =
          m.ports.map m.portName := List.map_congr_left older
      have new : Function.update m.portName m.freshPort name m.freshPort ∉
          m.ports.map (Function.update m.portName m.freshPort name) ↔
          ¬((' ' : QChar) ∉ name ∧ name ∈ m.ports.map m.portName) := by
        rw [names, own]
        exact not_congr (and_iff_right space).symm
      rw [← new]
      constructor
      · intro after double
        have distinct := after.nodup
        dsimp only at distinct
        rw [List.map_append, List.map_singleton, List.nodup_append] at distinct
        exact distinct.2.2 _ double _ (List.mem_singleton_self _) rfl
      · exact fun single => Complete.append before single entries

theorem closePort_views {name : QString} {p : Nat} (only : m.OnlyPorts)
    (found : m.ports.find? (fun p => m.portName p = name) = some p) :
    Midi.OnlyPorts { m with
      json := m.json.remove name
      subnodes := m.subnodes.erase p
      ports := m.ports.erase p } ∧ (m.InOrder → Midi.InOrder { m with
        json := m.json.remove name
        subnodes := m.subnodes.erase p
        ports := m.ports.erase p }) := by
  have named : m.portName p = name := by simpa using List.find?_some found
  refine ⟨onlyPorts_remove only, fun order => ?_⟩
  refine Complete.erase order (List.mem_of_find?_eq_some found) fun k => ?_
  rw [named]
  exact QJsonObject.hasObject_remove ..

theorem renamePort_views {newName : QString} {p : Nat} (only : m.OnlyPorts) (inside : p ∈ m.ports)
    (free : m.json.contains newName = false) :
    Midi.OnlyPorts { m with
      portName := Function.update m.portName p newName
      json := (m.json.remove (m.portName p)).insert newName (.object (m.portJson p)) } ∧
        (m.InOrder → Midi.InOrder { m with
          portName := Function.update m.portName p newName
          json := (m.json.remove (m.portName p)).insert newName (.object (m.portJson p)) }) := by
  have own : Function.update m.portName p newName p = newName := Function.update_self ..
  refine ⟨onlyPorts_insert (onlyPorts_remove only), fun order => ?_⟩
  refine Complete.rename order inside (fun q _ other => Function.update_of_ne other _ _) ?_ fun k => ?_
  · dsimp only
    rw [own, hasObject_iff only, free]
    exact Bool.false_ne_true
  · dsimp only
    rw [own, QJsonObject.hasObject_insert, QJsonObject.hasObject_remove, or_comm]

/-- Step lemma. -/
theorem perform_views (h : m.Tidy) (only : m.OnlyPorts) (op : MidiOp) :
    Ends (fun _ => True) (op.perform m) fun m' =>
      m'.OnlyPorts ∧ (m.InOrder → (m'.InOrder ↔ ¬op.Doubles m)) := by
  have still : ∀ {m'}, SameViews m m' → m'.OnlyPorts ∧ (m.InOrder → (m'.InOrder ↔ ¬False)) :=
    fun same => ⟨same.onlyPorts only, fun order => iff_of_true (same.inOrder_iff.mpr order) id⟩
  cases op with
  | openPort name inPort port =>
      rw [MidiOp.perform, ends_pure, addPort, MidiOp.Doubles]
      split
      · rename_i refused
        obtain ⟨p, there, same⟩ := List.any_eq_true.mp refused
        obtain ⟨port', type⟩ := of_decide_eq_true same
        refine ⟨only, fun order => iff_of_true order fun doubles => ?_⟩
        exact doubles.1 p there port' type
      · rename_i accepted
        have other : ∀ p ∈ m.ports, QVariant.toString ((m.portJson p).value "port") = port →
            m.isInPort p ≠ inPort := by
          intro p there port' type
          exact accepted (List.any_eq_true.mpr ⟨p, there, decide_eq_true ⟨port', type⟩⟩)
        have updated := sameViews_update (h.createPort name inPort port).1
        obtain ⟨only', order_iff⟩ :
            (m.createPort name inPort port).2.OnlyPorts ∧ (m.InOrder → (_ ↔ _)) :=
          createPort_views h only inPort port
        refine ⟨updated.onlyPorts only', fun order => updated.inOrder_iff.trans ?_⟩
        rw [order_iff order]
        exact not_congr ⟨fun taken => ⟨other, taken⟩, fun doubles => doubles.2⟩
  | closePort name =>
      rw [MidiOp.perform, ends_pure, removePort]
      cases found : m.ports.find? fun p => m.portName p = name with
      | none => exact still ⟨rfl, rfl, fun _ _ => rfl, rfl⟩
      | some p =>
          have tidy : Midi.Tidy { m with
              json := m.json.remove name
              subnodes := m.subnodes.erase p
              ports := m.ports.erase p } := by
            refine h.moved rfl rfl rfl (fun q there => h.ports q (List.mem_of_mem_erase there)) ?_
            exact congrArg (List.erase · p) h.subnodes
          have updated := sameViews_update tidy
          obtain ⟨only', order'⟩ := closePort_views only found
          refine ⟨updated.onlyPorts only', fun order => iff_of_true ?_ id⟩
          exact updated.inOrder_iff.mpr (order' order)
  | renamePort name newName =>
      rw [MidiOp.perform, ends_pure, MidiOp.port?, h.subnodes]
      cases found : m.ports.find? fun p => m.portName p = name with
      | none => exact still ⟨rfl, rfl, fun _ _ => rfl, rfl⟩
      | some p =>
          dsimp only [renamePort]
          cases taken : m.json.contains newName with
          | true => exact still ⟨rfl, rfl, fun _ _ => rfl, rfl⟩
          | false =>
              obtain ⟨only', order'⟩ := renamePort_views only (List.mem_of_find?_eq_some found) taken
              exact ⟨only', fun order => iff_of_true (order' order) id⟩
  | setPort name key value =>
      rw [MidiOp.perform, ends_pure, MidiOp.port?, h.subnodes]
      cases found : m.ports.find? fun p => m.portName p = name with
      | none => exact still ⟨rfl, rfl, fun _ _ => rfl, rfl⟩
      | some p =>
          obtain ⟨isPortOpen, portJson, json, same, copied⟩ := setPortValue_eq m p key value
          dsimp only
          rw [same]
          refine ⟨copied.onlyPorts only, fun order => iff_of_true (order.congr (fun _ _ => rfl) ?_) id⟩
          intro k
          refine ⟨fun there => ?_, (copied.hasObject k).2⟩
          rcases (copied.hasObject k).1 there with old | rfl
          · exact old
          · exact order.entries p (List.mem_of_find?_eq_some found)
  | addEvent e definition trigger =>
      apply (runEffects_ends m e _).bind
      rintro m' ⟨log, rfl⟩
      dsimp only
      rw [addEventTrigger_if, ends_pure]
      exact still ⟨rfl, rfl, fun _ _ => rfl, rfl⟩
  | removeEvent e definition trigger =>
      apply (runEffects_ends m e _).bind
      rintro m' ⟨log, rfl⟩
      dsimp only
      rw [removeEventTrigger_if, ends_pure]
      exact still ⟨rfl, rfl, fun _ _ => rfl, rfl⟩
  | triggerEvent e trigger =>
      refine (runEffects_ends m e _).mono ?_
      rintro m' ⟨log, rfl⟩
      exact still ⟨rfl, rfl, fun _ _ => rfl, rfl⟩

theorem inOrder_start (portsName : Bool → QStringList) (keyboard : QStringList → Option Bool)
    (inEvents : EventRef → Bool) : (start portsName keyboard inEvents).InOrder :=
  .nil _ fun k there => by
    obtain ⟨o, found⟩ := there
    cases found

/-- The list of the ports, the child nodes and the JSON of the interface agree. -/
def ViewsAgree (m : Midi) : Prop :=
  ThreeViews (m.ports.map m.portName) (m.subnodes.map m.portName) m.json

theorem viewsAgree_iff (h : m.Tidy) : m.ViewsAgree ↔ m.InOrder := by
  refine ⟨fun views => ?_, Complete.threeViews⟩
  refine ⟨⟨views.distinct, fun p inside => ?_⟩, ?_, fun k => (views.objects k).mp⟩
  · exact (views.objects _).mpr (List.mem_map_of_mem inside)
  · rw [h.subnodes]

/-- In every state of a run the views of the ports agree, exactly when no port is opened under
    the name of another one. -/
theorem viewsAgree_run_iff (portsName : Bool → QStringList) (keyboard : QStringList → Option Bool)
    (inEvents : EventRef → Bool) (ops : List MidiOp) :
    (∀ m, Runs.Reaches MidiOp.perform (start portsName keyboard inEvents) ops m → m.ViewsAgree) ↔
      Runs.Throughout MidiOp.perform (fun m op => ¬op.Doubles m)
        (start portsName keyboard inEvents) ops := by
  have sound : (start portsName keyboard inEvents).Tidy ∧ (start portsName keyboard inEvents).OnlyPorts :=
    ⟨tidy_start portsName keyboard inEvents, fun k there => by cases there⟩
  have first := (viewsAgree_iff sound.1).mpr (inOrder_start portsName keyboard inEvents)
  refine Runs.reaches_iff (J := fun m => m.Tidy ∧ m.OnlyPorts) first sound ?_ ?_ ?_
  · intro m op m' h first
    exact ⟨((h.1.perform op).of_ok first).1, ((perform_views h.1 h.2 op).of_ok first).1⟩
  · intro m op m' h views first
    rw [viewsAgree_iff ((h.1.perform op).of_ok first).1]
    exact ((perform_views h.1 h.2 op).of_ok first).2 ((viewsAgree_iff h.1).mp views)
  · intro m op e h fails doubles
    cases op with
    | openPort name inPort port => cases fails
    | closePort name | renamePort name newName | setPort name key value => cases doubles
    | addEvent e definition trigger | removeEvent e definition trigger => cases doubles
    | triggerEvent e trigger => cases doubles

end Midi

end VoxPopuli
