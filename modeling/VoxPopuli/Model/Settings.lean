import VoxPopuli.Model.Commands
import VoxPopuli.Model.MidiInterface
import VoxPopuli.XBee.Connection
import VoxPopuli.XBee.ReceiveRX

/-! # Settings

What is configured with `set`: the address and port of the OSC interface, the port behind a
MIDI port, the OSC address and owner of an emulated remote and the port of the radio. A call
which reports no error should leave the value in the JSON of its node and in the document of
the model. The OSC interface never stores, and a MIDI port which cannot be opened is emptied.
-/

namespace VoxPopuli

/-! ## The OSC interface -/

/-- `qosc::Listener` as far as it is configured. -/
structure OscListener where
  addressFilter : QString := []
  port : Int := -1

structure OscInterface where
  jsonData : QJsonObject
  oscAddress : QString := []
  oscListener : OscListener := {}

namespace OscInterface

def setOscAddress (o : OscInterface) (address : QString) : OscInterface :=
  let address := if address.head? = some ('/' : QChar) then address else ('/' : QChar) :: address
  let address := if address.getLast? = some ('/' : QChar) then address else address ++ [('/' : QChar)]
  { o with oscAddress := address, oscListener := { o.oscListener with addressFilter := address } }

/-- `setPort`; the server may also fail to start. -/
def setPort (o : OscInterface) (port : Int) : OscInterface :=
  { o with oscListener := { o.oscListener with port := port } }

def setValue (o : OscInterface) (name value : QString) : SetError × OscInterface :=
  if name = "address" then (.noError, o.setOscAddress value)
  else if name = "port" then
    match value.toInt? with
    | none => (.wrongArg, o)
    | some port => (.noError, o.setPort port)
  else (if o.jsonData.contains name then .readOnly else .doesNotExist, o)

/-- Nothing is ever stored. -/
theorem jsonData_setValue (o : OscInterface) (name value : QString) :
    (o.setValue name value).2.jsonData = o.jsonData := by
  unfold setValue
  split
  · rfl
  · split
    · split <;> rfl
    · rfl

end OscInterface

/-! ## The network model -/

/-- `NetworkModel::setValue`. -/
def NetworkModel.setValue (w : World) (x : XBeePort) (name value : QString) :
    SetError × World × XBeePort :=
  if name = "USBPort" then
    let (e, w) := w.setString .network name value
    (e, w, x.forcePort value.toStdString)
  else (w.unknownValue .network name, w, x)

/-! ## Both models -/

structure Configuration where
  world : World
  midi : Midi
  osc : OscInterface
  xbee : XBeePort

/-- A call of `set` for a property which is configured. -/
inductive Setting where
  | oscAddress (value : QString)
  | oscPort (value : QString)
  | midiPort (p : Nat) (value : QString)
  | emulatedOsc (r : Nat) (value : QString)
  | emulatedIpPort (r : Nat) (value : QString)
  | usbPort (value : QString)

/-- The value at the end of a path of keys. -/
def QJsonObject.valueAt (o : QJsonObject) : List QString → QVariant
  | [] => none
  | [key] => o.value key
  | key :: path =>
      match o.value key with
      | some (.object o') => valueAt o' path
      | _ => none

/-- A JSON value denotes the text of a command: as the same string or as the same number. -/
def Denotes (v : QVariant) (value : QString) : Prop :=
  v = some (.string value) ∨ ∃ n : Int, value.toInt? = some n ∧ v = some (.double n)

namespace Setting

def name : Setting → QString
  | oscAddress _ => "address"
  | oscPort _ | midiPort _ _ => "port"
  | emulatedOsc _ _ => "osc"
  | emulatedIpPort _ _ => "ipPort"
  | usbPort _ => "USBPort"

def value : Setting → QString
  | oscAddress value | oscPort value | midiPort _ value | emulatedOsc _ value
  | emulatedIpPort _ value | usbPort value => value

end Setting

namespace Configuration

/-- `set(name, value)` on the node of a setting. -/
def set (c : Configuration) (s : Setting) : Except Fault (SetError × Configuration) :=
  match s with
  | .oscAddress value | .oscPort value =>
      let (e, osc) := c.osc.setValue s.name value
      pure (e, { c with osc := osc })
  | .midiPort p value =>
      let (e, midi) := c.midi.setPortValue p s.name value
      pure (e, { c with midi := midi })
  | .emulatedOsc r value | .emulatedIpPort r value => do
      let (e, world) ← EmulatedRemote.setValue c.world r s.name value
      pure (e, { c with world := world })
  | .usbPort value =>
      let (e, world, xbee) := NetworkModel.setValue c.world c.xbee s.name value
      pure (e, { c with world := world, xbee := xbee })

/-- `_jsonData` of the node of a setting. -/
def jsonData (c : Configuration) : Setting → QJsonObject
  | .oscAddress _ | .oscPort _ => c.osc.jsonData
  | .midiPort p _ => c.midi.portJson p
  | .emulatedOsc r _ | .emulatedIpPort r _ => c.world.json (.remote r)
  | .usbPort _ => c.world.json .network

/-- The document of the event model, in which the OSC and the MIDI interface have their own. -/
def eventDocument (c : Configuration) : QJsonObject :=
  ((c.world.json .eventModel).insert "OSC" (.object c.osc.jsonData)).insert "Midi"
    (.object c.midi.json)

/-- Where the document of its model has the property. -/
def persisted (c : Configuration) (s : Setting) : QVariant :=
  match s with
  | .oscAddress _ | .oscPort _ => c.eventDocument.valueAt ["OSC", s.name]
  | .midiPort p _ => c.eventDocument.valueAt ["Midi", c.midi.portName p, s.name]
  | .emulatedOsc r _ | .emulatedIpPort r _ =>
      (c.world.json .network).valueAt ["Remotes", c.world.remoteName r, s.name]
  | .usbPort _ => (c.world.json .network).valueAt [s.name]

/-- The value of a setting is in the JSON of its node and in the document. -/
def Stored (c : Configuration) (s : Setting) : Prop :=
  Denotes ((c.jsonData s).value s.name) s.value ∧ Denotes (c.persisted s) s.value

/-- What a setting depends on: the OSC interface must have been loaded with the value; the
    number of a MIDI port must be that of a port of the system, or -1; and an emulated remote
    which has the value already must have it in the document, too. -/
def Keeps (c : Configuration) (s : Setting) : Prop :=
  match s with
  | .oscAddress value | .oscPort value => Denotes (c.osc.jsonData.value s.name) value
  | .midiPort p value =>
      value ≠ [] → ∀ n, value.toInt? = some n →
        n = -1 ∨ 0 ≤ n ∧ n < (c.midi.portsName (c.midi.isInPort p)).length
  | .emulatedOsc r value | .emulatedIpPort r value =>
      c.world.get (.remote r) s.name = some (.string value) → Denotes (c.persisted s) value
  | .usbPort _ => True

variable {c c' : Configuration}

theorem valueAt_eventDocument_osc (c : Configuration) (key : QString) :
    c.eventDocument.valueAt ["OSC", key] = c.osc.jsonData.value key := by
  have other : ("OSC" : QString) ≠ "Midi" := by decide
  simp [eventDocument, QJsonObject.valueAt, other]

theorem valueAt_eventDocument_midi (c : Configuration) (name key : QString) :
    c.eventDocument.valueAt ["Midi", name, key] = c.midi.json.valueAt [name, key] := by
  simp [eventDocument, QJsonObject.valueAt]

/-! ## The OSC interface -/

theorem set_osc {s : Setting} {value : QString} (osc : s = .oscAddress value ∨ s = .oscPort value)
    (accepted : c.set s = .ok (.noError, c')) : c'.Stored s ↔ c.Keeps s := by
  obtain rfl : { c with osc := (c.osc.setValue s.name value).2 } = c' := by
    rcases osc with rfl | rfl <;> exact congrArg Prod.snd (Except.ok.inj accepted)
  have same := OscInterface.jsonData_setValue c.osc s.name value
  rcases osc with rfl | rfl
  all_goals
    simp only [Stored, Keeps, persisted, jsonData, valueAt_eventDocument_osc, Setting.value, and_self]
    rw [same]

/-! ## Remotes and the radio -/

/-- A value which is set for a remote is in the document. -/
theorem valueAt_assigned (w : World) (r : Nat) (key : QString) (v : QJsonValue) :
    (((w.putJson (.remote r) key v).valueChanged (.remote r)).json .network).valueAt
      ["Remotes", w.remoteName r, key] = some v := by
  simp [World.valueChanged, World.updateParentJSon, World.mirror, NodeRef.ancestors, World.putJson,
    World.setJson, World.nameOf, World.jsonOf, QJsonObject.valueAt]

theorem remoteName_setString (w : World) (r : Nat) (key value : QString) :
    (w.setString (.remote r) key value).2.remoteName = w.remoteName := by
  unfold World.setString World.assign
  split
  · rfl
  · obtain ⟨json, same, -⟩ := World.mirror_frame (w.putJson (.remote r) key (.string value))
      (.remote r) (NodeRef.remote r).ancestors
    rw [World.valueChanged, World.updateParentJSon, same]
    rfl

/-- `setString` of a remote stores a new value, in the document, too. -/
theorem setString_cases (w : World) (r : Nat) (key value : QString) :
    (w.get (.remote r) key = some (.string value) ∧ (w.setString (.remote r) key value).2 = w) ∨
      (w.get (.remote r) key ≠ some (.string value) ∧
        ((w.setString (.remote r) key value).2.json .network).valueAt
          ["Remotes", w.remoteName r, key] = some (.string value)) := by
  unfold World.setString World.assign
  split
  · rename_i same
    refine .inl ⟨?_, rfl⟩
    cases stored : w.get (.remote r) key with
    | none => simp [stored] at same
    | some v => cases v <;> simp_all
  · rename_i new
    exact .inr ⟨fun same => new (by simp [same]), valueAt_assigned w r key (.string value)⟩

theorem set_emulated {s : Setting} {r : Nat} {value : QString}
    (emulated : s = .emulatedOsc r value ∨ s = .emulatedIpPort r value)
    (accepted : c.set s = .ok (.noError, c')) : c'.Stored s ↔ c.Keeps s := by
  obtain rfl : { c with world := (c.world.setString (.remote r) s.name value).2 } = c' := by
    rcases emulated with rfl | rfl
    · exact congrArg Prod.snd (Except.ok.inj accepted)
    · by_cases colons : value.count (':' : QChar) = 1
      · have answer : EmulatedRemote.setValue c.world r "ipPort" value =
            .ok (.noError, (c.world.setString (.remote r) "ipPort" value).2) :=
          if_neg (not_not.mpr colons)
        rw [set, Setting.name, answer] at accepted
        exact congrArg Prod.snd (Except.ok.inj accepted)
      · have answer : EmulatedRemote.setValue c.world r "ipPort" value = .ok (.wrongArg, c.world) :=
          if_pos colons
        rw [set, Setting.name, answer] at accepted
        cases accepted
  have own : ((c.world.setString (.remote r) s.name value).2.json (.remote r)).value s.name =
      some (.string value) :=
    (World.get_setString c.world (.remote r) s.name value s.name).trans (if_pos rfl)
  have name := remoteName_setString c.world r s.name value
  have denotes : Denotes (some (.string value)) value := .inl rfl
  have written := setString_cases c.world r s.name value
  rcases emulated with rfl | rfl
  all_goals
    simp only [Stored, Keeps, persisted, jsonData, Setting.value, own, denotes, true_and, name]
    rcases written with ⟨same, unchanged⟩ | ⟨new, written⟩
    · simp only [unchanged, same, forall_const]
    · simp only [new, written, denotes, false_imp_iff]

theorem set_usbPort {value : QString} (accepted : c.set (.usbPort value) = .ok (.noError, c')) :
    c'.Stored (.usbPort value) := by
  have new : (c.world.setString .network "USBPort" value).1 = .noError :=
    congrArg Prod.fst (Except.ok.inj accepted)
  obtain rfl : { c with
      world := (c.world.setString .network "USBPort" value).2
      xbee := c.xbee.forcePort value.toStdString } = c' :=
    congrArg Prod.snd (Except.ok.inj accepted)
  have stored : ((c.world.setString .network "USBPort" value).2.json .network).value "USBPort" =
      some (.string value) := by
    unfold World.setString World.assign at new ⊢
    split at new
    · cases new
    · rename_i other
      rw [if_neg other]
      simp [World.valueChanged, World.updateParentJSon, World.mirror, NodeRef.ancestors,
        World.putJson, World.setJson]
  exact ⟨.inl stored, .inl stored⟩

/-! ## MIDI ports -/

/-- A value which is stored for a port is in its JSON and in that of the interface. -/
theorem assignPort_stored {m m' : Midi} {p : Nat} {key : QString} {same : QJsonValue → Bool}
    {v : QJsonValue} (stored : m.assignPort p key same v = (.noError, m')) :
    m'.portName = m.portName ∧ (m'.portJson p).value key = some v ∧
      m'.json.valueAt [m'.portName p, key] = some v := by
  unfold Midi.assignPort at stored
  split at stored
  · cases stored
  · cases stored
    refine ⟨rfl, ?_, ?_⟩
    · simp [Midi.putPort]
    · simp [Midi.putPort, QJsonObject.valueAt]

/-- What a port stores is the value, unless its number is that of no port of the system. -/
theorem setPortValue_assigns (m : Midi) (p : Nat) (value : QString) :
    ∃ m₁ same v, m.setPortValue p "port" value = Midi.assignPort m₁ p "port" same v ∧
      (Denotes (some v) value ↔ (value ≠ [] → ∀ n, value.toInt? = some n →
        n = -1 ∨ 0 ≤ n ∧ n < (m.portsName (m.isInPort p)).length)) := by
  have text : Denotes (some (.string value)) value := .inl rfl
  rw [Midi.setPortValue, if_pos rfl]
  by_cases empty : value = []
  · subst empty
    exact ⟨_, _, _, rfl, iff_of_true text fun differ => absurd rfl differ⟩
  · have filled : ¬value.isEmpty := by simpa using empty
    rw [if_neg filled]
    cases number : value.toInt? with
    | none =>
        have others : Denotes (some (.string value)) value ↔ (value ≠ [] → ∀ n, none = some n →
            n = -1 ∨ 0 ≤ n ∧ n < ((m.portsName (m.isInPort p)).length : Int)) :=
          iff_of_true text nofun
        cases position : (m.portsName (m.isInPort p)).idxOf? value with
        | none => exact ⟨_, _, _, rfl, others⟩
        | some i =>
            have inside : i < (m.portsName (m.isInPort p)).length := by
              rw [List.idxOf?] at position
              obtain ⟨bound, -⟩ := List.findIdx?_eq_some_iff_getElem.mp position
              exact bound
            dsimp only [Option.map_some]
            rw [if_neg (by simp), if_pos ⟨Int.natCast_nonneg i, Int.ofNat_lt.mpr inside⟩]
            exact ⟨_, _, _, rfl, others⟩
    | some n =>
        have digits : Denotes (some (.double n)) value := .inr ⟨n, number, rfl⟩
        dsimp only
        split
        · rename_i virtual
          refine ⟨_, _, _, rfl, iff_of_true digits fun _ n' same => ?_⟩
          cases same
          exact .inl virtual
        · rename_i other
          split
          · rename_i inside
            refine ⟨_, _, _, rfl, iff_of_true digits fun _ n' same => ?_⟩
            cases same
            exact .inr inside
          · rename_i outside
            refine ⟨_, _, _, rfl, iff_of_false ?_ fun all => ?_⟩
            · rintro (same | ⟨n', -, same⟩)
              · cases same
                exact empty rfl
              · cases same
            · exact (all empty n rfl).elim other outside

theorem set_midiPort {p : Nat} {value : QString}
    (accepted : c.set (.midiPort p value) = .ok (.noError, c')) :
    c'.Stored (.midiPort p value) ↔ c.Keeps (.midiPort p value) := by
  obtain ⟨m₁, same, v, assigns, denotes⟩ := setPortValue_assigns c.midi p value
  have whole := Except.ok.inj accepted
  have error : (c.midi.setPortValue p "port" value).1 = .noError := congrArg Prod.fst whole
  obtain rfl : { c with midi := (c.midi.setPortValue p "port" value).2 } = c' :=
    congrArg Prod.snd whole
  rw [assigns] at error ⊢
  obtain ⟨-, own, copy⟩ := assignPort_stored (Prod.ext error rfl)
  simp only [Stored, persisted, jsonData, Setting.name, Setting.value, valueAt_eventDocument_midi,
    own, copy, and_self]
  exact denotes

/-! ## Every setting -/

/-- A setting which is accepted is in the JSON of its node and in the document if and only if
    the state is one that keeps it. -/
theorem accepted_stored_iff {s : Setting} (accepted : c.set s = .ok (.noError, c')) :
    c'.Stored s ↔ c.Keeps s := by
  cases s with
  | oscAddress value => exact set_osc (.inl rfl) accepted
  | oscPort value => exact set_osc (.inr rfl) accepted
  | midiPort p value => exact set_midiPort accepted
  | emulatedOsc r value => exact set_emulated (.inl rfl) accepted
  | emulatedIpPort r value => exact set_emulated (.inr rfl) accepted
  | usbPort value => exact iff_of_true (set_usbPort accepted) trivial

/-- The state after startup. -/
def start (portsName : Bool → QStringList) : Configuration where
  world := World.initial .free fun _ => none
  midi := { portsName := portsName }
  osc :=
    { jsonData := QJsonObject.build [("port", .double 9001), ("address", .string "/VPDeamon/")]
      oscAddress := "/VPDeamon/"
      oscListener := ⟨"/VPDeamon/", 9001⟩ }
  xbee := {}

/-- The port of the radio is chosen. -/
theorem accepted_stored_usbPort :
    ∃ c', (start fun _ => []).set (.usbPort "COM3") = .ok (.noError, c') ∧
      (c'.Stored (.usbPort "COM3") ↔ (start fun _ => []).Keeps (.usbPort "COM3")) :=
  ⟨_, rfl, accepted_stored_iff rfl⟩

/-- A new address of the OSC interface is reported as set and stored nowhere. -/
theorem accepted_not_stored :
    ∃ c', (start fun _ => []).set (.oscAddress "/stage/") = .ok (.noError, c') ∧
      c'.osc.oscAddress = "/stage/" ∧ ¬c'.Stored (.oscAddress "/stage/") := by
  refine ⟨_, rfl, by decide, fun stored => ?_⟩
  have loaded : ((start fun _ => []).osc.jsonData).value "address" =
      some (.string "/VPDeamon/") := rfl
  rcases stored.1 with text | ⟨n, number, -⟩
  · have other : ("/VPDeamon/" : QString) = "/stage/" :=
      QJsonValue.string.inj (Option.some.inj (loaded.symm.trans text))
    exact absurd other (by decide)
  · have unread : QString.toInt? "/stage/" = none := by decide
    cases unread.symm.trans number

end Configuration

end VoxPopuli
