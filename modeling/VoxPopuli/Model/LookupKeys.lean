import VoxPopuli.Model.Views

/-! # What remotes are looked up by

A remote is looked up by its name, a real one by its address and an emulated one by its OSC
address. A new remote is checked for all of them. Later a remote may be given another name,
which is checked, and an emulated remote another OSC address, which is not.
-/

namespace VoxPopuli

open World

variable {w w' : World} {r : Nat}

namespace RemoteList

def byMAC (w : World) (mac : QString) : Option Nat :=
  w.remotes.find? fun r => w.isReal r ∧ macOf w r = mac

def byOSC (w : World) (osc : QString) : Option Nat :=
  w.remotes.find? fun r => !w.isReal r ∧ EmulatedRemote.oscAddress w r = osc

end RemoteList

namespace World

/-- The real remotes. -/
def reals (w : World) : Set Nat := { r | r ∈ w.remotes ∧ w.isReal r = true }

/-- The emulated remotes which have an OSC address. -/
def addressed (w : World) : Set Nat :=
  { r | r ∈ w.remotes ∧ w.isReal r = false ∧ EmulatedRemote.oscAddress w r ≠ "" }

/-- No two remotes share a key. -/
structure KeysUnique (w : World) : Prop where
  names : (w.remotes.map w.remoteName).Nodup
  macs : Set.InjOn (RemoteList.macOf w) w.reals
  oscs : Set.InjOn (EmulatedRemote.oscAddress w) w.addressed

/-- What is found does not depend on the order of the remotes. -/
structure LookupsDetermined (w : World) : Prop where
  byName : ∀ l, l.Perm w.remotes → ∀ name : QString,
    RemoteList.byName { w with remotes := l } name = RemoteList.byName w name
  byMAC : ∀ l, l.Perm w.remotes → ∀ mac : QString,
    RemoteList.byMAC { w with remotes := l } mac = RemoteList.byMAC w mac
  byOSC : ∀ l, l.Perm w.remotes → ∀ osc : QString, osc ≠ "" →
    RemoteList.byOSC { w with remotes := l } osc = RemoteList.byOSC w osc

theorem KeysUnique.determined (unique : w.KeysUnique) : w.LookupsDetermined := by
  constructor
  · intro l perm name
    refine find?_perm perm fun a inside b inside' sought sought' => ?_
    refine List.inj_on_of_nodup_map unique.names inside inside' ?_
    exact (of_decide_eq_true sought).trans (of_decide_eq_true sought').symm
  · intro l perm mac
    refine find?_perm perm fun a inside b inside' sought sought' => ?_
    obtain ⟨real, own⟩ := of_decide_eq_true sought
    obtain ⟨real', own'⟩ := of_decide_eq_true sought'
    exact unique.macs ⟨inside, real⟩ ⟨inside', real'⟩ (own.trans own'.symm)
  · intro l perm osc some
    refine find?_perm perm fun a inside b inside' sought sought' => ?_
    obtain ⟨emulated, own⟩ := of_decide_eq_true sought
    obtain ⟨emulated', own'⟩ := of_decide_eq_true sought'
    refine unique.oscs ⟨inside, by simpa using emulated, ?_⟩ ⟨inside', by simpa using emulated', ?_⟩
      (own.trans own'.symm)
    · exact own ▸ some
    · exact own' ▸ some

end World

/-! ## Commands for remotes -/

/-- The commands for the list of remotes and its remotes. -/
inductive RemoteOp where
  | addRemote (address : QString)
  | removeRemote (address : QString)
  | emulateRemote (name osc ipPort : QString)
  | removeEmulatedRemote (name : QString)
  | rename (name newName : QString)
  | set (name key value : QString)

namespace RemoteOp

def op : RemoteOp → Op
  | addRemote address => .addRemote address
  | removeRemote address => .removeRemote address
  | emulateRemote name osc ipPort => .emulateRemote name osc ipPort
  | removeEmulatedRemote name => .removeEmulatedRemote name
  | rename name newName => .renameRemote name newName
  | set name key value => .setRemote name key value

def perform (w : World) (o : RemoteOp) : Except Fault World := o.op.perform w

/-- An emulated remote is given an OSC address which another one has. -/
def Clashes (w : World) : RemoteOp → Prop
  | set name key value =>
      key = "osc" ∧ value ≠ "" ∧ ∃ r, RemoteList.byName w name = some r ∧ w.isReal r = false ∧
        ∃ r' ∈ w.remotes, r' ≠ r ∧ w.isReal r' = false ∧ EmulatedRemote.oscAddress w r' = value
  | _ => False

end RemoteOp

/-! ## Steps which keep the keys -/

namespace World

/-- No remote comes but perhaps one, and all the others keep their keys. -/
structure KeepsKeys (x : Nat) (w w' : World) : Prop where
  remotes : ∀ r ∈ w'.remotes, r ≠ x → r ∈ w.remotes
  isReal : ∀ r, r ≠ x → w'.isReal r = w.isReal r
  mac : ∀ r, r ≠ x → RemoteList.macOf w' r = RemoteList.macOf w r
  osc : ∀ r, r ≠ x → EmulatedRemote.oscAddress w' r = EmulatedRemote.oscAddress w r

theorem KeysUnique.kept_iff {x : Nat} (unique : w.KeysUnique) (kept : KeepsKeys x w w')
    (names : (w'.remotes.map w'.remoteName).Nodup) :
    w'.KeysUnique ↔
      (x ∈ w'.reals → ∀ r ∈ w'.reals, r ≠ x → RemoteList.macOf w' r ≠ RemoteList.macOf w' x) ∧
        (x ∈ w'.addressed → ∀ r ∈ w'.addressed, r ≠ x →
          EmulatedRemote.oscAddress w' r ≠ EmulatedRemote.oscAddress w' x) := by
  have macs : Set.InjOn (RemoteList.macOf w') w'.reals ↔ _ :=
    injOn_iff_of_apart unique.macs fun r inside other =>
      ⟨⟨kept.remotes r inside.1 other, (kept.isReal r other).symm.trans inside.2⟩, kept.mac r other⟩
  have oscs : Set.InjOn (EmulatedRemote.oscAddress w') w'.addressed ↔ _ :=
    injOn_iff_of_apart unique.oscs fun r inside other =>
      ⟨⟨kept.remotes r inside.1 other, (kept.isReal r other).symm.trans inside.2.1,
        kept.osc r other ▸ inside.2.2⟩, kept.osc r other⟩
  rw [← macs, ← oscs]
  exact ⟨fun unique' => ⟨unique'.macs, unique'.oscs⟩, fun both => ⟨names, both.1, both.2⟩⟩

/-- Without the one the keys stay unique. -/
theorem KeysUnique.kept {x : Nat} (unique : w.KeysUnique) (kept : KeepsKeys x w w')
    (names : (w'.remotes.map w'.remoteName).Nodup) (absent : x ∉ w'.remotes) : w'.KeysUnique :=
  (unique.kept_iff kept names).mpr
    ⟨fun inside => absurd inside.1 absent, fun inside => absurd inside.1 absent⟩

/-- The lists of members of the remotes are left alone. -/
theorem KeepsKeys.of_json {x : Nat} (remotes : ∀ r ∈ w'.remotes, r ≠ x → r ∈ w.remotes)
    (isReal : ∀ r, r ≠ x → w'.isReal r = w.isReal r)
    (json : ∀ r, r ≠ x → w'.json (.remote r) = w.json (.remote r)) : KeepsKeys x w w' := by
  refine ⟨remotes, isReal, fun r other => ?_, fun r other => ?_⟩
  · simp only [RemoteList.macOf, get, json r other]
  · simp only [EmulatedRemote.oscAddress, get, json r other]

theorem RemotesListed.names (listed : w.RemotesListed) : (w.remotes.map w.remoteName).Nodup := by
  have nodup := listed.listed.nodup
  rw [children, List.map_map] at nodup
  exact nodup

theorem KeepsKeys.drop (x r : Nat) : KeepsKeys x w (RemoteList.drop w r) := by
  obtain ⟨json, removed, -, others⟩ := removeSubNode_frame w .remoteList (.remote r)
  refine .of_json (fun r' inside _ => List.mem_of_mem_erase inside) (fun r' _ => ?_) fun r' _ => ?_
  · rw [RemoteList.drop, removed]
  · rw [RemoteList.drop, removed]
    exact others _ (by simp [NodeRef.ancestors])

theorem KeepsKeys.rename (x r : Nat) (name : QString) :
    KeepsKeys x w (w.rename (.remote r) name).2 := by
  unfold World.rename
  dsimp only [NodeRef.ancestors]
  split
  · exact .of_json (fun _ inside _ => inside) (fun _ _ => rfl) fun _ _ => rfl
  · obtain ⟨json, same, others⟩ := mirror_frame ((w.setJson .remoteList ((w.json .remoteList).remove
      (w.nameOf (.remote r)))).setName (.remote r) name) (.remote r) (NodeRef.remote r).ancestors
    rw [updateParentJSon, same]
    refine .of_json (fun _ inside _ => inside) (fun _ _ => rfl) fun r' _ => ?_
    refine (others _ (remote_not_mem_ancestors _ r')).trans ?_
    simp [setName, setJson]

/-- The nodes of one remote, and all nodes which are not remotes. -/
def Scope.single (r : Nat) : Scope where
  nodes := { n | ∀ r', n = .remote r' → r' = r }
  driven := {r}

theorem Scope.covers_single (r : Nat) (w : World) : (Scope.single r).Covers w :=
  ⟨nofun, fun _ _ => nofun, fun _ _ => nofun⟩

theorem Scope.drives_single (r : Nat) : (Scope.single r).Drives r :=
  ⟨fun _ same => (NodeRef.remote.inj same).symm, rfl⟩

theorem Scope.not_mem_single {r' : Nat} (other : r' ≠ r) : .remote r' ∉ (Scope.single r).nodes :=
  fun inside => other (inside r' rfl)

theorem KeepsKeys.of_acts (acts : Acts (Scope.single r) w w') : KeepsKeys r w w' := by
  have chain : Deeds (Scope.single r) w w' := .of_acts acts
  have settled := chain.settles
  refine .of_json (fun r' inside _ => settled.remotes.subset inside)
    (fun r' _ => congrFun settled.isReal r') fun r' other => ?_
  exact chain.json_remote (Scope.not_mem_single other)

/-- A remote arrives with the document it is populated from. -/
theorem KeepsKeys.of_arrival {name : QString} {real : Bool} {o data : QJsonObject}
    {q : Bool × World} (old : ∀ r ∈ w.remotes, r < w.freshRemote)
    (arrival : Arrival (Scope.single w.freshRemote) Eq (.remote w.freshRemote) name data
      (RemoteList.listRemote w.freshRemote) (RemoteList.create w w.freshRemote name real o) q) :
    KeepsKeys w.freshRemote w q.2 ∧ (w.freshRemote ∈ q.2.remotes →
      q.2.isReal w.freshRemote = real ∧ q.2.json (.remote w.freshRemote) = data) := by
  have isReal : ∀ r, r ≠ w.freshRemote →
      (RemoteList.create w w.freshRemote name real o).isReal r = w.isReal r :=
    fun r other => Function.update_of_ne other _ _
  have json : ∀ r, r ≠ w.freshRemote →
      (RemoteList.create w w.freshRemote name real o).json (.remote r) = w.json (.remote r) := by
    intro r other
    simp [RemoteList.create, setJson, other]
  cases arrival with
  | refused blank =>
      refine ⟨.of_json (fun r inside _ => inside) isReal fun r other => ?_, fun inside => ?_⟩
      · exact (json_clearJsonData (by simpa using other)).trans (json r other)
      exact absurd rfl (old w.freshRemote inside).ne
  | @arrived w₁ w₂ solid grown told =>
      subst told
      have settled := grown.settles
      obtain ⟨json', same, -, others⟩ := adopt_frame (w := w₁) (e := .remote w.freshRemote) rfl
        (by simp) data
      have document := json_adopt (w := w₁) (e := .remote w.freshRemote) rfl (by simp) data
      rw [same] at document
      have kind : ∀ r, (RemoteList.listRemote w.freshRemote (w₁.adopt (.remote w.freshRemote)
          data)).isReal r = (RemoteList.create w w.freshRemote name real o).isReal r := by
        intro r
        rw [same]
        exact congrFun settled.isReal r
      refine ⟨.of_json (fun r inside other => ?_) (fun r other => ?_) fun r other => ?_, fun _ => ?_⟩
      · rw [same] at inside
        rcases List.mem_append.mp inside with before | single
        · exact settled.remotes.subset before
        · exact absurd (List.mem_singleton.mp single) other
      · exact (kind r).trans (isReal r other)
      · rw [same]
        refine (others _ ?_).trans ((grown.json_remote (Scope.not_mem_single other)).trans
          (json r other))
        simp [NodeRef.ancestors, other]
      · refine ⟨(kind _).trans (Function.update_self ..), ?_⟩
        rw [same]
        exact document

end World

/-! ## OSC addresses which are set -/

namespace EmulatedRemote

theorem oscAddress_setNumber (r : Nat) {k : QString} (other : k ≠ "osc") (value : ℚ) :
    oscAddress (w.setNumber (.remote r) k value).2 r = oscAddress w r := by
  rw [oscAddress, get_setNumber, if_neg fun same => other same.symm]
  rfl

theorem oscAddress_setString (r : Nat) {k : QString} (other : k ≠ "osc") (value : QString) :
    oscAddress (w.setString (.remote r) k value).2 r = oscAddress w r := by
  rw [oscAddress, get_setString, if_neg fun same => other same.symm]
  rfl

theorem oscAddress_forwardLed (r : Nat) (e : FTriggerEvent) (v : HexData) :
    oscAddress (forwardLed w r e v) r = oscAddress w r := by
  unfold forwardLed
  dsimp only
  split
  · rfl
  · split <;> rfl

theorem oscAddress_storeLed (r : Nat) (e : FTriggerEvent) (v : HexData) :
    oscAddress (Remote.storeLed w r e v).2 r = oscAddress w r := by
  cases e with
  | led =>
      simp only [Remote.storeLed]
      rw [oscAddress_setNumber r (by decide), oscAddress_setNumber r (by decide),
        oscAddress_setNumber r (by decide)]
  | led1 | led2 | led3 => exact oscAddress_setNumber r (by decide) _
  | up | down | right | left | action => rfl

variable (emulated : w.isReal r = false)

include emulated

theorem oscAddress_setLed (e : FTriggerEvent) (value : QString) :
    oscAddress (Remote.setLed w r e value).2 r = oscAddress w r := by
  have trigger : ∀ v, oscAddress (Remote.triggerLed w r e v).2 r = oscAddress w r := by
    intro v
    have kind : (w.observe (.commanded r e v)).isReal r = false := emulated
    rw [Remote.triggerLed, oscAddress_storeLed, if_neg (by simp [kind]), oscAddress_forwardLed]
    rfl
  unfold Remote.setLed
  split
  · rfl
  · exact trigger _

theorem oscAddress_setState (value : QString) :
    oscAddress (Remote.setState w r value).2 r = oscAddress w r := by
  have kind : (w.observe (.stateSet r value)).isReal r = false := emulated
  rw [Remote.setState, oscAddress_setString r (by decide), if_neg (by simp [kind])]
  rfl

omit emulated in
/-- A button reaches virtual remotes only, and stores its own state. -/
theorem oscAddress_setButtonState (r : Nat) (b : XBEE_MSG_TYPE) (pressed : Bool) :
    Ends (fun _ => True) (Remote.setButtonState w r b pressed) fun w' =>
      oscAddress w' r = oscAddress w r := by
  cases kind : Remote.button? b with
  | none =>
      rw [Remote.setButtonState_other kind]
      rfl
  | some q =>
      obtain ⟨e, bName⟩ := q
      have other : e ≠ .led := by cases b <;> cases kind <;> decide
      have name : bName ≠ "osc" := by cases b <;> cases kind <;> decide
      have outside : NodeRef.remote r ∉ (Scope.single (r + 1)).nodes :=
        Scope.not_mem_single (Nat.lt_succ_self r).ne
      have sent := PatchNode.acts_fastTriggerRemote (Scope.covers_single (r + 1) w) (w.remoteName r)
        (fun led => absurd led other) [if pressed then 1 else 0]
      have triggered : Ends (fun _ => True) (Remote.fastTrigger w r e [if pressed then 1 else 0])
          fun p => oscAddress p.2 r = oscAddress w r := by
        have still := sent.mono fun w' acts => by
          have json := (Deeds.of_acts acts).json_remote outside
          show oscAddress w' r = oscAddress w r
          simp only [oscAddress, World.get, json]
        cases b <;> cases kind <;> exact still.bind fun w' done => done
      rw [Remote.setButtonState_known kind]
      exact triggered.bind fun p done => (oscAddress_setString r name _).trans done

theorem oscAddress_setValue {name : QString} (other : name ≠ "osc") (value : QString) :
    Ends (fun _ => True) (setValue w r name value) fun p => oscAddress p.2 r = oscAddress w r := by
  have press : ∀ type pressed, Ends (fun _ => True)
      (do
        let w ← Remote.setButtonState w r type pressed
        pure (SetError.noError, w)) fun p => oscAddress p.2 r = oscAddress w r :=
    fun type pressed => (oscAddress_setButtonState r type pressed).bind fun w' done => done
  unfold setValue
  split
  · split
    · exact press _ _
    · split
      · exact press _ _
      · rfl
  · rw [if_neg other]
    split
    · split
      · rfl
      · exact oscAddress_setString r (by decide) _
    · show oscAddress (Remote.setValue w r name value).2 r = _
      unfold Remote.setValue
      split
      · exact oscAddress_setLed emulated _ _
      · split
        · exact oscAddress_setLed emulated _ _
        · split
          · exact oscAddress_setLed emulated _ _
          · split
            · exact oscAddress_setState emulated _
            · rfl

end EmulatedRemote

/-! ## The step -/

theorem World.remotes_assign (w : World) (n : NodeRef) (k : QString) (same : QJsonValue → Bool)
    (v : QJsonValue) : (w.assign n k same v).2.remotes = w.remotes := by
  obtain ⟨json, written, -⟩ := w.assign_frame n k same v
  rw [written]

namespace World.KeysUnique

variable (unique : w.KeysUnique)

include unique

/-- A new remote was checked for the key of its kind. -/
theorem arrival {name : QString} {real : Bool} {o data : QJsonObject} {q : Bool × World}
    (old : ∀ r ∈ w.remotes, r < w.freshRemote)
    (arrival : Arrival (Scope.single w.freshRemote) Eq (.remote w.freshRemote) name data
      (RemoteList.listRemote w.freshRemote) (RemoteList.create w w.freshRemote name real o) q)
    (mac : real = true → ∀ r ∈ w.remotes,
      RemoteList.macOf w r ≠ QVariant.toString (data.value "MAC"))
    (osc : real = false → QVariant.toString (data.value "osc") ≠ "" → ∀ r ∈ w.remotes,
      EmulatedRemote.oscAddress w r ≠ QVariant.toString (data.value "osc"))
    (names : (q.2.remotes.map q.2.remoteName).Nodup) : q.2.KeysUnique := by
  obtain ⟨kept, new⟩ := KeepsKeys.of_arrival old arrival
  refine (unique.kept_iff kept names).mpr ⟨fun inside r inside' other => ?_,
    fun inside r inside' other => ?_⟩
  · obtain ⟨kind, json⟩ := new inside.1
    have own : RemoteList.macOf q.2 w.freshRemote = QVariant.toString (data.value "MAC") := by
      rw [RemoteList.macOf, World.get, json]
    rw [kept.mac r other, own]
    exact mac (kind.symm.trans inside.2) r (kept.remotes r inside'.1 other)
  · obtain ⟨kind, json⟩ := new inside.1
    have own : EmulatedRemote.oscAddress q.2 w.freshRemote =
        QVariant.toString (data.value "osc") := by
      rw [EmulatedRemote.oscAddress, World.get, json]
    rw [kept.osc r other, own]
    exact osc (kind.symm.trans inside.2.1) (own ▸ inside.2.2) r (kept.remotes r inside'.1 other)

/-- An address of a real remote cannot be set. -/
theorem set_real (real : w.isReal r = true) (key value : QString)
    (names : ((Remote.setValue w r key value).2.remotes.map
      (Remote.setValue w r key value).2.remoteName).Nodup) :
    (Remote.setValue w r key value).2.KeysUnique := by
  have acts : Acts (Scope.single r) w _ := Remote.acts_setValue (Scope.drives_single r) key value
  generalize (Remote.setValue w r key value).2 = w' at acts names ⊢
  have settled := (Deeds.of_acts acts).settles
  have same : ∀ {r'}, r' ∈ w'.reals → r' ∈ w.reals := fun inside =>
    ⟨settled.remotes.subset inside.1, settled.isReal ▸ inside.2⟩
  refine (unique.kept_iff (.of_acts acts) names).mpr ⟨fun inside r' inside' other shared => ?_, ?_⟩
  · rw [settled.mac] at shared
    exact other (unique.macs (same inside') (same inside) shared)
  · rintro ⟨-, emulated, -⟩
    rw [settled.isReal, real] at emulated
    cases emulated

/-- When the OSC address of an emulated remote is the one it had, the keys stay unique. -/
theorem set_other (emulated : w.isReal r = false) (acts : Acts (Scope.single r) w w')
    (own : EmulatedRemote.oscAddress w' r = EmulatedRemote.oscAddress w r)
    (names : (w'.remotes.map w'.remoteName).Nodup) : w'.KeysUnique := by
  have settled := (Deeds.of_acts acts).settles
  have kept : KeepsKeys r w w' := .of_acts acts
  refine (unique.kept_iff kept names).mpr ⟨fun inside => ?_, fun inside r' inside' other shared => ?_⟩
  · have real := inside.2
    rw [settled.isReal, emulated] at real
    cases real
  · rw [kept.osc r' other, own] at shared
    have before : r ∈ w.addressed := ⟨settled.remotes.subset inside.1, emulated, own ▸ inside.2.2⟩
    have before' : r' ∈ w.addressed := ⟨settled.remotes.subset inside'.1,
      settled.isReal ▸ inside'.2.1, kept.osc r' other ▸ inside'.2.2⟩
    exact other (unique.oscs before' before shared)

/-- The OSC address of an emulated remote may be one which another has. -/
theorem set_osc_iff (emulated : w.isReal r = false) (inside : r ∈ w.remotes) (value : QString)
    (names : ((w.setString (.remote r) "osc" value).2.remotes.map
      (w.setString (.remote r) "osc" value).2.remoteName).Nodup) :
    (w.setString (.remote r) "osc" value).2.KeysUnique ↔
      (value ≠ "" → ∀ r' ∈ w.remotes, r' ≠ r → w.isReal r' = false →
        EmulatedRemote.oscAddress w r' ≠ value) := by
  have acts : Acts (Scope.single r) w (w.setString (.remote r) "osc" value).2 :=
    Remote.acts_setString (Scope.drives_single r).inside (.inl (by decide)) value
  have own : EmulatedRemote.oscAddress (w.setString (.remote r) "osc" value).2 r = value := by
    rw [EmulatedRemote.oscAddress, get_setString, if_pos rfl]
    rfl
  have remotes : (w.setString (.remote r) "osc" value).2.remotes = w.remotes := remotes_assign ..
  generalize (w.setString (.remote r) "osc" value).2 = w' at acts own remotes names ⊢
  have settled := (Deeds.of_acts acts).settles
  have kept : KeepsKeys r w w' := .of_acts acts
  have vacuous : r ∈ w'.reals → ∀ r' ∈ w'.reals, r' ≠ r →
      RemoteList.macOf w' r' ≠ RemoteList.macOf w' r := by
    intro listed
    have real := listed.2
    rw [settled.isReal, emulated] at real
    cases real
  rw [unique.kept_iff kept names, and_iff_right vacuous]
  constructor
  · intro apart some r' inside' other emulated' shared
    have listed : r ∈ w'.addressed := ⟨remotes ▸ inside, settled.isReal ▸ emulated, own ▸ some⟩
    have listed' : r' ∈ w'.addressed := ⟨remotes ▸ inside', settled.isReal ▸ emulated', by
      rw [kept.osc r' other, shared]
      exact some⟩
    exact apart listed r' listed' other (by rw [kept.osc r' other, own, shared])
  · intro apart listed r' listed' other shared
    rw [kept.osc r' other, own] at shared
    exact apart (own ▸ listed.2.2) r' (remotes ▸ listed'.1) other (settled.isReal ▸ listed'.2.1) shared

end World.KeysUnique

namespace RemoteOp

/-- Step lemma. -/
theorem perform_unique (h : w.Orderly) (unique : w.KeysUnique) (op : RemoteOp) :
    Ends (fun _ => True) (op.perform w) fun w' => w'.KeysUnique ↔ ¬op.Clashes w := by
  have names : Ends (fun _ => True) (op.perform w) fun w' =>
      (w'.remotes.map w'.remoteName).Nodup :=
    (h.perform op.op).mono fun w' done => done.1.listed.names
  have absent : w.freshRemote ∉ w.remotes := fun inside => (h.listed.old _ inside).ne rfl
  have stays : (w.remotes.map w.remoteName).Nodup → (w.KeysUnique ↔ ¬False) :=
    fun _ => iff_of_true unique id
  suffices step : Ends (fun _ => True) (op.perform w) fun w' =>
      (w'.remotes.map w'.remoteName).Nodup → (w'.KeysUnique ↔ ¬op.Clashes w) from
    (names.and step).mono fun w' done => done.2 done.1
  clear names
  cases op with
  | addRemote address =>
      apply Ends.map
      unfold RemoteList.addRemote
      split
      · exact stays
      · rename_i new
        have others : ∀ r ∈ w.remotes, RemoteList.macOf w r ≠ address := by simpa using new
        have solid : (' ' : QChar) ∉ freeName (w.json .remoteList).keys "Remote" :=
          freeName_solid _ (by decide)
        refine (RemoteList.createReal_arrival (Scope.drives_single _) (Scope.covers_single _ w) solid
          address).bind fun q arrival names => iff_of_true ?_ id
        refine unique.arrival (q := q) h.listed.old arrival (fun _ => ?_) (fun other => ?_) names
        · rw [RemoteList.value_MAC]
          exact others
        · cases other
  | emulateRemote name osc ipPort =>
      apply Ends.map
      unfold RemoteList.emulateRemote
      split
      · exact stays
      · rename_i new
        have others : osc ≠ "" → ∀ r ∈ w.remotes, EmulatedRemote.oscAddress w r ≠ osc := by
          intro some r inside same
          exact new (List.any_eq_true.mpr ⟨r, inside, decide_eq_true (.inr ⟨some, same⟩)⟩)
        refine (RemoteList.createEmulated_arrival (Scope.drives_single _) (Scope.covers_single _ w)
          name osc ipPort).bind fun q arrival names => iff_of_true ?_ id
        refine unique.arrival (q := q) h.listed.old arrival (fun other => ?_) (fun _ => ?_) names
        · cases other
        rw [RemoteList.value_osc]
        exact others
  | removeRemote address =>
      rw [perform, op, Op.perform, RemoteList.removeRemote, ends_pure]
      cases w.remotes.find? fun r => RemoteList.macOf w r = address with
      | none => exact stays
      | some r =>
          exact fun names => iff_of_true (unique.kept (.drop w.freshRemote r) names
            fun inside => absent (List.mem_of_mem_erase inside)) id
  | removeEmulatedRemote name =>
      rw [perform, op, Op.perform, RemoteList.removeEmulatedRemote, ends_pure]
      cases RemoteList.byName w name with
      | none => exact stays
      | some r =>
          dsimp only
          split
          · exact stays
          · exact fun names => iff_of_true (unique.kept (.drop w.freshRemote r) names
              fun inside => absent (List.mem_of_mem_erase inside)) id
  | rename name newName =>
      rw [perform, op, Op.perform]
      cases RemoteList.byName w name with
      | none => exact stays
      | some r =>
          have remotes : (w.rename (.remote r) newName).2.remotes = w.remotes := by
            rcases rename_moved (w := w) (e := .remote r) rfl newName with
              ⟨-, refused⟩ | ⟨-, -, moved⟩
            · rw [refused]
            · exact moved.remotes
          exact fun names => iff_of_true (unique.kept (.rename w.freshRemote r newName) names
            (remotes ▸ absent)) id
  | set name key value =>
      rw [perform, op, Op.perform]
      cases found : RemoteList.byName w name with
      | none =>
          refine fun names => iff_of_true unique ?_
          rintro ⟨-, -, r, found', -⟩
          cases found.symm.trans found'
      | some r =>
          have inside := (RemoteList.byName_eq_some found).1
          apply Ends.map
          cases kind : w.isReal r with
          | true =>
              rw [Remote.set, if_pos kind, ends_pure]
              refine fun names => iff_of_true (unique.set_real kind key value names) ?_
              rintro ⟨-, -, r', found', emulated, -⟩
              cases found.symm.trans found'
              rw [kind] at emulated
              cases emulated
          | false =>
              have set : Remote.set w r key value = EmulatedRemote.setValue w r key value :=
                if_neg (by simp [kind])
              rw [set]
              by_cases osc : key = "osc"
              · subst osc
                intro names
                refine (unique.set_osc_iff kind inside value names).trans ?_
                constructor
                · rintro apart ⟨-, some, r₁, found₁, -, r', inside', other, emulated, shared⟩
                  cases found.symm.trans found₁
                  exact apart some r' inside' other emulated shared
                · intro free some r' inside' other emulated shared
                  exact free ⟨rfl, some, r, found, kind, r', inside', other, emulated, shared⟩
              · have acts := EmulatedRemote.acts_setValue (Scope.covers_single r w)
                  (Scope.drives_single r) key value
                have own := EmulatedRemote.oscAddress_setValue kind osc value
                refine (acts.and own).mono fun p done names => ?_
                exact iff_of_true (unique.set_other kind done.1 done.2 names) fun clash => osc clash.1

end RemoteOp

namespace World

/-- From a state without remotes, the keys of the remotes stay unique and what they are looked
    up by determines them, exactly when no emulated remote is given the OSC address of another. -/
theorem lookup_keys_iff {mutex : MutexState} {w₀ : World} (reachable : w₀.Reachable mutex)
    (empty : w₀.remotes = []) (ops : List RemoteOp) :
    (∀ w, Runs.Reaches RemoteOp.perform w₀ ops w → w.KeysUnique ∧ w.LookupsDetermined) ↔
      Runs.Throughout RemoteOp.perform (fun w op => ¬op.Clashes w) w₀ ops := by
  have start : w₀.KeysUnique := by
    refine ⟨by simp [empty], ?_, ?_⟩
    · rintro a ⟨inside, -⟩
      simp [empty] at inside
    · rintro a ⟨inside, -⟩
      simp [empty] at inside
  have both : ∀ w : World, w.KeysUnique ∧ w.LookupsDetermined ↔ w.KeysUnique :=
    fun w => and_iff_left_of_imp KeysUnique.determined
  simp only [both]
  refine Runs.reaches_iff (J := Orderly) start reachable.orderly ?_ ?_ ?_
  · exact fun w op w' h first => ((h.perform op.op).of_ok first).1
  · exact fun w op w' h unique first => (op.perform_unique h unique).of_ok first
  · intro w op e h failed clash
    cases op with
    | set name key value =>
        obtain ⟨rfl, -, r, found, emulated, -⟩ := clash
        rw [RemoteOp.perform, RemoteOp.op, Op.perform, found] at failed
        have set : Remote.set w r "osc" value = EmulatedRemote.setValue w r "osc" value :=
          if_neg (by simp [emulated])
        dsimp only [Op.on] at failed
        rw [set] at failed
        cases failed
    | addRemote address | removeRemote address | removeEmulatedRemote name => cases clash
    | emulateRemote name osc ipPort | rename name newName => cases clash

theorem lookup_keys_iff_apart :
    (∀ w, Runs.Reaches RemoteOp.perform (initial .free fun _ => none)
      [.emulateRemote "A" "/a" "", .set "A" "osc" "/b"] w → w.KeysUnique ∧ w.LookupsDetermined) ↔
      Runs.Throughout RemoteOp.perform (fun w op => ¬op.Clashes w) (initial .free fun _ => none)
        [.emulateRemote "A" "/a" "", .set "A" "osc" "/b"] :=
  lookup_keys_iff ⟨_, [], rfl⟩ rfl _

/-- Two emulated remotes are given one address, and the first in the list is found. -/
theorem shared_osc :
    Ends (fun _ => False) (List.foldlM RemoteOp.perform (initial .free fun _ => none)
      [.emulateRemote "A" "/a" "", .emulateRemote "B" "/b" "", .set "B" "osc" "/a"]) fun w =>
        w.remotes = [0, 1] ∧ w.isReal 0 = false ∧ w.isReal 1 = false ∧
          EmulatedRemote.oscAddress w 0 = "/a" ∧ EmulatedRemote.oscAddress w 1 = "/a" ∧
            RemoteList.byOSC w "/a" = some 0 ∧
              RemoteList.byOSC { w with remotes := [1, 0] } "/a" = some 1 := by
  decide +kernel

end World

end VoxPopuli
