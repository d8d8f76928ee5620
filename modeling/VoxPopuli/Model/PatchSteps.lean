import VoxPopuli.Model.Persistence
import VoxPopuli.Model.WellFormed

/-! # The operations of the patch in the network

Around the bookkeeping of the patch its operations take the mutex, notify the virtual
elements and copy the JSON of the patch into the network model's. An operation which
returns has changed the patch as the bookkeeping says; the elements keep their places
and names.
-/

namespace VoxPopuli

open World Rows

variable {w w' w'' : World} {p p' : Patch}

namespace World

/-- The network model has a copy of the JSON of the patch. -/
def PatchMirrored (w : World) : Prop :=
  (w.json .network).value "Patch" = some (.object w.patch.jsonData)

theorem WellFormed.setPatch (h : w.WellFormed) (tidy : Tidy p.virtualToRemote) (m : MutexState) :
    { w with patch := p, mutex := m }.WellFormed where
  toRegistered := { h.toRegistered with tidy := tidy }
  groups g inside := by
    obtain ⟨global, avatars, ok⟩ := h.groups g inside
    exact ⟨global, avatars, ok.congr rfl rfl (fun _ _ => rfl) le_rfl rfl fun _ _ => rfl⟩

theorem WellFormed.putNetwork (h : w.WellFormed) (k : QString) (v : QJsonValue) :
    (w.putJson .network k v).WellFormed where
  toRegistered := h.toRegistered.fewer rfl (fun _ => .refl _) (.refl _) (.refl _) le_rfl
    (fun _ _ => rfl) fun n _ there => by simpa [putJson, setJson] using there
  groups g inside := by
    obtain ⟨global, avatars, ok⟩ := h.groups g inside
    exact ⟨global, avatars, ok.congr rfl rfl (fun _ _ => rfl) le_rfl (by simp [putJson, setJson])
      fun _ _ => by simp [putJson, setJson]⟩

theorem lock_roster {w₁ : World} (lock : w.lock = .ok w₁) :
    w₁.toRoster = { w.toRoster with mutex := w₁.mutex } := by
  unfold World.lock at lock
  split at lock
  · cases lock
    rfl
  · cases lock
    rfl
  · cases lock

theorem lock_patch {w₁ : World} (lock : w.lock = .ok w₁) : w₁.patch = w.patch := by
  rw [lock_roster lock]

/-- A step which gives the network the patch `p`. -/
structure PatchStep (w w' : World) (p : Patch) : Prop where
  roster : w'.toRoster = { w.toRoster with patch := p }
  wellFormed : w.WellFormed → w'.WellFormed
  mirrored : w.PatchMirrored → w'.PatchMirrored

namespace PatchStep

theorem patch (step : PatchStep w w' p) : w'.patch = p := by rw [step.roster]

theorem mutex (step : PatchStep w w' p) : w'.mutex = w.mutex := by rw [step.roster]

theorem trans (step : PatchStep w w' p) (step' : PatchStep w' w'' p') : PatchStep w w'' p' where
  roster := by rw [step'.roster, step.roster]
  wellFormed := step'.wellFormed ∘ step.wellFormed
  mirrored := step'.mirrored ∘ step.mirrored

theorem refl (w : World) : PatchStep w w w.patch := ⟨rfl, id, id⟩

/-- The maps change, the JSON does not. -/
theorem setPatch (tidy : Tidy w.patch.virtualToRemote → Tidy p.virtualToRemote)
    (json : p.jsonData = w.patch.jsonData) : PatchStep w (PatchNode.setPatch w p) p where
  roster := rfl
  wellFormed h := h.setPatch (tidy h.tidy) w.mutex
  mirrored h := by
    simp only [PatchMirrored, PatchNode.setPatch, json]
    exact h

/-- The JSON changes, and the copy with it. -/
theorem setJson (w : World) (o : QJsonObject) :
    PatchStep w ((PatchNode.setPatch w { w.patch with jsonData := o }).valueChanged .patch)
      { w.patch with jsonData := o } where
  roster := rfl
  wellFormed h := (h.setPatch (p := { w.patch with jsonData := o }) h.tidy w.mutex).putNetwork _ _
  mirrored _ := by
    simp [PatchMirrored, valueChanged, updateParentJSon, mirror, NodeRef.ancestors, nameOf, jsonOf,
      putJson, World.setJson, PatchNode.setPatch]

theorem of_keeps {element : Option Element} (kept : Keeps (w.around element) w w') :
    PatchStep w w' w.patch where
  roster := kept.roster
  wellFormed h := h.around kept
  mirrored h := by
    rw [PatchMirrored, kept.patchJson, kept.roster]
    exact h

theorem of_live (kept : Keeps w.live w w') : PatchStep w w' w.patch where
  roster := kept.roster
  wellFormed h := h.live kept
  mirrored h := by
    rw [PatchMirrored, kept.patchJson, kept.roster]
    exact h

/-- What is done with the mutex held is done when it has been given back. -/
theorem locked {w₁ : World} (lock : w.lock = .ok w₁) (step : PatchStep w₁ w' p) :
    PatchStep w w'.unlock p := by
  have mutex := step.mutex
  have roster := step.roster
  unfold World.lock at lock
  cases state : w.mutex with
  | noop =>
      rw [state] at lock
      cases lock
      have same : w'.unlock = w' := by simp [unlock, mutex, state]
      rwa [same]
  | held =>
      rw [state] at lock
      cases lock
  | free =>
      rw [state] at lock
      cases lock
      have given : w'.unlock = { w' with mutex := .free } := by simp [unlock, mutex]
      refine ⟨?_, ?_, ?_⟩
      · rw [given]
        simp only [roster, ← state]
      · intro h
        rw [given]
        have after := step.wellFormed (h.setPatch h.tidy .held)
        exact after.setPatch after.tidy .free
      · intro h
        rw [given]
        exact step.mirrored h

end PatchStep

end World

theorem Element.Existing.congr {element : Option Element} (existing : Element.Existing w element)
    (vGroups : w'.vGroups = w.vGroups) (vRemotes : w'.vRemotes = w.vRemotes) :
    Element.Existing w' element := by
  match element, existing with
  | none, _ => trivial
  | some (.group g), inside => exact show g ∈ w'.vGroups from vGroups ▸ inside
  | some (.vRemote n), inside => exact show n ∈ w'.vRemotes from vRemotes ▸ inside

theorem World.PatchStep.existing (step : PatchStep w w' p) {element : Option Element}
    (existing : Element.Existing w element) : Element.Existing w' element :=
  existing.congr (by rw [step.roster]) (by rw [step.roster])

namespace PatchNode

@[simp] theorem patch_valueChanged (n : NodeRef) : (w.valueChanged n).patch = w.patch := by
  have mirror : ∀ (ps : List NodeRef) (n : NodeRef) (w : World), (w.mirror n ps).patch = w.patch := by
    intro ps
    induction ps with
    | nil => exact fun _ _ => rfl
    | cons p ps ih => exact fun n w => ih p _
  exact mirror n.ancestors n w

@[simp] theorem patch_setPatch (w : World) (p : Patch) : (setPatch w p).patch = p := rfl

/-- The end of an operation: what it returns besides the new state. -/
def Done (w : World) (b : Bool) (p : Patch) (q : Bool × World) : Prop :=
  q.1 = b ∧ PatchStep w q.2 p

theorem notify_step (step : PatchStep w w' p) (rName : QString) {element : Option Element}
    (existing : Element.Existing w' element) :
    Ends (fun _ => True) (notify w' rName element) fun w'' => PatchStep w w'' p := by
  apply ((keeps_notify rName existing).mono _).mono_err fun _ _ => trivial
  intro w'' kept
  have told := step.trans (.of_keeps kept)
  rwa [step.patch] at told

theorem tidy_addEntry (rName vName : QString) (tidy : Tidy p.virtualToRemote) :
    Tidy (p.addEntry rName vName).2.virtualToRemote := by
  unfold Patch.addEntry
  split
  · exact tidy
  · dsimp only
    split
    · exact tidy
    · rename_i linked
      exact tidy.link? linked

theorem addEntry_json (rName vName : QString) :
    (p.addEntry rName vName).2.jsonData = p.jsonData := by
  unfold Patch.addEntry
  split
  · rfl
  · dsimp only
    split <;> rfl

theorem addEntry_step (rName vName : QString) :
    Ends (fun _ => True) (addEntry w rName vName)
      (Done w (w.patch.addEntry rName vName).1 (w.patch.addEntry rName vName).2) := by
  have step : PatchStep w (setPatch w (w.patch.addEntry rName vName).2)
      (w.patch.addEntry rName vName).2 :=
    .setPatch (tidy_addEntry rName vName) (addEntry_json rName vName)
  unfold addEntry
  cases added : w.patch.addEntry rName vName with
  | mk b p =>
      rw [added] at step
      cases b with
      | false => exact ⟨rfl, step⟩
      | true =>
          exact (notify_step step rName (VirtualNetwork.elementByName_existing vName)).bind
            fun w' told => ⟨rfl, told⟩

theorem parseArray_step (name : QString) (value : QStringList) :
    Ends (fun _ => True) (parseArray w name value)
      fun q => PatchStep w q.2 (w.patch.parseArray name value).2 := by
  induction value generalizing w with
  | nil => exact .refl w
  | cons vName rest ih =>
      rw [parseArray, Patch.parseArray]
      apply (addEntry_step name vName).bind
      rintro ⟨b, w₁⟩ ⟨returned, step⟩
      cases added : w.patch.addEntry name vName with
      | mk b' p =>
          rw [added] at returned step
          obtain rfl : b = b' := returned
          cases b with
          | false => exact step
          | true =>
              apply (ih (w := w₁)).mono
              intro q more
              rw [step.patch] at more
              exact step.trans more

theorem addLink_step (rName vName : QString) :
    Ends (fun _ => True) (addLink w rName vName)
      (Done w (w.patch.addLink rName vName).1 (w.patch.addLink rName vName).2) := by
  unfold addLink Patch.addLink
  apply (addEntry_step rName vName).bind
  rintro ⟨b, w₁⟩ ⟨returned, step⟩
  cases added : w.patch.addEntry rName vName with
  | mk b' p =>
      rw [added] at returned step
      obtain rfl : b = b' := returned
      cases b with
      | false => exact ⟨rfl, step⟩
      | true =>
          have stored := PatchStep.setJson w₁
            (w₁.patch.jsonData.insert rName (.array (w₁.patch.jsonData.toArray rName ++
              [.string vName])))
          obtain rfl : w₁.patch = p := step.patch
          exact ⟨rfl, step.trans stored⟩

theorem removeLink_step (rName vName : QString) :
    Ends (fun _ => True) (removeLink w rName vName)
      (Done w (w.patch.removeLink rName vName).1 (w.patch.removeLink rName vName).2) := by
  unfold removeLink Patch.removeLink
  cases found : w.patch.remoteToVirtual.find? rName with
  | none => exact ⟨rfl, .refl w⟩
  | some vNames =>
      cases lock : w.lock with
      | error e => trivial
      | ok w₁ =>
          have same : w₁.patch = w.patch := lock_patch lock
          simp only [bind, Except.bind, ← same]
          by_cases linked : vName ∈ vNames
          · have erased := PatchStep.setJson w₁
              (Patch.eraseLinkJson w₁.patch.jsonData rName vName)
            have left := erased.trans (PatchStep.setPatch (p := { w₁.patch with
              jsonData := Patch.eraseLinkJson w₁.patch.jsonData rName vName
              remoteToVirtual := unlink w₁.patch.remoteToVirtual rName vName }) id rfl)
            simp only [linked, if_true]
            cases back : w₁.patch.virtualToRemote.find? vName with
            | none =>
                simp only [patch_valueChanged, patch_setPatch, back]
                exact ⟨rfl, .locked lock left⟩
            | some rNames =>
                have right := left.trans (PatchStep.setPatch (p := { w₁.patch with
                  jsonData := Patch.eraseLinkJson w₁.patch.jsonData rName vName
                  remoteToVirtual := unlink w₁.patch.remoteToVirtual rName vName
                  virtualToRemote := unlink w₁.patch.virtualToRemote vName rName })
                  (fun tidy => tidy.unlink vName rName) rfl)
                have free := PatchStep.locked lock right
                simp only [patch_valueChanged, patch_setPatch, back]
                exact (notify_step free rName (VirtualNetwork.elementByName_existing vName)).bind
                  fun w' told => ⟨rfl, told⟩
          · simp only [linked, if_false]
            exact ⟨rfl, .locked lock (.refl w₁)⟩

theorem tidy_forgetRemote (rName vName : QString) (tidy : Tidy p.virtualToRemote) :
    Tidy (p.forgetRemote rName vName).virtualToRemote := by
  rw [Patch.forgetRemote_eq tidy]
  exact tidy.unlink vName rName

theorem forgetRemote_step (step : PatchStep w w' p) (rName vName : QString) :
    Ends (fun _ => True) (forgetRemote rName w' vName)
      fun w'' => PatchStep w w'' (p.forgetRemote rName vName) := by
  have json : (w'.patch.forgetRemote rName vName).jsonData = w'.patch.jsonData := by
    unfold Patch.forgetRemote
    split <;> rfl
  have left := step.trans (.setPatch (tidy_forgetRemote rName vName) json)
  obtain rfl : w'.patch = p := step.patch
  exact notify_step left rName (VirtualNetwork.elementByName_existing vName)

/-- The maps change first, the JSON and its copy after them. -/
theorem forgetVirtual_changed {vName rName : QString} {vNames : QStringList}
    (found : w.patch.remoteToVirtual.find? rName = some vNames) (linked : vName ∈ vNames) :
    PatchStep w ((setPatch w (w.patch.forgetVirtual vName rName)).valueChanged .patch)
      (w.patch.forgetVirtual vName rName) := by
  have maps : PatchStep w (setPatch w { w.patch with
      remoteToVirtual := unlink w.patch.remoteToVirtual rName vName }) { w.patch with
        remoteToVirtual := unlink w.patch.remoteToVirtual rName vName } := .setPatch id rfl
  have left := maps.trans (PatchStep.setJson _ (Patch.eraseLinkJson w.patch.jsonData rName vName))
  have forgotten : w.patch.forgetVirtual vName rName = { w.patch with
      remoteToVirtual := unlink w.patch.remoteToVirtual rName vName
      jsonData := Patch.eraseLinkJson w.patch.jsonData rName vName } := by
    rw [Patch.forgetVirtual, found]
    exact if_pos linked
  rw [forgotten]
  exact left

theorem forgetVirtual_step (step : PatchStep w w' p) (vName rName : QString)
    {element : Option Element} (existing : Element.Existing w element) :
    Ends (fun _ => True) (forgetVirtual vName element w' rName)
      fun w'' => PatchStep w w'' (p.forgetVirtual vName rName) := by
  obtain rfl : w'.patch = p := step.patch
  unfold forgetVirtual
  cases found : w'.patch.remoteToVirtual.find? rName with
  | none =>
      have same : w'.patch.forgetVirtual vName rName = w'.patch := by
        rw [Patch.forgetVirtual, found]
      rw [same]
      exact step
  | some vNames =>
      by_cases linked : vName ∈ vNames
      · simp only [linked, if_true]
        have left := step.trans (forgetVirtual_changed found linked)
        exact notify_step left rName (left.existing existing)
      · simp only [linked, if_false]
        have same : w'.patch.forgetVirtual vName rName = w'.patch := by
          rw [Patch.forgetVirtual, found]
          exact if_neg linked
        rw [same]
        exact notify_step step rName (step.existing existing)

/-- A loop of steps of the patch. -/
theorem foldlM_step {f : World → QString → Except Fault World} {g : Patch → QString → Patch}
    (turn : ∀ w' x p, PatchStep w w' p →
      Ends (fun _ => True) (f w' x) fun w'' => PatchStep w w'' (g p x))
    (l : QStringList) (step : PatchStep w w' p) :
    Ends (fun _ => True) (l.foldlM f w') fun w'' => PatchStep w w'' (l.foldl g p) := by
  induction l generalizing w' p with
  | nil => exact step
  | cons x rest ih =>
      rw [List.foldlM_cons, List.foldl_cons]
      exact (turn w' x p step).bind fun w₁ step₁ => ih step₁

theorem removeRemoteLinks_step (rName : QString) :
    Ends (fun _ => True) (removeRemoteLinks w rName)
      (Done w (w.patch.removeRemoteLinks rName).1 (w.patch.removeRemoteLinks rName).2) := by
  unfold removeRemoteLinks Patch.removeRemoteLinks
  cases found : w.patch.remoteToVirtual.find? rName with
  | none => exact ⟨rfl, .refl w⟩
  | some vNames =>
      cases lock : w.lock with
      | error e => trivial
      | ok w₁ =>
          have same : w₁.patch = w.patch := lock_patch lock
          simp only [bind, Except.bind, ← same]
          apply (foldlM_step (fun _ x _ step => forgetRemote_step step rName x) vNames
            (.refl w₁)).bind
          intro w₂ step
          have erased := step.trans (PatchStep.setJson w₂ (w₂.patch.jsonData.remove rName))
          have left := erased.trans (PatchStep.setPatch (p := w₂.patch.eraseRemote rName) id rfl)
          rw [← step.patch]
          exact ⟨rfl, .locked lock left⟩

theorem removeVirtualLinks_step (vName : QString) :
    Ends (fun _ => True) (removeVirtualLinks w vName)
      (Done w (w.patch.removeVirtualLinks vName).1 (w.patch.removeVirtualLinks vName).2) := by
  unfold removeVirtualLinks Patch.removeVirtualLinks
  cases found : w.patch.virtualToRemote.find? vName with
  | none => exact ⟨rfl, .refl w⟩
  | some rNames =>
      cases lock : w.lock with
      | error e => trivial
      | ok w₁ =>
          have same : w₁.patch = w.patch := lock_patch lock
          have existing : Element.Existing w₁ (VirtualNetwork.elementByName w vName) :=
            (VirtualNetwork.elementByName_existing vName).congr (by rw [lock_roster lock])
              (by rw [lock_roster lock])
          simp only [bind, Except.bind, ← same]
          apply (foldlM_step (fun _ x _ step => forgetVirtual_step step vName x existing) rNames
            (.refl w₁)).bind
          intro w₂ step
          have left := step.trans (PatchStep.setPatch (p := w₂.patch.eraseVirtual vName)
            (fun tidy => tidy.erase vName) rfl)
          rw [← step.patch]
          exact ⟨rfl, .locked lock left⟩

theorem fastTriggerRemote_step (rName : QString) (e : FTriggerEvent) (v : HexData) :
    Ends (fun _ => True) (fastTriggerRemote w rName e v) fun w' => PatchStep w w' w.patch :=
  ((keeps_fastTriggerRemote rName e v).mono fun _ kept => .of_live kept).mono_err fun _ _ => trivial

theorem remoteList_step (vName : QString) :
    Ends (fun _ => True) (remoteList w vName) fun q => PatchStep w q.2 w.patch := by
  apply ((remoteList_ends vName).mono _).mono_err fun _ _ => trivial
  rintro _ rfl
  exact .refl w

/-! ## Loading -/

/-- The loop of `populateNode`. -/
def populateMembers (w : World) : QJsonObject → Except Fault (Bool × World)
  | [] => pure (true, w)
  | (k, v) :: rest =>
      match v with
      | .object _ => pure (false, w)
      | .array a => do
          let (_, w) ← parseArray w k (arrayTexts a)
          populateMembers w rest
      | .null | .bool _ | .double _ | .string _ => populateMembers w rest

/-- `populateNode` of a patch without JSON. -/
def populateNode (w : World) (data : QJsonObject) : Except Fault (Bool × World) := do
  let (populated, w) ← populateMembers w data
  if populated then
    let w := setPatch w { w.patch with jsonData := data }
    pure (true, w.putJson .network (w.nameOf .patch) (.object w.patch.jsonData))
  else pure (false, w)

theorem populateMembers_step (data : QJsonObject) :
    Ends (fun _ => True) (populateMembers w data)
      (Done w (w.patch.populateMembers data).1 (w.patch.populateMembers data).2) := by
  induction data generalizing w with
  | nil => exact ⟨rfl, .refl w⟩
  | cons e rest ih =>
      obtain ⟨k, v⟩ := e
      cases v with
      | object o => exact ⟨rfl, .refl w⟩
      | null | bool b | double d | string s => exact ih
      | array a =>
          rw [populateMembers, Patch.populateMembers]
          apply (parseArray_step k (arrayTexts a)).bind
          rintro ⟨e, w₁⟩ step
          apply (ih (w := w₁)).mono
          rintro q ⟨returned, more⟩
          rw [step.patch] at returned more
          exact ⟨returned, step.trans more⟩

/-- Loading a fresh patch gives what the bookkeeping gives, and the network model a copy. -/
theorem populateNode_ends (fresh : w.patch = {}) (data : QJsonObject) :
    Ends (fun _ => True) (populateNode w data) fun q =>
      (q.1, q.2.patch) = Patch.populateNode {} data ∧ (q.1 = true → q.2.PatchMirrored) := by
  rw [populateNode]
  apply (populateMembers_step data).bind
  rintro ⟨populated, w₁⟩ ⟨returned, step⟩
  have patch := step.patch
  rw [fresh] at returned patch
  dsimp only at returned patch
  rw [Patch.populateNode]
  cases members : Patch.populateMembers {} data with
  | mk b p =>
      rw [members] at returned patch
      subst returned patch
      cases populated with
      | false => exact ⟨rfl, fun done => absurd done Bool.false_ne_true⟩
      | true =>
          refine ⟨rfl, fun _ => ?_⟩
          simp [PatchMirrored, nameOf, putJson, setJson, setPatch]

end PatchNode

/-! ## Runs -/

/-- What an operation does to the links. -/
def PatchOp.bookkeeping (p : Patch) : PatchOp → Patch
  | connect rName vName => (p.addLink rName vName).2
  | disconnect rName vName => (p.removeLink rName vName).2
  | disconnectRemote rName => (p.removeRemoteLinks rName).2
  | disconnectVirtual vName => (p.removeVirtualLinks vName).2
  | parseArray name value => (p.parseArray name value).2
  | fastTriggerRemote _ _ _ | remoteList _ => p

/-- Step lemma: the network refines the bookkeeping of the patch. -/
theorem PatchOp.perform_step (op : PatchOp) :
    Ends (fun _ => True) (op.perform w) fun w' => PatchStep w w' (op.bookkeeping w.patch) := by
  cases op with
  | connect rName vName => exact ((PatchNode.addLink_step rName vName).mono fun _ d => d.2).map
  | disconnect rName vName =>
      exact ((PatchNode.removeLink_step rName vName).mono fun _ d => d.2).map
  | disconnectRemote rName =>
      exact ((PatchNode.removeRemoteLinks_step rName).mono fun _ d => d.2).map
  | disconnectVirtual vName =>
      exact ((PatchNode.removeVirtualLinks_step vName).mono fun _ d => d.2).map
  | parseArray name value => exact (PatchNode.parseArray_step name value).map
  | fastTriggerRemote rName e v => exact PatchNode.fastTriggerRemote_step rName e v
  | remoteList vName => exact (PatchNode.remoteList_step vName).map

def Patch.ConsoleCall.toOp : Patch.ConsoleCall → Op
  | connect rName vName => .patch (.connect rName vName)
  | disconnect rName vName => .patch (.disconnect rName vName)
  | disconnectRemote rName => .patch (.disconnectRemote rName)
  | disconnectVirtual vName => .patch (.disconnectVirtual vName)

theorem Patch.ConsoleCall.perform_step (c : Patch.ConsoleCall) :
    Ends (fun _ => True) (c.toOp.perform w) fun w' => PatchStep w w' (w.patch.call c.toCall) := by
  cases c with
  | connect rName vName => exact (PatchOp.connect rName vName).perform_step
  | disconnect rName vName => exact (PatchOp.disconnect rName vName).perform_step
  | disconnectRemote rName => exact (PatchOp.disconnectRemote rName).perform_step
  | disconnectVirtual vName => exact (PatchOp.disconnectVirtual vName).perform_step

/-- A network whose patch is empty, or has been loaded from a proper document. -/
inductive World.PatchStart : World → Prop
  | empty {w : World} (fresh : w.patch = {}) (mirrored : w.PatchMirrored) : PatchStart w
  | loaded {w w' : World} {data : QJsonObject} (fresh : w.patch = {})
      (proper : Patch.ProperDocument data)
      (load : PatchNode.populateNode w data = .ok (true, w')) : PatchStart w'

namespace World

theorem PatchStart.sound (start : w.PatchStart) :
    w.patch.Consistent ∧ w.patch.Persisted ∧ w.PatchMirrored := by
  cases start with
  | empty fresh mirrored =>
      rw [fresh]
      exact ⟨Patch.consistent_empty, Patch.persisted_empty, mirrored⟩
  | loaded fresh proper load =>
      obtain ⟨m, rfl, tidy⟩ := proper
      obtain ⟨same, mirrored⟩ := (PatchNode.populateNode_ends fresh _).of_ok load
      obtain ⟨p', run, agree, stored, -⟩ := Patch.populateNode_document tidy
      have patch : w.patch = p' := congrArg Prod.snd (same.trans run)
      exact ⟨patch ▸ agree, patch ▸ stored, mirrored rfl⟩

/-- Run lemma: the JSON of the patch and its copy follow the links. -/
theorem run_console (agree : w.patch.Consistent) (stored : w.patch.Persisted)
    (mirrored : w.PatchMirrored) (commands : List Patch.ConsoleCall) :
    Ends (fun _ => True) (w.run (commands.map Patch.ConsoleCall.toOp)) fun w' =>
      w'.patch.Persisted ∧ w'.PatchMirrored := by
  induction commands generalizing w with
  | nil => exact ⟨stored, mirrored⟩
  | cons c rest ih =>
      rw [List.map_cons, run, List.foldlM_cons]
      apply c.perform_step.bind
      intro w₁ step
      apply ih
      · rw [step.patch]
        exact agree.call c.toCall
      · rw [step.patch]
        exact stored.call agree c
      · exact step.mirrored mirrored

/-- Whatever commands a patch has gone through since it was empty or loaded, its JSON
    has the same keys as its links by remote, each with the array of its row, and the
    JSON of the network model holds the same object. -/
theorem patch_persisted (start : w.PatchStart) (commands : List Patch.ConsoleCall)
    (run : w.run (commands.map Patch.ConsoleCall.toOp) = .ok w') :
    w'.patch.Persisted ∧ w'.PatchMirrored := by
  obtain ⟨agree, stored, mirrored⟩ := start.sound
  exact (run_console agree stored mirrored commands).of_ok run

theorem patch_persisted_connect :
    ∃ w', (initial .free fun _ => none).run
      [(Patch.ConsoleCall.connect "Remote1" "Group1").toOp] = .ok w' ∧
        w'.patch.Persisted ∧ w'.PatchMirrored :=
  have start : (initial .free fun _ => none).PatchStart := .empty rfl rfl
  ⟨_, rfl, patch_persisted start [.connect "Remote1" "Group1"] rfl⟩

end World

end VoxPopuli
