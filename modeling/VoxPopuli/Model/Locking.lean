import VoxPopuli.Model.Reachable

/-! # The mutex of the patch

The patch asks for its mutex again when an element is told of a change and looks its
remotes up. Linking, unlinking and triggering give the mutex back before an element is
told. Taking all links of a remote or of an element away does not.
-/

namespace VoxPopuli

open World VirtualNetwork

variable {w w' : World} {p : Patch}

/-- The calls which tell an element of a change while they hold the mutex. -/
def PatchOp.Relocks (w : World) : PatchOp → Prop
  | disconnectRemote rName => ∃ vName ∈ w.patch.virtualsOf rName, (elementByName w vName).isSome
  | disconnectVirtual vName => w.patch.remotesOf vName ≠ [] ∧ (elementByName w vName).isSome
  | _ => False

/-- A call does not wait for itself, and returns without the mutex. -/
def Released (x : Except Fault World) : Prop :=
  Ends (fun e => e ≠ .deadlock) x fun w' => w'.mutex = .free

theorem released_of_mayFail {x : Except Fault World} (free : w.mutex = .free)
    (h : Ends w.MayFail x fun w' => w'.mutex = .free) : Released x := by
  apply h.mono_err
  rintro e failed rfl
  have held := failed rfl
  rw [free] at held
  cases held

/-! ## Elements which are told while the mutex is held -/

namespace VirtualRemote

theorem updateVirtualRemote_held (held : w.mutex = .held) {v : VRef}
    (looksUp : ∃ name, patchedRemotes w v = PatchNode.remoteList w name) :
    updateVirtualRemote w v = .error .deadlock := by
  obtain ⟨name, same⟩ := looksUp
  rw [updateVirtualRemote, same, PatchNode.remoteList, lock_held held]
  rfl

end VirtualRemote

namespace PatchNode

/-- An element which is told while the mutex is held asks for it again. -/
theorem notify_held (h : w.WellFormed) (held : w.mutex = .held) (rName : QString)
    {element : Element} (existing : Element.Existing w (some element)) :
    notify w rName (some element) = .error .deadlock := by
  cases element with
  | vRemote n => exact VirtualRemote.updateVirtualRemote_held held ⟨_, rfl⟩
  | group g =>
      obtain ⟨global, avatars, ok⟩ := h.groups g existing
      have kept : Keeps { refreshed := {g} } w
          (VirtualGroup.refreshSlaves (VirtualGroup.setSlaves w g ((w.slaves g).erase rName)) g) :=
        (VirtualGroup.keeps_setSlaves rfl (.inl List.erase_sublist)).trans
          (VirtualGroup.keeps_refreshSlaves rfl)
      rw [notify, VirtualGroup.removeSlave, VirtualGroup.updateFromPatch]
      generalize VirtualGroup.refreshSlaves _ g = w₁ at kept ⊢
      have held₁ : w₁.mutex = .held := by
        rw [kept.roster]
        exact held
      have global₁ : w₁.globalRemote g = some (.member g global) := by
        rw [kept.roster]
        exact ok.globalRemote
      have name₁ : w₁.vRemoteName (.member g global) = "GlobalRemote" := by
        rw [kept.roster]
        exact ok.globalName
      have prefixed : ("Global" : QString) <+: w₁.vRemoteName (.member g global) := by
        rw [name₁]
        decide
      have waits : VirtualRemote.updateVirtualRemote w₁ (.member g global) = .error .deadlock :=
        VirtualRemote.updateVirtualRemote_held held₁ ⟨w₁.groupName g, if_pos prefixed⟩
      rw [VirtualGroup.updateVirtualRemotes, global₁]
      simp only [waits]
      rfl

/-! ## The links of a remote are removed -/

theorem foldlM_forgetRemote_quiet (rName : QString) {vNames : QStringList}
    (quiet : ∀ vName ∈ vNames, elementByName w vName = none) :
    vNames.foldlM (forgetRemote rName) w =
      .ok (setPatch w (vNames.foldl (fun p vName => p.forgetRemote rName vName) w.patch)) := by
  induction vNames generalizing w with
  | nil => rfl
  | cons vName rest ih =>
      have turn : forgetRemote rName w vName =
          .ok (setPatch w (w.patch.forgetRemote rName vName)) := by
        have none : elementByName (setPatch w (w.patch.forgetRemote rName vName)) vName = none :=
          quiet vName List.mem_cons_self
        rw [forgetRemote, none]
        rfl
      rw [List.foldlM_cons, turn]
      exact ih fun vName' member => quiet vName' (List.mem_cons_of_mem vName member)

theorem foldlM_forgetRemote_held (h : w.WellFormed) (held : w.mutex = .held) (rName : QString)
    {vNames : QStringList} (told : ∃ vName ∈ vNames, (elementByName w vName).isSome) :
    vNames.foldlM (forgetRemote rName) w = .error .deadlock := by
  induction vNames generalizing w with
  | nil =>
      obtain ⟨vName, member, -⟩ := told
      cases member
  | cons vName rest ih =>
      have wellFormed : (setPatch w (w.patch.forgetRemote rName vName)).WellFormed :=
        h.setPatch (tidy_forgetRemote rName vName h.tidy) w.mutex
      have existing := elementByName_existing (w := setPatch w (w.patch.forgetRemote rName vName))
        vName
      rw [List.foldlM_cons, forgetRemote]
      cases found : elementByName (setPatch w (w.patch.forgetRemote rName vName)) vName with
      | some element =>
          rw [found] at existing
          rw [notify_held wellFormed held rName existing]
          rfl
      | none =>
          have later : ∃ vName ∈ rest, (elementByName w vName).isSome := by
            obtain ⟨vName', member, isSome⟩ := told
            rcases List.mem_cons.mp member with rfl | member
            · have absent : elementByName w vName' = none := found
              rw [absent] at isSome
              cases isSome
            · exact ⟨vName', member, isSome⟩
          exact ih wellFormed held later

theorem lock_free (free : w.mutex = .free) : w.lock = .ok { w with mutex := .held } := by
  rw [World.lock, free]
  rfl

theorem removeRemoteLinks_released (h : w.WellFormed) (free : w.mutex = .free) (rName : QString) :
    Released (Prod.snd <$> removeRemoteLinks w rName) ↔
      ¬(PatchOp.disconnectRemote rName).Relocks w := by
  rw [removeRemoteLinks, PatchOp.Relocks]
  cases found : w.patch.remoteToVirtual.find? rName with
  | none =>
      have row : w.patch.virtualsOf rName = [] := by simp [Patch.virtualsOf, Rows.row, found]
      have done : Released (pure w) := free
      simp [row, done]
  | some vNames =>
      have row : w.patch.virtualsOf rName = vNames := Rows.row_of_find? found
      rw [row]
      simp only [lock_free free, bind, Except.bind]
      by_cases told : ∃ vName ∈ vNames, (elementByName w vName).isSome
      · have deadlock := foldlM_forgetRemote_held (w := { w with mutex := .held })
          (h.setPatch h.tidy .held) rfl rName told
        rw [deadlock]
        simp [Released, Ends, told]
      · have quiet : ∀ vName ∈ vNames,
            elementByName { w with mutex := .held } vName = none := by
          intro vName member
          by_contra some
          exact told ⟨vName, member, Option.isSome_iff_ne_none.mpr some⟩
        rw [foldlM_forgetRemote_quiet rName quiet]
        simp only [told, not_false_eq_true, iff_true]
        exact rfl

/-! ## The links of an element are removed -/

theorem forgetVirtual_roster (w : World) (vName rName : QString) :
    ∃ w', forgetVirtual vName none w rName = .ok w' ∧ w'.mutex = w.mutex := by
  rw [forgetVirtual]
  cases w.patch.remoteToVirtual.find? rName with
  | none => exact ⟨w, rfl, rfl⟩
  | some vNames =>
      by_cases linked : vName ∈ vNames
      · simp only [linked, if_true]
        exact ⟨_, rfl, (PatchStep.setPatch id rfl).mutex⟩
      · simp only [linked, if_false]
        exact ⟨w, rfl, rfl⟩

theorem foldlM_forgetVirtual_quiet (vName : QString) (rNames : QStringList) (w : World) :
    ∃ w', rNames.foldlM (forgetVirtual vName none) w = .ok w' ∧ w'.mutex = w.mutex := by
  induction rNames generalizing w with
  | nil => exact ⟨w, rfl, rfl⟩
  | cons rName rest ih =>
      obtain ⟨w₁, turn, mutex⟩ := forgetVirtual_roster w vName rName
      obtain ⟨w₂, run, mutex'⟩ := ih w₁
      refine ⟨w₂, ?_, mutex'.trans mutex⟩
      rw [List.foldlM_cons, turn]
      exact run

/-- The first remote of an existing element is enough. -/
theorem forgetVirtual_held (h : w.WellFormed) (held : w.mutex = .held) {vName rName : QString}
    (linked : vName ∈ w.patch.virtualsOf rName) {element : Element}
    (existing : Element.Existing w (some element)) :
    forgetVirtual vName (some element) w rName = .error .deadlock := by
  rw [forgetVirtual]
  cases found : w.patch.remoteToVirtual.find? rName with
  | none => simp [Patch.virtualsOf, Rows.row, found] at linked
  | some vNames =>
      have row : w.patch.virtualsOf rName = vNames := Rows.row_of_find? found
      rw [row] at linked
      simp only [linked, if_true]
      have step := forgetVirtual_changed found linked
      exact notify_held (step.wellFormed h) (step.mutex.trans held) rName (step.existing existing)

theorem removeVirtualLinks_released (h : w.Sound) (free : w.mutex = .free) (vName : QString) :
    Released (Prod.snd <$> removeVirtualLinks w vName) ↔
      ¬(PatchOp.disconnectVirtual vName).Relocks w := by
  rw [removeVirtualLinks, PatchOp.Relocks]
  cases found : w.patch.virtualToRemote.find? vName with
  | none =>
      have row : w.patch.remotesOf vName = [] := by simp [Patch.remotesOf, Rows.row, found]
      have done : Released (pure w) := free
      simp [row, done]
  | some rNames =>
      have row : w.patch.remotesOf vName = rNames := Rows.row_of_find? found
      have some : rNames ≠ [] := by
        rintro rfl
        exact h.agree.tidy'.nonempty vName found
      simp only [lock_free free, bind, Except.bind, row]
      cases told : elementByName w vName with
      | none =>
          obtain ⟨w₁, run, mutex⟩ :=
            foldlM_forgetVirtual_quiet vName rNames { w with mutex := .held }
          have given : (setPatch w₁ (w₁.patch.eraseVirtual vName)).unlock.mutex = .free := by
            have held : (setPatch w₁ (w₁.patch.eraseVirtual vName)).mutex = .held := mutex
            rw [unlock, held]
          rw [run]
          simpa [Released] using given
      | some element =>
          obtain ⟨rName, rest, rfl⟩ := List.exists_cons_of_ne_nil some
          have linked : vName ∈ w.patch.virtualsOf rName := by
            rw [h.agree.mem_iff, row]
            exact List.mem_cons_self
          have existing := elementByName_existing (w := w) vName
          rw [told] at existing
          have deadlock := forgetVirtual_held (w := { w with mutex := .held })
            (h.wellFormed.setPatch h.wellFormed.tidy .held) rfl linked existing
          rw [List.foldlM_cons, deadlock]
          simp [Released, Ends, bind, Except.bind]

/-! ## The other calls -/

theorem notify_released (free : w.mutex = .free) (rName : QString) {element : Option Element}
    (existing : Element.Existing w element) : Released (notify w rName element) := by
  apply released_of_mayFail free
  apply (keeps_notify rName existing).mono
  intro w' kept
  rw [kept.roster]
  exact free

theorem addEntry_released (free : w.mutex = .free) (rName vName : QString) :
    Ends (fun e => e ≠ .deadlock) (addEntry w rName vName) fun q => q.2.mutex = .free := by
  unfold addEntry
  cases w.patch.addEntry rName vName with
  | mk b p =>
      cases b with
      | false => exact free
      | true =>
          have told := notify_released (w := setPatch w p) free rName (elementByName_existing vName)
          exact told.bind fun w' mutex => mutex

theorem parseArray_released (free : w.mutex = .free) (name : QString) (value : QStringList) :
    Ends (fun e => e ≠ .deadlock) (parseArray w name value) fun q => q.2.mutex = .free := by
  induction value generalizing w with
  | nil => exact free
  | cons vName rest ih =>
      rw [parseArray]
      apply (addEntry_released free name vName).bind
      rintro ⟨added, w₁⟩ mutex
      cases added with
      | false => exact mutex
      | true => exact ih mutex

theorem addLink_released (free : w.mutex = .free) (rName vName : QString) :
    Ends (fun e => e ≠ .deadlock) (addLink w rName vName) fun q => q.2.mutex = .free := by
  rw [addLink]
  apply (addEntry_released free rName vName).bind
  rintro ⟨added, w₁⟩ mutex
  cases added with
  | false => exact mutex
  | true => exact (PatchStep.setJson w₁ _).mutex.trans mutex

theorem removeLink_released (free : w.mutex = .free) (rName vName : QString) :
    Ends (fun e => e ≠ .deadlock) (removeLink w rName vName) fun q => q.2.mutex = .free := by
  rw [removeLink]
  cases found : w.patch.remoteToVirtual.find? rName with
  | none => exact free
  | some vNames =>
      simp only [lock_free free, bind, Except.bind]
      by_cases linked : vName ∈ vNames
      · simp only [linked, if_true]
        cases back : Patch.virtualToRemote _ |>.find? vName with
        | none => exact rfl
        | some rNames =>
            exact (notify_released rfl rName (elementByName_existing vName)).bind
              fun w' mutex => mutex
      · simp only [linked, if_false]
        exact rfl

end PatchNode

/-! ## Calls in reachable states -/

/-- In a reachable state a call of the patch which returns has given the mutex back, and
    it never waits for itself, if and only if it does not tell an element of the removal
    of all links of a remote or of an element. -/
theorem PatchOp.released_iff (reachable : w.Reachable .free) (op : PatchOp) :
    Ends (fun e => e ≠ .deadlock) (op.perform w) (fun w' => w'.mutex = .free) ↔
      ¬op.Relocks w := by
  obtain ⟨sound, free⟩ := reachable.sound
  cases op with
  | disconnectRemote rName =>
      exact PatchNode.removeRemoteLinks_released sound.wellFormed free rName
  | disconnectVirtual vName => exact PatchNode.removeVirtualLinks_released sound free vName
  | connect rName vName =>
      exact iff_of_true (PatchNode.addLink_released free rName vName).map id
  | disconnect rName vName =>
      exact iff_of_true (PatchNode.removeLink_released free rName vName).map id
  | parseArray name value =>
      exact iff_of_true (PatchNode.parseArray_released free name value).map id
  | fastTriggerRemote rName e v =>
      refine iff_of_true (released_of_mayFail free ?_) id
      apply (PatchNode.keeps_fastTriggerRemote rName e v).mono
      intro w' kept
      rw [kept.roster]
      exact free
  | remoteList vName =>
      refine iff_of_true (released_of_mayFail free ?_) id
      apply Ends.map
      apply (PatchNode.remoteList_ends vName).mono
      rintro _ rfl
      exact free

/-- A virtual remote which is linked to a remote. -/
def linkedRemote : List Op := [.addVirtualRemote "Screen", .patch (.connect "Remote1" "Screen")]

/-- A single link is taken away. -/
theorem PatchOp.released_disconnect :
    ∃ w, (initial .free fun _ => none).run linkedRemote = .ok w ∧
      Ends (fun e => e ≠ .deadlock) ((PatchOp.disconnect "Remote1" "Screen").perform w) fun w' =>
        w'.mutex = .free := by
  have run : ∃ w, (initial .free fun _ => none).run linkedRemote = .ok w := ⟨_, rfl⟩
  obtain ⟨w, run⟩ := run
  exact ⟨w, run, (PatchOp.released_iff ⟨_, _, run⟩ (.disconnect "Remote1" "Screen")).mpr id⟩

/-- All links of the remote are taken away. -/
theorem not_released : ¬∀ w : World, w.Reachable .free → ∀ op : PatchOp,
    Ends (fun e => e ≠ .deadlock) (op.perform w) fun w' => w'.mutex = .free := by
  intro all
  have run : ∃ w, (initial .free fun _ => none).run linkedRemote = .ok w ∧
      (PatchOp.disconnectRemote "Remote1").perform w = .error .deadlock := ⟨_, rfl, rfl⟩
  obtain ⟨w, reached, deadlock⟩ := run
  have released := all w ⟨_, _, reached⟩ (.disconnectRemote "Remote1")
  rw [deadlock] at released
  exact released rfl

end VoxPopuli
