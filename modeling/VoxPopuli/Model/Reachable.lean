import VoxPopuli.Model.PatchSteps
import VoxPopuli.Model.Renaming

/-! # Reachable states

Every command keeps the state well-formed and the two maps of the patch in agreement,
and gives the mutex back. All of them but the calls of the patch and the renaming of a
group also leave the links and the caches of the groups alone.
-/

namespace VoxPopuli

open World

variable {F : Footprint} {w w' : World}

/-! ## New remotes -/

namespace World

theorem keeps_setRemote {r : Nat} (pressed : r ∈ F.pressed) (o : QJsonObject) :
    Keeps F w (w.setJson (.remote r) o) := by
  refine keeps_setJson (by simp) (by simp) (by simp) (by simp) (fun r' same => ?_) o
  cases same
  exact pressed

theorem keeps_renameRemote (r : Nat) (name : QString) :
    Keeps F w (w.rename (.remote r) name).2 := by
  unfold rename
  dsimp only [NodeRef.ancestors]
  split
  · exact .refl F w
  · have removed : Keeps F w (w.setJson .remoteList
        ((w.json .remoteList).remove (w.nameOf (.remote r)))) :=
      keeps_setJson (by simp) (by simp) (by simp) (by simp) (by simp) _
    have named : Keeps F w ((w.setJson .remoteList
        ((w.json .remoteList).remove (w.nameOf (.remote r)))).setName (.remote r) name) :=
      removed.trans (keeps_of_same rfl rfl rfl rfl rfl)
    exact named.trans (keeps_updateParentJSon (n := .remote r) trivial)

theorem Keeps.pressing_eq (kept : Keeps F w w') (r : Nat) : w'.pressing r = w.pressing r := by
  unfold pressing
  rw [kept.live_eq]

theorem Stays.of_pressing {r : Nat} (kept : Keeps (w.pressing r) w w') : Stays w w' :=
  .of_keeps kept (fun _ => id) (fun _ => id) fun _ => id

end World

namespace RemoteList

theorem keeps_createSubNode (name : QString) (data : QJsonObject) :
    Ends w.MayFail (createSubNode w name data) fun p => Keeps (w.pressing w.freshRemote) w p.2 := by
  have created : ∀ real o, Keeps (w.pressing w.freshRemote) w
      (create w w.freshRemote name real o) := fun real o =>
    (keeps_setRemote (F := w.pressing w.freshRemote) rfl o).trans (keeps_of_same rfl rfl rfl rfl rfl)
  have stored : ∀ (w₁ : World) data, Keeps (w.pressing w.freshRemote) w w₁ →
      Keeps (w.pressing w.freshRemote) w (w₁.adopt (.remote w.freshRemote) data) :=
    fun w₁ data kept => kept.trans ((keeps_setRemote (F := w.pressing w.freshRemote) rfl data).trans
      (keeps_addSubNode (p := .remoteList) trivial trivial))
  have members : ∀ w₁ m, Keeps (w.pressing w.freshRemote) w w₁ → Ends w.MayFail
      (populateMember (Remote.nodeClass fun w' => Remote.set w' w.freshRemote) w₁ m)
      fun p => Keeps (w.pressing w.freshRemote) w p.2 := by
    intro w₁ m kept
    refine populateMember_ends kept (fun o => kept) (fun l => kept) fun s => ?_
    have pressed := kept.ends (Remote.keeps_set w.freshRemote m.1 s)
    rw [kept.pressing_eq] at pressed
    exact pressed.mono fun p more => kept.trans more
  have populate : ∀ real o, Ends w.MayFail
      (populateNode (Remote.nodeClass fun w' => Remote.set w' w.freshRemote)
        (create w w.freshRemote name real o) (.remote w.freshRemote) data)
      fun p => Keeps (w.pressing w.freshRemote) w p.2 :=
    fun real o => populateNode_keeps members stored (mayFail_of_ne (by decide))
      (mayFail_of_ne (by decide)) (created real o)
  have deleted : ∀ w₁ : World, Keeps (w.pressing w.freshRemote) w₁ (destroy w₁ w.freshRemote) := by
    intro w₁
    have looked : Keeps (w.pressing w.freshRemote) w₁
        (if w₁.isReal w.freshRemote then (RealRemote.remote w₁ w.freshRemote).2 else w₁) := by
      split
      · exact RealRemote.keeps_remote w.freshRemote
      · exact .refl _ w₁
    have empty : ∀ w₂ : World, Keeps (w.pressing w.freshRemote) w₂
        (w₂.setSubnodes (.remote w.freshRemote) []) := fun _ => keeps_of_same rfl rfl rfl rfl rfl
    exact (looked.trans (empty _)).trans (keeps_setRemote (F := w.pressing w.freshRemote) rfl [])
  have listed : ∀ real o, Ends w.MayFail
      (do
        let q ← populateNode (Remote.nodeClass fun w' => Remote.set w' w.freshRemote)
          (create w w.freshRemote name real o) (.remote w.freshRemote) data
        pure (q.1, if q.1 then { q.2 with remotes := q.2.remotes ++ [w.freshRemote] }
          else destroy q.2 w.freshRemote))
      fun p => Keeps (w.pressing w.freshRemote) w p.2 := by
    intro real o
    apply (populate real o).bind
    rintro ⟨populated, w₁⟩ kept
    cases populated with
    | false => exact kept.trans (deleted w₁)
    | true => exact kept.trans (keeps_of_same rfl rfl rfl rfl rfl)
  unfold createSubNode
  dsimp only
  split
  · exact listed true _
  · split
    · exact listed false _
    · exact .refl _ w

theorem addRemote_stays (address : QString) :
    Ends w.MayFail (addRemote w address) fun p => Stays w p.2 := by
  unfold addRemote
  split
  · exact .refl w
  · exact (keeps_createSubNode _ _).bind fun _ kept => .of_pressing kept

theorem emulateRemote_stays (name osc ipPort : QString) :
    Ends w.MayFail (emulateRemote w name osc ipPort) fun p => Stays w p.2 := by
  unfold emulateRemote
  split
  · exact .refl w
  · exact (keeps_createSubNode _ _).bind fun _ kept => .of_pressing kept

end RemoteList

/-! ## Commands -/

/-- A virtual remote which the console can name. -/
theorem VPath.live {path : VPath} {v : VRef} (found : path.find w = some v) : w.Live v := by
  cases path with
  | free name =>
      obtain ⟨n, remote, rfl⟩ := Option.map_eq_some_iff.mp found
      exact .inl ⟨n, (VirtualNetwork.remoteByName_eq_some remote).1, rfl⟩
  | global group =>
      obtain ⟨g, element, global⟩ := Option.bind_eq_some_iff.mp found
      exact .of_member (VirtualNetwork.groupByName_eq_some element).1 (.inl global)
  | avatar group i =>
      obtain ⟨g, element, avatar⟩ := Option.bind_eq_some_iff.mp found
      have listed := Option.join_eq_some_iff.mp avatar
      exact .of_member (VirtualNetwork.groupByName_eq_some element).1
        (.inr (List.mem_of_getElem? listed))

namespace Op

/-- The commands after which the links and the caches of the groups are as before. -/
def LeavesLinks : Op → Prop
  | patch _ | renameGroup _ _ => False
  | _ => True

theorem on_stays {α : Type} {object : Option α} {f : α → Except Fault World}
    (h : ∀ a, object = some a → Ends w.MayFail (f a) (Stays w)) :
    Ends w.MayFail (on object w f) (Stays w) := by
  cases object with
  | none => exact .refl w
  | some a => exact h a rfl

theorem perform_stays (h : w.WellFormed) {op : Op} (leaves : op.LeavesLinks) :
    Ends w.MayFail (op.perform w) (Stays w) := by
  -- A virtual remote which is named is edited alone.
  have edit : ∀ {v}, w.Live v → ∀ {w'}, Keeps { w.live with edited := {v} } w w' → Stays w w' :=
    fun _ _ kept => .of_keeps kept (fun _ => id) (fun _ => id) fun _ => id
  cases op with
  | patch op | renameGroup name newName => exact leaves.elim
  | addGroup name => exact (VirtualNetwork.addGroup_ends h name).map
  | removeGroup name => exact VirtualNetwork.removeGroup_stays h name
  | setGroup name key value =>
      apply on_stays
      intro g found
      have inside := (VirtualNetwork.groupByName_eq_some found).1
      obtain ⟨global, avatars, ok⟩ := h.groups g inside
      apply Ends.map
      apply (VirtualGroup.setValue_ends ok key value).mono
      rintro p ⟨⟨avatars', ok'⟩, resized⟩
      exact .of_sameLinks resized.sameLinks fun h =>
        resized.wellFormed h fun _ => ⟨global, avatars', ok'⟩
  | addVirtualRemote name => exact (VirtualNetwork.addRemote_ends h name).map
  | removeVirtualRemote name => exact VirtualNetwork.removeRemote_stays h name
  | renameVirtualRemote name newName =>
      apply on_stays
      intro n found
      exact Stays.rename_vRemote (VirtualNetwork.remoteByName_eq_some found).1 newName
  | setVirtualRemote path key value =>
      apply on_stays
      intro v found
      have live := VPath.live found
      have kept := VirtualRemote.keeps_setValue (w := w) (F := { w.live with edited := {v} })
        live rfl key value
      exact (kept.mono fun p kept => edit live kept).map
  | autoGenerateRemote => exact VirtualNetwork.autoGenerateRemote_ends h
  | addEvent path b definition trigger =>
      apply on_stays
      intro v found
      have live := VPath.live found
      exact edit live (Event.keeps_addEvent live rfl b definition trigger)
  | removeEvent path b definition trigger =>
      apply on_stays
      intro v found
      have live := VPath.live found
      exact edit live (Event.keeps_removeEvent live rfl b definition trigger)
  | addRemote address => exact (RemoteList.addRemote_stays address).map
  | removeRemote address => exact .of_live (RemoteList.keeps_removeRemote address)
  | emulateRemote name osc ipPort => exact (RemoteList.emulateRemote_stays name osc ipPort).map
  | removeEmulatedRemote name => exact .of_live (RemoteList.keeps_removeEmulatedRemote name)
  | renameRemote name newName =>
      apply on_stays
      intro r _
      exact .of_live (keeps_renameRemote r newName)
  | setRemote name key value =>
      apply on_stays
      intro r _
      exact ((Remote.keeps_set r key value).mono fun p kept => Stays.of_pressing kept).map
  | callLed name value =>
      apply on_stays
      intro r _
      exact .of_live (Remote.keeps_callLed r value)
  | setButtonState name b pressed =>
      apply on_stays
      intro r _
      exact (Remote.keeps_setButtonState r b pressed).mono fun w' kept => .of_pressing kept
  | discover addr => exact .of_live (keeps_of_same rfl rfl rfl rfl rfl)
  | tick i => exact .of_live (keeps_tick i)

end Op

/-! ## Runs -/

theorem PatchOp.consistent_bookkeeping {p : Patch} (agree : p.Consistent) (op : PatchOp) :
    (op.bookkeeping p).Consistent := by
  cases op with
  | connect rName vName => exact agree.addLink rName vName
  | disconnect rName vName => exact agree.removeLink rName vName
  | disconnectRemote rName => exact agree.removeRemoteLinks rName
  | disconnectVirtual vName => exact agree.removeVirtualLinks vName
  | parseArray name value => exact agree.parseArray name value
  | fastTriggerRemote rName e v => exact agree
  | remoteList vName => exact agree

namespace World

/-- What holds between two commands. -/
structure Sound (w : World) : Prop where
  wellFormed : w.WellFormed
  agree : w.patch.Consistent

/-- Step lemma. -/
theorem Sound.perform (h : w.Sound) (op : Op) :
    Ends (fun _ => True) (op.perform w) fun w' => w'.Sound ∧ w'.mutex = w.mutex := by
  by_cases leaves : op.LeavesLinks
  · apply ((Op.perform_stays h.wellFormed leaves).mono _).mono_err fun _ _ => trivial
    intro w' stays
    exact ⟨⟨stays.wellFormed h.wellFormed, stays.patch ▸ h.agree⟩, stays.mutex⟩
  · cases op with
    | patch op =>
        apply op.perform_step.mono
        intro w' step
        refine ⟨⟨step.wellFormed h.wellFormed, ?_⟩, step.mutex⟩
        rw [step.patch]
        exact op.consistent_bookkeeping h.agree
    | renameGroup name newName =>
        cases found : VirtualNetwork.groupByName w name with
        | none =>
            rw [Op.perform, found]
            exact ⟨h, rfl⟩
        | some g =>
            have inside := (VirtualNetwork.groupByName_eq_some found).1
            have patch : (w.rename (.group g) newName).2.patch = w.patch ∧
                (w.rename (.group g) newName).2.mutex = w.mutex := by
              by_cases free : (w.json .virtualNet).contains newName
              · rw [rename_refused rfl free]
                exact ⟨rfl, rfl⟩
              · obtain ⟨json, renamed, -⟩ := rename_group w g free
                rw [renamed]
                exact ⟨rfl, rfl⟩
            rw [Op.perform, found]
            exact ⟨⟨h.wellFormed.rename_group inside newName, patch.1 ▸ h.agree⟩, patch.2⟩
    | _ => exact absurd trivial leaves

/-- Run lemma. -/
theorem Sound.run (h : w.Sound) (ops : List Op) :
    Ends (fun _ => True) (w.run ops) fun w' => w'.Sound ∧ w'.mutex = w.mutex := by
  induction ops generalizing w with
  | nil => exact ⟨h, rfl⟩
  | cons op rest ih =>
      rw [World.run, List.foldlM_cons]
      apply (h.perform op).bind
      rintro w₁ ⟨sound, mutex⟩
      apply (ih sound).mono
      exact fun w' done => ⟨done.1, done.2.trans mutex⟩

theorem sound_initial (mutex : MutexState) (accepts : QString → Option Bool) :
    (initial mutex accepts).Sound where
  wellFormed := {
    tidy := Patch.consistent_empty.tidy'
    slaves := fun _ => List.nodup_nil
    groupsNodup := List.nodup_nil
    vRemotesNodup := List.nodup_nil
    groupsOld := nofun
    vRemotesOld := nofun
    names := by
      intro n n' element
      obtain ⟨g, inside, -⟩ | ⟨m, inside, -⟩ := element.node
      · cases inside
      · cases inside
    netKeys := by
      intro n element
      obtain ⟨g, inside, -⟩ | ⟨m, inside, -⟩ := element.node
      · cases inside
      · cases inside
    groups := nofun }
  agree := Patch.consistent_empty

theorem Reachable.sound {mutex : MutexState} (h : w.Reachable mutex) :
    w.Sound ∧ w.mutex = mutex := by
  obtain ⟨accepts, ops, run⟩ := h
  exact ((sound_initial mutex accepts).run ops).of_ok run

end World

end VoxPopuli
