import VoxPopuli.Model.Moves
import VoxPopuli.Model.PortViews

/-! # Three views of a container

A container knows its children three times over: by its own list, by its child nodes and by
its JSON. They agree after every command, but for one case: a remote of which an LED or the
state is set while its counterpart is not on the radio is removed first and then writes its
JSON back, under a name which no child has any more.
-/

namespace VoxPopuli

open World

variable {w w' : World}

/-! ## Remotes which are driven -/

/-- The values which `Remote::setValue` sends to the radio. -/
def Remote.Sent (name value : QString) : Prop :=
  name = "State" ∨ name ∈ (["LED1", "LED2", "LED3"] : List QString) ∧ (value.toInt?).isSome

theorem Remote.setValue_of_not_sent {r : Nat} {name value : QString} (not : ¬Sent name value) :
    (setValue w r name value).2 = w := by
  have refused : ∀ e, name ∈ (["LED1", "LED2", "LED3"] : List QString) → (setLed w r e value).2 = w := by
    intro e led
    have unread : value.toInt? = none := by
      cases number : value.toInt? with
      | none => rfl
      | some n => exact absurd (.inr ⟨led, by rw [number]; rfl⟩) not
    rw [setLed, unread]
  unfold setValue
  split
  · exact refused _ (by simp [*])
  · split
    · exact refused _ (by simp [*])
    · split
      · exact refused _ (by simp [*])
      · split
        · exact absurd (.inl ‹_›) not
        · rfl

open VirtualNetwork in
/-- A command sets an LED or the state of a remote, itself or through virtual elements. -/
def Op.Drives (w : World) (r : Nat) : Op → Prop
  | patch (.fastTriggerRemote _ e _) => e = .led ∧ r ∈ w.remotes
  | addGroup name =>
      ¬(w.json .virtualNet).contains name ∧ (' ' : QChar) ∉ chosenName w name "Group" ∧
        r ∈ w.linkedRemotes (chosenName w name "Group")
  | addVirtualRemote name =>
      ¬(w.json .virtualNet).contains name ∧ (' ' : QChar) ∉ chosenName w name "Remote" ∧
        r ∈ w.linkedRemotes (chosenName w name "Remote")
  | autoGenerateRemote =>
      ∃ r' ∈ w.remotes, ∃ vName : QString, ¬w.Entry .virtualNet vName ∧
        (vName = w.remoteName r' ∨ w.remoteName r' = "") ∧ (' ' : QChar) ∉ vName ∧
          r ∈ w.linkedRemotes vName
  | setGroup name key value =>
      ∃ g, groupByName w name = some g ∧ VirtualGroup.Grows w g key value ∧
        r ∈ VirtualGroup.firstRemote w g
  | setVirtualRemote path key value =>
      ∃ v, path.find w = some v ∧ VirtualRemote.Passed key value ∧ r ∈ VirtualRemote.target w v
  | setRemote name key value => RemoteList.byName w name = some r ∧ Remote.Sent key value
  | callLed name value => RemoteList.byName w name = some r ∧ (value.toInt?).isSome
  | _ => False

/-- No remote is driven which would be dropped. -/
def Op.Quiet (w : World) (op : Op) : Prop := ∀ r, op.Drives w r → ¬w.Drops r

namespace World

/-- The remotes which a command may look for. -/
def driven (w : World) (op : Op) : Set Nat := { r | op.Drives w r ∨ w.isReal r = false }

theorem quiet_driven {op : Op} (quiet : op.Quiet w) : (w.scope none (w.driven op)).Quiet w := by
  rintro r (drives | emulated) drops
  · exact quiet r drives drops
  · have real := drops.gone.isReal
    rw [emulated] at real
    cases real

theorem Stable.of_chain {op : Op} (chain : Deeds (w.scope none (w.driven op)) w w') :
    Stable (op.Quiet w) w w' :=
  .of_deeds chain (fun p => within_scope p) quiet_driven

theorem Stable.of_acts {op : Op} (acts : Acts (w.scope none (w.driven op)) w w') :
    Stable (op.Quiet w) w w' :=
  .of_chain (.of_acts acts)

theorem holdsGroup_scope {e? : Option NodeRef} {D : Set Nat} {g : Nat} (inside : g ∈ w.vGroups) :
    (w.scope e? D).HoldsGroup g := by
  have child : NodeRef.group g ∈ w.children .virtualNet ∨ e? = some (.group g) :=
    .inl (mem_children_virtualNet.mpr inside)
  exact ⟨mem_scope rfl child, fun n => ⟨mem_scope (c := .group g) rfl child,
    fun b => mem_scope (c := .group g) rfl child⟩⟩

/-- The events of a virtual remote which exists are in the scope. -/
theorem event_scope (h : w.WellFormed) {e? : Option NodeRef} {D : Set Nat} {v : VRef}
    (live : w.Live v) (b : Button) : .event v b ∈ (w.scope e? D).nodes := by
  rcases live with ⟨n, inside, rfl⟩ | ⟨g, inside, member⟩
  · exact mem_scope (c := .vRemote (.free n)) rfl (.inl (mem_children_virtualNet.mpr inside))
  · obtain ⟨global, avatars, ok⟩ := h.groups g inside
    obtain ⟨n, -, rfl⟩ := ok.member_iff.mp member
    exact mem_scope (c := .group g) rfl (.inl (mem_children_virtualNet.mpr inside))

theorem acts_tick {S : Scope} (i : Nat) : Acts S w (w.tick i).2 := by
  unfold tick
  split
  · exact .refl S w
  · rename_i y found
    refine .aside ⟨rfl, rfl, rfl, rfl, rfl, rfl, rfl, rfl, fun _ => id, fun x heard => ?_⟩
    have addr : y.tick.2.addr = y.addr := by
      unfold XBeeRemote.tick
      split <;> rfl
    obtain ⟨j, here⟩ := List.mem_iff_getElem?.mp heard
    by_cases same : i = j
    · subst same
      cases found.symm.trans here
      exact ⟨y.tick.2, List.mem_set (List.getElem?_eq_some_iff.mp found).1 _, addr⟩
    · refine ⟨x, List.mem_iff_getElem?.mpr ⟨j, ?_⟩, rfl⟩
      rw [List.getElem?_set_ne same]
      exact here

theorem firstRemote_subset {g r : Nat} (first : r ∈ VirtualGroup.firstRemote w g) :
    r ∈ w.remotes := by
  unfold VirtualGroup.firstRemote at first
  split at first
  · cases first
  · exact (RemoteList.byName_eq_some (Option.mem_toList.mp first)).1

theorem Stable.always {Q : Prop} (stable : Stable True w w') : Stable Q w w' :=
  ⟨stable.listed, stable.net, fun _ => stable.remotes trivial⟩

end World

namespace Op

theorem on_stable {α : Type} {object : Option α} {f : α → Except Fault World} {Q : Prop}
    (h : ∀ a, object = some a → Ends (fun _ => True) (f a) (Stable Q w)) :
    Ends (fun _ => True) (on object w f) (Stable Q w) := by
  cases object with
  | none => exact .refl Q w
  | some a => exact h a rfl

/-- The calls of the patch are chains of acts. -/
theorem acts_patch {S : Scope} (covers : S.Covers w) (op : PatchOp)
    (drives : ∀ rName v, op = .fastTriggerRemote rName .led v → ∀ r ∈ w.remotes, S.Drives r) :
    Ends (fun _ => True) (op.perform w) (Acts S w) := by
  cases op with
  | connect rName vName => exact (PatchNode.acts_addLink covers rName vName).map
  | disconnect rName vName => exact (PatchNode.acts_removeLink covers rName vName).map
  | disconnectRemote rName => exact (PatchNode.acts_removeRemoteLinks covers rName).map
  | disconnectVirtual vName => exact (PatchNode.acts_removeVirtualLinks covers vName).map
  | parseArray name value => exact (PatchNode.acts_parseArray covers name value).map
  | fastTriggerRemote rName e v =>
      refine PatchNode.acts_fastTriggerRemote covers rName (fun led => ?_) v
      subst led
      exact drives rName v rfl
  | remoteList vName =>
      exact ((PatchNode.remoteList_ends vName).mono_err fun _ _ => trivial).mono
        (fun p same => same ▸ .refl S w) |>.map

theorem patch_stable (h : w.WellFormed) (op : PatchOp) :
    Ends (fun _ => True) (op.perform w) (Stable ((patch op).Quiet w) w) := by
  have covers := h.covers_scope none (w.driven (.patch op))
  refine (acts_patch covers op fun rName v same r inside => ?_).mono fun _ acts => Stable.of_acts acts
  subst same
  exact drives_scope inside (.inl ⟨rfl, inside⟩)

/-- Step lemma. -/
theorem perform_stable (h : w.WellFormed) (listed : w.RemotesListed) (op : Op) :
    Ends (fun _ => True) (op.perform w) (Stable (op.Quiet w) w) := by
  have covers := h.covers_scope none (w.driven op)
  have remotes : ∀ {name r}, RemoteList.byName w name = some r → r ∈ w.remotes :=
    fun found => (RemoteList.byName_eq_some found).1
  cases op with
  | patch op => exact patch_stable h op
  | addGroup name =>
      apply Ends.map
      apply VirtualNetwork.addGroup_stable h.toRegistered listed
      exact fun quiet free r solid linked => quiet r ⟨free, solid, linked⟩
  | removeGroup name =>
      rw [perform, VirtualNetwork.removeGroup]
      cases found : VirtualNetwork.groupByName w name with
      | none => exact .refl _ w
      | some g =>
          have inside := (VirtualNetwork.groupByName_eq_some found).1
          have child : NodeRef.group g ∈ w.children .virtualNet := mem_children_virtualNet.mpr inside
          exact (Stable.leave child (children_erase_group inside)).always
  | renameGroup name newName =>
      apply on_stable
      intro g found
      have inside := (VirtualNetwork.groupByName_eq_some found).1
      exact (Stable.rename (e := .group g) (mem_children_virtualNet.mpr inside) newName).always
  | setGroup name key value =>
      apply on_stable
      intro g found
      have inside := (VirtualNetwork.groupByName_eq_some found).1
      obtain ⟨global, avatars, ok⟩ := h.groups g inside
      have nodes : (w.scope none (w.driven (setGroup name key value))).HoldsGroup g :=
        holdsGroup_scope inside
      have chain := VirtualGroup.deeds_setValue nodes listed ok inside fun grows r first =>
        drives_scope (firstRemote_subset first) (.inl ⟨g, found, grows, first⟩)
      exact (chain.mono fun p done => Stable.of_chain done).map
  | addVirtualRemote name =>
      apply Ends.map
      apply (VirtualNetwork.addRemote_stable h.toRegistered listed name ?_).mono
      · exact fun p done => done.1
      · exact fun quiet free r solid linked => quiet r ⟨free, solid, linked⟩
  | removeVirtualRemote name =>
      rw [perform, VirtualNetwork.removeRemote]
      cases found : VirtualNetwork.remoteByName w name with
      | none => exact .refl _ w
      | some n =>
          have inside := (VirtualNetwork.remoteByName_eq_some found).1
          have child : NodeRef.vRemote (.free n) ∈ w.children .virtualNet :=
            mem_children_virtualNet.mpr inside
          exact (Stable.leave child (children_erase_free n)).always
  | renameVirtualRemote name newName =>
      apply on_stable
      intro n found
      have inside := (VirtualNetwork.remoteByName_eq_some found).1
      exact (Stable.rename (e := .vRemote (.free n)) (mem_children_virtualNet.mpr inside)
        newName).always
  | setVirtualRemote path key value =>
      apply on_stable
      intro v found
      have node := covers.vRemotes v (VPath.live found)
      have acts := VirtualRemote.acts_setValue node fun passed r told =>
        drives_scope (VirtualRemote.target_subset told) (.inl ⟨v, found, passed, told⟩)
      exact (acts.mono fun p done => Stable.of_acts done).map
  | autoGenerateRemote =>
      apply VirtualNetwork.autoGenerateRemote_stable h listed
      exact fun quiet r' inside vName free named solid r linked =>
        quiet r ⟨r', inside, vName, free, named, solid, linked⟩
  | addEvent path b definition trigger =>
      apply on_stable
      intro v found
      exact Stable.of_acts (Event.acts_addEvent (event_scope h (VPath.live found) b) definition trigger)
  | removeEvent path b definition trigger =>
      apply on_stable
      intro v found
      exact Stable.of_acts
        (Event.acts_removeEvent (event_scope h (VPath.live found) b) definition trigger)
  | addRemote address =>
      exact ((RemoteList.addRemote_stable h listed address).mono fun p stable => stable.always).map
  | removeRemote address =>
      rw [perform, RemoteList.removeRemote]
      cases found : w.remotes.find? fun r => RemoteList.macOf w r = address with
      | none => exact .refl _ w
      | some r => exact (Stable.drop (List.mem_of_find?_eq_some found)).always
  | emulateRemote name osc ipPort =>
      exact ((RemoteList.emulateRemote_stable h listed name osc ipPort).mono
        fun p stable => stable.always).map
  | removeEmulatedRemote name =>
      rw [perform, RemoteList.removeEmulatedRemote]
      cases found : RemoteList.byName w name with
      | none => exact .refl _ w
      | some r =>
          dsimp only
          split
          · exact .refl _ w
          · exact (Stable.drop (remotes found)).always
  | renameRemote name newName =>
      apply on_stable
      intro r found
      exact (Stable.rename (e := .remote r) (mem_children_remoteList.mpr ⟨r, remotes found, rfl⟩)
        newName).always
  | setRemote name key value =>
      apply on_stable
      intro r found
      apply Ends.map
      have acts : r ∈ w.driven (setRemote name key value) → Ends (fun _ => True)
          (Remote.set w r key value) fun p => Stable ((setRemote name key value).Quiet w) w p.2 :=
        fun driven => (Remote.acts_set covers (drives_scope (remotes found) driven) key value).mono
          fun p done => Stable.of_acts done
      cases real : w.isReal r with
      | false => exact acts (.inr real)
      | true =>
          by_cases sent : Remote.Sent key value
          · exact acts (.inl ⟨found, sent⟩)
          · rw [Remote.set, if_pos real]
            show Stable _ w (Remote.setValue w r key value).2
            rw [Remote.setValue_of_not_sent sent]
            exact .refl _ w
  | callLed name value =>
      apply on_stable
      intro r found
      cases number : value.toInt? with
      | none =>
          rw [Remote.callLed, number]
          exact .refl _ w
      | some n =>
          have driven : r ∈ w.driven (callLed name value) := .inl ⟨found, by rw [number]; rfl⟩
          exact Stable.of_acts (Remote.acts_callLed (drives_scope (remotes found) driven) value)
  | setButtonState name b pressed =>
      apply on_stable
      intro r found
      have inside : .remote r ∈ (w.scope none (w.driven (setButtonState name b pressed))).nodes :=
        mem_scope (c := .remote r) rfl (.inl (mem_children_remoteList.mpr ⟨r, remotes found, rfl⟩))
      exact (Remote.acts_setButtonState covers inside b pressed).mono fun _ acts => Stable.of_acts acts
  | discover addr =>
      refine Stable.of_acts (.aside ⟨rfl, rfl, rfl, rfl, rfl, rfl, rfl, rfl, fun _ => id, ?_⟩)
      exact fun x heard => ⟨x, List.mem_append_left _ heard, rfl⟩
  | tick i =>
      exact Stable.of_acts (acts_tick i)

end Op

/-! ## Runs -/

namespace World

/-- What holds of the containers between two commands. -/
structure Orderly (w : World) : Prop extends w.Sound where
  listed : w.RemotesListed
  net : w.InOrder .virtualNet

/-- Step lemma. -/
theorem Orderly.perform (h : w.Orderly) (op : Op) : Ends (fun _ => True) (op.perform w) fun w' =>
    w'.Orderly ∧ (op.Quiet w → w.InOrder .remoteList → w'.InOrder .remoteList) := by
  have sound := h.toSound.perform op
  have stable := op.perform_stable h.wellFormed h.listed
  apply (sound.and stable).mono
  rintro w' ⟨⟨sound', -⟩, stable⟩
  exact ⟨⟨sound', stable.listed h.listed, stable.net h.net⟩, stable.remotes⟩

theorem not_entry_initial {p : NodeRef} (container : IsContainer p) (mutex : MutexState)
    (accepts : QString → Option Bool) (k : QString) : ¬(initial mutex accepts).Entry p k := by
  rintro ⟨o, found⟩
  rcases container with rfl | rfl <;> cases found

theorem orderly_initial (mutex : MutexState) (accepts : QString → Option Bool) :
    (initial mutex accepts).Orderly where
  toSound := sound_initial mutex accepts
  listed := ⟨.nil _ _, nofun⟩
  net := .nil _ (not_entry_initial (.inr rfl) mutex accepts)

theorem inOrder_initial (mutex : MutexState) (accepts : QString → Option Bool) :
    (initial mutex accepts).InOrder .remoteList :=
  .nil _ (not_entry_initial (.inl rfl) mutex accepts)

/-- Run lemma. -/
theorem Orderly.reaches {ops : List Op} (h : w.Orderly) (reached : Runs.Reaches Op.perform w ops w') :
    w'.Orderly :=
  reached.always h fun _ op _ h first => ((h.perform op).of_ok first).1

theorem Reachable.orderly {mutex : MutexState} (h : w.Reachable mutex) : w.Orderly := by
  obtain ⟨accepts, ops, run⟩ := h
  exact (orderly_initial mutex accepts).reaches (.of_run run)

theorem InOrder.reaches {ops : List Op} (order : w.InOrder .remoteList) (h : w.Orderly)
    (quiet : Runs.Throughout Op.perform (fun w op => op.Quiet w) w ops)
    (reached : Runs.Reaches Op.perform w ops w') : w'.InOrder .remoteList := by
  have both : w'.Orderly ∧ w'.InOrder .remoteList := by
    refine reached.invariant (I := fun w => w.Orderly ∧ w.InOrder .remoteList) ⟨h, order⟩ quiet ?_
    intro w op w' inside quiet first
    have done := (inside.1.perform op).of_ok first
    exact ⟨done.1, done.2 quiet inside.2⟩
  exact both.2

/-- The own list of a container, its child nodes and its JSON agree. -/
def ViewsAgree (w : World) (p : NodeRef) : Prop :=
  ThreeViews ((w.children p).map w.nameOf) ((w.subnodes p).map w.nameOf) (w.json p)

/-- The virtual elements are in three views which agree, whatever the run. So are the remotes
    while no command of the run sets an LED or the state of a remote which is not on the radio,
    and the ports exactly when none is opened under the name of another one. -/
theorem views_agree (mutex : MutexState) (accepts : QString → Option Bool) (ops : List Op)
    (portsName : Bool → QStringList) (keyboard : QStringList → Option Bool)
    (inEvents : EventRef → Bool) (midiOps : List MidiOp) :
    (∀ w, Runs.Reaches Op.perform (initial mutex accepts) ops w → w.ViewsAgree .virtualNet ∧
      (Runs.Throughout Op.perform (fun w op => op.Quiet w) (initial mutex accepts) ops →
        w.ViewsAgree .remoteList)) ∧
    ((∀ m, Runs.Reaches MidiOp.perform (Midi.start portsName keyboard inEvents) midiOps m →
      m.ViewsAgree) ↔
      Runs.Throughout MidiOp.perform (fun m op => ¬op.Doubles m)
        (Midi.start portsName keyboard inEvents) midiOps) := by
  have orderly := orderly_initial mutex accepts
  refine ⟨fun w reached => ⟨?_, fun quiet => ?_⟩, ?_⟩
  · exact Complete.threeViews (orderly.reaches reached).net
  · exact Complete.threeViews ((inOrder_initial mutex accepts).reaches orderly quiet reached)
  · exact Midi.viewsAgree_run_iff portsName keyboard inEvents midiOps

theorem views_agree_renamed :
    Ends (fun _ => False) ((initial .free fun _ => none).run
      [.addRemote "1", .renameRemote "Remote1" "Stage"]) fun w =>
        w.ViewsAgree .virtualNet ∧ w.ViewsAgree .remoteList := by
  have run : Ends (fun _ => False) ((initial .free fun _ => none).run
      [.addRemote "1", .renameRemote "Remote1" "Stage"]) fun _ => True := by
    decide
  obtain ⟨w, ended, -⟩ := ends_total.mp run
  rw [ended]
  have views := (views_agree .free (fun _ => none) _ (fun _ => []) (fun _ => none) (fun _ => false)
    []).1 w (.of_run ended)
  exact ⟨views.1, views.2 ⟨fun _ => False.elim, fun _ _ => ⟨fun _ => False.elim, fun _ _ => trivial⟩⟩⟩

/-- A remote which is not on the radio is removed when its LED is set, and its JSON stays. -/
theorem not_views_agree :
    ¬∀ (mutex : MutexState) (accepts : QString → Option Bool) (ops : List Op) (w : World),
      Runs.Reaches Op.perform (initial mutex accepts) ops w →
        w.ViewsAgree .remoteList ∧ w.ViewsAgree .virtualNet := by
  intro all
  have run : Ends (fun _ => False) ((initial .free fun _ => none).run
      [.addRemote "1", .setRemote "Remote1" "LED1" "5"]) fun w =>
        w.remotes = [] ∧ ((w.json .remoteList).value "Remote1").any QJsonValue.isObject = true := by
    decide
  obtain ⟨w, ended, gone, left⟩ := ends_total.mp run
  obtain ⟨v, found, isObject⟩ := (Option.any_eq_true _ _).mp left
  have entry : (w.json .remoteList).HasObject "Remote1" := by
    cases v with
    | object o => exact ⟨o, found⟩
    | null | bool b | double d | string s | array a => cases isObject
  have views := (all _ _ _ w (.of_run ended)).1
  have member := (views.objects "Remote1").mp entry
  simp [children, gone] at member

end World

end VoxPopuli
