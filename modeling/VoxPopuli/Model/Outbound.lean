import VoxPopuli.Model.Routing

/-! # What an avatar sends to the remotes

An avatar stands for one slave of its group. Events of the slaves come in by the key
`remoteID` of the avatar, its LED and its state go out by a key `RemoteID` which no avatar
has. A missing key reads as 0, so they always go to the first slave.
-/

namespace VoxPopuli

open World

variable {w w' : World} {g : Nat} {v : VRef}

/-! ## What remotes are told -/

/-- The remote which an observation is an LED event of. -/
def Observation.commanded? : Observation → Option Nat
  | commanded r _ _ => some r
  | _ => none

/-- The remote which an observation sets the state of. -/
def Observation.stateSet? : Observation → Option Nat
  | stateSet r _ => some r
  | _ => none

namespace World

/-- The remotes which have been sent LED events, one after the other. -/
def commanded (w : World) : List Nat := w.log.filterMap Observation.commanded?

/-- The remotes whose state has been set. -/
def stateSets (w : World) : List Nat := w.log.filterMap Observation.stateSet?

theorem log_mirror (w : World) (n : NodeRef) : (w.updateParentJSon n).log = w.log := by
  obtain ⟨json, frame, -⟩ := w.mirror_frame n n.ancestors
  rw [updateParentJSon, frame]

end World

namespace RealRemote

theorem log_remote (w : World) (r : Nat) : (remote w r).2.log = w.log := by
  have drop : ∀ r, (RemoteList.drop w r).log = w.log := fun r => log_mirror _ _
  unfold remote
  split
  · rfl
  · split
    · rfl
    · unfold RemoteList.removeRemote
      split
      · rfl
      · exact drop _

theorem log_safeSendMsg (w : World) (r : Nat) (key : StdString) (type : XBEE_MSG_TYPE)
    (data : HexData) : (safeSendMsg w r key type data).log = w.log := by
  have reached := log_remote w r
  unfold safeSendMsg
  split
  · rename_i w' found
    rwa [found] at reached
  · rename_i i w' found
    rw [found] at reached
    exact reached

end RealRemote

namespace Remote

/-- An LED event is sent to one remote. -/
theorem commanded_triggerLed (w : World) (r : Nat) (v : HexData) :
    (triggerLed w r .led v).2.commanded = w.commanded ++ [r] := by
  have sent : (if (w.observe (.commanded r .led v)).isReal r then
      RealRemote.sendLed (w.observe (.commanded r .led v)) r .led v
      else EmulatedRemote.forwardLed (w.observe (.commanded r .led v)) r .led v).commanded =
        w.commanded ++ [r] := by
    have observed : (w.observe (.commanded r .led v)).commanded = w.commanded ++ [r] := by
      simp [World.commanded, observe, Observation.commanded?]
    rw [← observed]
    split
    · rw [World.commanded, RealRemote.sendLed, RealRemote.log_safeSendMsg, World.commanded]
    · unfold EmulatedRemote.forwardLed
      dsimp only
      split
      · simp [World.commanded, observe, Observation.commanded?]
      · rfl
  have stored : ∀ w : World, (storeLed w r .led v).2.log = w.log := by
    intro w
    exact (log_assign _ _ _ _ _).trans ((log_assign _ _ _ _ _).trans (log_assign _ _ _ _ _))
  unfold triggerLed
  dsimp only
  rw [World.commanded, stored]
  exact sent

theorem stateSets_setState (w : World) (r : Nat) (value : QString) :
    (setState w r value).2.stateSets = w.stateSets ++ [r] := by
  have observed : (w.observe (.stateSet r value)).stateSets = w.stateSets ++ [r] := by
    simp [World.stateSets, observe, Observation.stateSet?]
  have sent : ∀ w : World, (RealRemote.sendState w r value).log = w.log := by
    intro w
    unfold RealRemote.sendState
    split
    · exact RealRemote.log_safeSendMsg _ _ _ _ _
    · split
      · exact RealRemote.log_safeSendMsg _ _ _ _ _
      · exact RealRemote.log_remote w r
  unfold setState
  dsimp only
  rw [← observed, World.stateSets, World.setString, log_assign]
  split
  · rw [sent, World.stateSets]
  · rfl

end Remote

/-! ## Avatars -/

namespace World

/-- The remote which is the slave of a group at a position, if there is one. -/
def slaveAt (w : World) (g : Nat) (i : Int) : List Nat :=
  if 0 ≤ i then ((w.slaves g)[i.toNat]?.bind (RemoteList.byName w)).toList else []

/-- The remote which a group finds for its first slave. -/
def firstSlave (w : World) (g : Nat) : List Nat :=
  let rName := VirtualGroup.slave w g 0
  if rName.isEmpty then [] else (RemoteList.byName w rName).toList

/-- An avatar takes the events of the slave whose position its ID is, and its LED and its
    state go to the remote of that slave and to no other. -/
structure RoutesAvatar (w : World) (g : Nat) (v : VRef) : Prop where
  inbound : ∀ (i : Nat) rName, (w.slaves g)[i]? = some rName → ∀ (b : Button) (pressed : Bool),
    ∃ w' fired, VirtualGroup.fastTrigger w g rName b.event (pressData pressed) = .ok w' ∧
      w'.log = w.log ++ fired ∧ (.fired v b (pressName pressed) ∈ fired ↔ w.idOf v = i)
  led : ∀ (value : QString) n, value.toInt? = some n →
    ∃ q, VirtualRemote.setValue w v "LED" value = .ok q ∧
      q.2.commanded = w.commanded ++ w.slaveAt g (w.idOf v)
  state : ∀ value, ∃ q, VirtualRemote.setValue w v "State" value = .ok q ∧
    q.2.stateSets = w.stateSets ++ w.slaveAt g (w.idOf v)

theorem Event.fired_mem_iff {b : Button} {name : QString} {vs : List VRef} :
    .fired v b name ∈ vs.flatMap (Event.firing w b name) ↔ v ∈ vs := by
  constructor
  · intro member
    have firedBy := List.mem_filterMap.mpr ⟨_, member, (rfl : Observation.firedBy? _ = some v)⟩
    rwa [Event.filterMap_firing] at firedBy
  · exact fun member => List.mem_flatMap.mpr ⟨v, member, List.mem_cons_self⟩

section Avatar

variable {global : Nat} {avatars : List Nat} (ok : w.GroupOk g global avatars)
  (avatar : some v ∈ w.virtualRemotes g)

include ok avatar

theorem GroupOk.exists_avatar : ∃ n ∈ avatars, v = .member g n ∧
    ¬("Global" : QString) <+: w.vRemoteName (.member g n) := by
  rw [ok.virtualRemotes] at avatar
  obtain ⟨n, member, same⟩ := List.mem_map.mp avatar
  refine ⟨n, member, (Option.some.inj same).symm, ?_⟩
  have named := List.mem_map_of_mem (f := fun n => w.vRemoteName (.member g n)) member
  rw [ok.names] at named
  obtain ⟨i, -, name⟩ := List.mem_map.mp named
  rw [← name]
  rintro ⟨rest, starts⟩
  have head := head?_avatarName i
  have other : (("Global" : QString) ++ rest).head? = some ('G' : QChar) := rfl
  rw [← starts, other] at head
  exact absurd head (by decide)

/-- An avatar has no key `RemoteID`, so it finds the first slave. -/
theorem GroupOk.patchedRemotes_avatar :
    VirtualRemote.patchedRemotes w v = .ok (w.firstSlave g, w) := by
  obtain ⟨n, member, rfl, other⟩ := ok.exists_avatar avatar
  have first : (w.get (.vRemote (.member g n)) "RemoteID").toInt = 0 := by
    rw [ok.otherID n member]
    rfl
  rw [VirtualRemote.patchedRemotes, if_neg other]
  dsimp only
  rw [first]
  rfl

theorem GroupOk.led_ends {value : QString} {n : Int} (number : value.toInt? = some n) :
    ∃ q, VirtualRemote.setValue w v "LED" value = .ok q ∧
      q.2.commanded = w.commanded ++ w.firstSlave g := by
  have told : ∀ (l : List Nat) (w : World), (l.foldl (fun w r =>
      (Remote.triggerLed w r .led [Byte.ofInt n]).2) w).commanded = w.commanded ++ l := by
    intro l
    induction l with
    | nil => exact fun w => (List.append_nil _).symm
    | cons r rest ih =>
        intro w
        rw [List.foldl_cons, ih, Remote.commanded_triggerLed, List.append_assoc,
          List.singleton_append]
  have run : VirtualRemote.setValue w v "LED" value = (do
      let q ← VirtualRemote.patchedRemotes w v
      let w := q.1.foldl (fun w r => (Remote.triggerLed w r .led [Byte.ofInt n]).2) q.2
      pure (w.setNumber (.vRemote v) "LED" (HexData.toInt [Byte.ofInt n]))) := by
    rw [VirtualRemote.setValue, if_neg (by decide), if_pos rfl, number]
    simp only [VirtualRemote.fastTrigger, VirtualRemote.sendFastTrigger, if_true, bind_assoc,
      pure_bind]
  rw [run, ok.patchedRemotes_avatar avatar]
  refine ⟨_, rfl, ?_⟩
  rw [commanded, setNumber, log_assign]
  exact told _ w

theorem GroupOk.state_ends (value : QString) :
    ∃ q, VirtualRemote.setValue w v "State" value = .ok q ∧
      q.2.stateSets = w.stateSets ++ w.firstSlave g := by
  have told : ∀ (l : List Nat) (w : World), (l.foldl (fun w r =>
      (Remote.setState w r value).2) w).stateSets = w.stateSets ++ l := by
    intro l
    induction l with
    | nil => exact fun w => (List.append_nil _).symm
    | cons r rest ih =>
        intro w
        rw [List.foldl_cons, ih, Remote.stateSets_setState, List.append_assoc,
          List.singleton_append]
  rw [VirtualRemote.setValue, if_neg (by decide), if_neg (by decide), if_pos rfl,
    ok.patchedRemotes_avatar avatar]
  refine ⟨_, rfl, ?_⟩
  rw [stateSets, setString, log_assign]
  exact told _ w

end Avatar

/-- Events come in from the slave whose position is the ID. -/
theorem WellFormed.inbound (h : w.WellFormed) (inside : g ∈ w.vGroups)
    (avatar : some v ∈ w.virtualRemotes g) {i : Nat} {rName : QString}
    (slave : (w.slaves g)[i]? = some rName) (b : Button) (pressed : Bool) :
    ∃ w' fired, VirtualGroup.fastTrigger w g rName b.event (pressData pressed) = .ok w' ∧
      w'.log = w.log ++ fired ∧ (.fired v b (pressName pressed) ∈ fired ↔ w.idOf v = i) := by
  obtain ⟨global, avatars, ok⟩ := h.groups g inside
  obtain ⟨w', run, logs⟩ := ends_total.mp (VirtualGroup.fastTrigger_button ok (F := w.live)
    (fun v => Live.of_member inside) (fun _ => id) rName b pressed)
  refine ⟨w', _, run, logs.log, ?_⟩
  obtain ⟨bound, same⟩ := List.getElem?_eq_some_iff.mp slave
  have position : (w.slaves g).idxOf rName = i := by
    rw [← same]
    exact List.Nodup.idxOf_getElem (h.slaves g) i bound
  have member : rName ∈ w.slaves g := List.mem_of_getElem? slave
  rw [Event.fired_mem_iff, VirtualGroup.mem_targets, position]
  simp [member, avatar, ok.globalRemote_ne avatar]

/-- An avatar of a reachable group is consistent in both directions exactly when the first
    slave and the slave at its ID stand for the same remote, or neither stands for one. -/
theorem routesAvatar_iff {mutex : MutexState} (reachable : w.Reachable mutex)
    (inside : g ∈ w.vGroups) (avatar : some v ∈ w.virtualRemotes g) :
    w.RoutesAvatar g v ↔ w.firstSlave g = w.slaveAt g (w.idOf v) := by
  have h := reachable.sound.1.wellFormed
  obtain ⟨global, avatars, ok⟩ := h.groups g inside
  constructor
  · intro routes
    obtain ⟨q, run, told⟩ := routes.state "active"
    obtain ⟨q', run', told'⟩ := ok.state_ends avatar "active"
    cases run.symm.trans run'
    exact List.append_cancel_left (told'.symm.trans told)
  · intro same
    refine ⟨fun i rName slave b pressed => h.inbound inside avatar slave b pressed, ?_, ?_⟩
    · intro value n number
      rw [← same]
      exact ok.led_ends avatar number
    · intro value
      rw [← same]
      exact ok.state_ends avatar value

/-- A group with one slave and one avatar, whose ID is -1. -/
def duo : List Op :=
  [.addRemote "1", .addGroup "Duo", .setGroup "Duo" "avatarsNbr" "1",
    .patch (.connect "Remote1" "Duo")]

/-- An avatar which is given the ID of the first slave. -/
theorem routesAvatar_duo :
    Ends (fun _ => False) ((initial .free fun _ => none).run
        (duo ++ [.setVirtualRemote (.avatar "Duo" 0) "remoteID" "0"])) fun w =>
      w.RoutesAvatar 0 (.member 0 2) := by
  have run : Ends (fun _ => False) ((initial .free fun _ => none).run
      (duo ++ [.setVirtualRemote (.avatar "Duo" 0) "remoteID" "0"])) fun w =>
        0 ∈ w.vGroups ∧ some (.member 0 2) ∈ w.virtualRemotes 0 ∧
          w.firstSlave 0 = w.slaveAt 0 (w.idOf (.member 0 2)) := by decide +kernel
  obtain ⟨w, run, inside, avatar, same⟩ := ends_total.mp run
  exact ends_total.mpr ⟨w, run, (routesAvatar_iff ⟨_, _, run⟩ inside avatar).mpr same⟩

/-- The state of a new avatar is sent to the first slave. -/
theorem not_routesAvatar :
    Ends (fun _ => False) ((initial .free fun _ => none).run duo) fun w =>
      0 ∈ w.vGroups ∧ some (.member 0 2) ∈ w.virtualRemotes 0 ∧ w.idOf (.member 0 2) = -1 ∧
        ¬w.RoutesAvatar 0 (.member 0 2) := by
  have run : Ends (fun _ => False) ((initial .free fun _ => none).run duo) fun w =>
      (0 ∈ w.vGroups ∧ some (.member 0 2) ∈ w.virtualRemotes 0 ∧ w.idOf (.member 0 2) = -1) ∧
        Ends (fun _ => False) (VirtualRemote.setValue w (.member 0 2) "State" "active") fun q =>
          q.2.stateSets ≠ w.stateSets ++ w.slaveAt 0 (w.idOf (.member 0 2)) := by
    decide +kernel
  apply run.mono
  rintro w ⟨⟨inside, avatar, id⟩, told⟩
  refine ⟨inside, avatar, id, fun routes => ?_⟩
  obtain ⟨q, set, right⟩ := routes.state "active"
  exact told.of_ok set right

end World

end VoxPopuli
