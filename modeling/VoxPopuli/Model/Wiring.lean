import VoxPopuli.Model.Outbound
import VoxPopuli.Model.Views

/-! # Wiring and names

Everything which connects the remotes with the virtual elements goes by name: the patch, the
slaves of the groups and the lookups. A rename changes the name of one object and leaves the
copies of it as they are, so the connections stay as they were exactly when the patch and the
slaves do not tell the old name from the new one.
-/

namespace VoxPopuli

open World

variable {w w' : World}

namespace World

/-! ## What is connected -/

/-- The remotes which the slaves of a group name. -/
def slaveObjects (w : World) (g : Nat) : List Nat := (w.slaves g).filterMap (RemoteList.byName w)

/-- The virtual elements which a button of a remote triggers. -/
def reached (w : World) (r : Nat) : List Element :=
  (w.patch.virtualsOf (w.remoteName r)).filterMap (VirtualNetwork.elementByName w)

/-- The connections are between the same objects. -/
structure SameWiring (w w' : World) : Prop where
  patched : ∀ v, w.Live v → ∀ r, r ∈ VirtualRemote.target w' v ↔ r ∈ VirtualRemote.target w v
  slaves : ∀ g ∈ w.vGroups, ∀ r, r ∈ w'.slaveObjects g ↔ r ∈ w.slaveObjects g
  reached : ∀ r ∈ w.remotes, ∀ e, e ∈ w'.reached r ↔ e ∈ w.reached r

end World

def Element.node : Element → NodeRef
  | .group g => .group g
  | .vRemote n => .vRemote (.free n)

namespace World

section

variable (listed : w.RemotesListed)

include listed

theorem byName_iff {name : QString} {r : Nat} :
    RemoteList.byName w name = some r ↔ r ∈ w.remotes ∧ w.remoteName r = name := by
  refine ⟨RemoteList.byName_eq_some, ?_⟩
  rintro ⟨inside, rfl⟩
  exact RemoteList.byName_remoteName listed inside

theorem mem_filterMap_byName {names : QStringList} {r : Nat} :
    r ∈ names.filterMap (RemoteList.byName w) ↔ r ∈ w.remotes ∧ w.remoteName r ∈ names := by
  rw [List.mem_filterMap]
  constructor
  · rintro ⟨name, member, found⟩
    obtain ⟨inside, rfl⟩ := (byName_iff listed).mp found
    exact ⟨inside, member⟩
  · rintro ⟨inside, member⟩
    exact ⟨_, member, (byName_iff listed).mpr ⟨inside, rfl⟩⟩

theorem mem_firstSlave {g r : Nat} : r ∈ w.firstSlave g ↔
    r ∈ w.remotes ∧ VirtualGroup.slave w g 0 ≠ "" ∧ w.remoteName r = VirtualGroup.slave w g 0 := by
  unfold firstSlave
  dsimp only
  split
  · rename_i empty
    rw [List.isEmpty_iff] at empty
    refine iff_of_false List.not_mem_nil fun h => h.2.1 ?_
    rw [empty]
    rfl
  · rename_i named
    rw [Option.mem_toList, byName_iff listed]
    refine and_congr_right fun _ => (and_iff_right ?_).symm
    intro empty
    rw [empty] at named
    exact named rfl

end

section

variable (h : w.Registered)

include h

theorem groupByName_iff {name : QString} {g : Nat} :
    VirtualNetwork.groupByName w name = some g ↔ g ∈ w.vGroups ∧ w.groupName g = name := by
  refine ⟨VirtualNetwork.groupByName_eq_some, ?_⟩
  rintro ⟨inside, rfl⟩
  cases found : VirtualNetwork.groupByName w (w.groupName g) with
  | none =>
      have other := List.find?_eq_none.mp found g inside
      simp at other
  | some g' =>
      obtain ⟨inside', same⟩ := VirtualNetwork.groupByName_eq_some found
      cases h.names (.group g') (.group g) inside' inside same
      rfl

theorem remoteByName_iff {name : QString} {n : Nat} :
    VirtualNetwork.remoteByName w name = some n ↔ n ∈ w.vRemotes ∧ w.vRemoteName (.free n) = name := by
  refine ⟨VirtualNetwork.remoteByName_eq_some, ?_⟩
  rintro ⟨inside, rfl⟩
  cases found : VirtualNetwork.remoteByName w (w.vRemoteName (.free n)) with
  | none =>
      have other := List.find?_eq_none.mp found n inside
      simp at other
  | some n' =>
      obtain ⟨inside', same⟩ := VirtualNetwork.remoteByName_eq_some found
      cases h.names (.vRemote (.free n')) (.vRemote (.free n)) inside' inside same
      rfl

/-- The element of a name is the one which has it. -/
theorem elementByName_iff {vName : QString} {e : Element} :
    VirtualNetwork.elementByName w vName = some e ↔ w.IsElement e.node ∧ w.nameOf e.node = vName := by
  constructor
  · intro found
    have named := VirtualNetwork.elementByName_eq_some found
    cases e with
    | group g => exact named
    | vRemote n => exact named
  · rintro ⟨inside, named⟩
    unfold VirtualNetwork.elementByName
    cases e with
    | group g => rw [(groupByName_iff h).mpr ⟨inside, named⟩]
    | vRemote n =>
        rw [(remoteByName_iff h).mpr ⟨inside, named⟩]
        cases found : VirtualNetwork.groupByName w vName with
        | none => rfl
        | some g =>
            obtain ⟨inside', same⟩ := VirtualNetwork.groupByName_eq_some found
            cases h.names (.group g) (.vRemote (.free n)) inside' inside (same.trans named.symm)

theorem mem_reached (agree : w.patch.Consistent) {r : Nat} {e : Element} :
    e ∈ w.reached r ↔ w.IsElement e.node ∧ w.remoteName r ∈ w.patch.remotesOf (w.nameOf e.node) := by
  unfold reached
  rw [List.mem_filterMap]
  constructor
  · rintro ⟨vName, member, found⟩
    obtain ⟨inside, rfl⟩ := (elementByName_iff h).mp found
    exact ⟨inside, (agree.mem_iff _ _).mp member⟩
  · rintro ⟨inside, member⟩
    exact ⟨_, (agree.mem_iff _ _).mpr member, (elementByName_iff h).mpr ⟨inside, rfl⟩⟩

end

theorem GroupOk.target_global {g global : Nat} {avatars : List Nat} (ok : w.GroupOk g global avatars) :
    VirtualRemote.target w (.member g global) = w.linkedRemotes (w.groupName g) := by
  rw [VirtualRemote.target, ok.globalName, if_pos (by decide)]

theorem GroupOk.target_avatar {g global : Nat} {avatars : List Nat} (ok : w.GroupOk g global avatars)
    {v : VRef} (avatar : some v ∈ w.virtualRemotes g) : VirtualRemote.target w v = w.firstSlave g := by
  obtain ⟨n, member, rfl, other⟩ := ok.exists_avatar avatar
  have unset := ok.otherID n member
  rw [VirtualRemote.target, if_neg other, unset]
  rfl

/-! ## The same objects under other names -/

/-- The objects and what goes by name are the same; the names may differ. -/
structure SameObjects (w w' : World) : Prop where
  remotes : w'.remotes = w.remotes
  vRemotes : w'.vRemotes = w.vRemotes
  vGroups : w'.vGroups = w.vGroups
  globalRemote : w'.globalRemote = w.globalRemote
  virtualRemotes : w'.virtualRemotes = w.virtualRemotes
  patch : w'.patch = w.patch
  slaves : w'.slaves = w.slaves

/-- The patch has the same links for a remote and an element. -/
def SameLink (w w' : World) (r : Nat) (e : NodeRef) : Prop :=
  w'.remoteName r ∈ w.patch.remotesOf (w'.nameOf e) ↔ w.remoteName r ∈ w.patch.remotesOf (w.nameOf e)

/-- The group has the remote among its slaves as before, and its avatars find it as before. -/
structure SameSlave (w w' : World) (r g : Nat) : Prop where
  listed : w'.remoteName r ∈ w.slaves g ↔ w.remoteName r ∈ w.slaves g
  first : w.virtualRemotes g ≠ [] → VirtualGroup.slave w g 0 ≠ "" →
    (w'.remoteName r = VirtualGroup.slave w g 0 ↔ w.remoteName r = VirtualGroup.slave w g 0)

theorem sameWiring_iff (h : w.Orderly) (h' : w'.Orderly) (same : SameObjects w w') :
    SameWiring w w' ↔ (∀ r ∈ w.remotes, ∀ e, w.IsElement e → SameLink w w' r e) ∧
      ∀ r ∈ w.remotes, ∀ g ∈ w.vGroups, SameSlave w w' r g := by
  have registered := h.wellFormed.toRegistered
  have registered' := h'.wellFormed.toRegistered
  have elements : ∀ e, w'.IsElement e ↔ w.IsElement e := by
    intro e
    unfold IsElement
    rw [same.vRemotes, same.vGroups]
  have first : ∀ g, VirtualGroup.slave w' g 0 = VirtualGroup.slave w g 0 := by
    intro g
    unfold VirtualGroup.slave
    rw [same.slaves]
  have linked : ∀ r vName, r ∈ w.linkedRemotes vName ↔
      r ∈ w.remotes ∧ w.remoteName r ∈ w.patch.remotesOf vName :=
    fun r vName => mem_filterMap_byName h.listed
  have linked' : ∀ r vName, r ∈ w'.linkedRemotes vName ↔
      r ∈ w.remotes ∧ w'.remoteName r ∈ w.patch.remotesOf vName := by
    intro r vName
    unfold linkedRemotes
    rw [mem_filterMap_byName h'.listed, same.remotes, same.patch]
  constructor
  · intro wiring
    refine ⟨fun r inside e element => ?_, fun r inside g group => ⟨?_, fun avatars named => ?_⟩⟩
    · have reached : ∀ x : Element, x.node = e → SameLink w w' r e := by
        rintro x rfl
        have both := wiring.reached r inside x
        rw [mem_reached registered' h'.agree, mem_reached registered h.agree, elements,
          same.patch] at both
        exact ⟨fun link => (both.mp ⟨element, link⟩).2, fun link => (both.mpr ⟨element, link⟩).2⟩
      obtain ⟨g, -, rfl⟩ | ⟨n, -, rfl⟩ := element.node
      · exact reached (.group g) rfl
      · exact reached (.vRemote n) rfl
    · have both := wiring.slaves g group r
      unfold slaveObjects at both
      rw [mem_filterMap_byName h'.listed, mem_filterMap_byName h.listed, same.remotes,
        same.slaves] at both
      exact ⟨fun slave => (both.mp ⟨inside, slave⟩).2, fun slave => (both.mpr ⟨inside, slave⟩).2⟩
    · obtain ⟨global, avatars', ok⟩ := h.wellFormed.groups g group
      obtain ⟨global', avatars'', ok'⟩ := h'.wellFormed.groups g (same.vGroups ▸ group)
      obtain ⟨v, avatar⟩ : ∃ v, some v ∈ w.virtualRemotes g := by
        have some : avatars' ≠ [] := by
          rintro rfl
          exact avatars ok.virtualRemotes
        obtain ⟨n, rest, rfl⟩ := List.exists_cons_of_ne_nil some
        refine ⟨.member g n, ?_⟩
        rw [ok.virtualRemotes]
        exact List.mem_cons_self
      have both := wiring.patched v (.of_member group (.inr avatar)) r
      rw [ok.target_avatar avatar, ok'.target_avatar (same.virtualRemotes ▸ avatar),
        mem_firstSlave h'.listed, mem_firstSlave h.listed, same.remotes, first] at both
      constructor
      · exact fun own => (both.mp ⟨inside, named, own⟩).2.2
      · exact fun own => (both.mpr ⟨inside, named, own⟩).2.2
  · rintro ⟨links, slaves⟩
    refine ⟨fun v live r => ?_, fun g group r => ?_, fun r inside e => ?_⟩
    · rcases live with ⟨n, remote, rfl⟩ | ⟨g, group, global | avatar⟩
      · simp only [VirtualRemote.target, linked, linked']
        exact and_congr_right fun inside => links r inside (.vRemote (.free n)) remote
      · obtain ⟨global', avatars, ok⟩ := h.wellFormed.groups g group
        obtain ⟨global'', avatars', ok'⟩ := h'.wellFormed.groups g (same.vGroups ▸ group)
        cases ok.globalRemote.symm.trans global
        have again := ok'.globalRemote
        rw [same.globalRemote, ok.globalRemote] at again
        cases again
        rw [ok.target_global, ok'.target_global, linked, linked']
        exact and_congr_right fun inside => links r inside (.group g) group
      · obtain ⟨global', avatars, ok⟩ := h.wellFormed.groups g group
        obtain ⟨global'', avatars', ok'⟩ := h'.wellFormed.groups g (same.vGroups ▸ group)
        rw [ok.target_avatar avatar, ok'.target_avatar (same.virtualRemotes ▸ avatar),
          mem_firstSlave h'.listed, mem_firstSlave h.listed, same.remotes, first]
        refine and_congr_right fun inside => and_congr_right fun named => ?_
        exact (slaves r inside g group).first (List.ne_nil_of_mem avatar) named
    · unfold slaveObjects
      rw [mem_filterMap_byName h'.listed, mem_filterMap_byName h.listed, same.remotes, same.slaves]
      exact and_congr_right fun inside => (slaves r inside g group).listed
    · rw [mem_reached registered' h'.agree, mem_reached registered h.agree, elements, same.patch]
      exact and_congr_right fun element => links r inside e.node element

/-! ## Renames -/

/-- A rename can be made by a command. -/
theorem rename_perform (h : w.Orderly) {p e : NodeRef} (inside : e ∈ w.children p)
    (name : QString) : ∃ op : Op, op.perform w = .ok (w.rename e name).2 := by
  have registered := h.wellFormed.toRegistered
  have container : p = .remoteList ∨ p = .virtualNet := by
    cases p with
    | remoteList => exact .inl rfl
    | virtualNet => exact .inr rfl
    | network | patch | eventModel | remote r | vRemote v | group g | event v b => cases inside
  rcases container with rfl | rfl
  · obtain ⟨r, listed, rfl⟩ := mem_children_remoteList.mp inside
    have found := RemoteList.byName_remoteName h.listed listed
    exact ⟨.renameRemote (w.remoteName r) name, by rw [Op.perform, found]; rfl⟩
  · obtain ⟨g, element, rfl⟩ | ⟨n, element, rfl⟩ := (mem_children_virtualNet.mp inside).node
    · have found := (groupByName_iff registered).mpr ⟨element, rfl⟩
      exact ⟨.renameGroup (w.groupName g) name, by rw [Op.perform, found]; rfl⟩
    · have found := (remoteByName_iff registered).mpr ⟨element, rfl⟩
      exact ⟨.renameVirtualRemote (w.vRemoteName (.free n)) name, by rw [Op.perform, found]; rfl⟩

theorem rename_sameObjects {p e : NodeRef} (inside : e ∈ w.children p) (name : QString) :
    SameObjects w (w.rename e name).2 := by
  have mirrored : ∀ w₁ : World, SameObjects w w₁ → SameObjects w (w₁.updateParentJSon e) := by
    intro w₁ same
    obtain ⟨json, mirror, -⟩ := mirror_frame w₁ e e.ancestors
    rw [updateParentJSon, mirror]
    exact ⟨same.remotes, same.vRemotes, same.vGroups, same.globalRemote, same.virtualRemotes,
      same.patch, same.slaves⟩
  unfold rename
  split
  · exact ⟨rfl, rfl, rfl, rfl, rfl, rfl, rfl⟩
  · split
    · exact ⟨rfl, rfl, rfl, rfl, rfl, rfl, rfl⟩
    · apply mirrored
      cases e <;> exact ⟨rfl, rfl, rfl, rfl, rfl, rfl, rfl⟩

/-- Neither the patch nor the slaves tell the name of a node from another name. -/
def Indifferent (w : World) (e : NodeRef) (name : QString) : Prop :=
  match e with
  | .remote r =>
      (∀ c, w.IsElement c → (name ∈ w.patch.remotesOf (w.nameOf c) ↔
        w.remoteName r ∈ w.patch.remotesOf (w.nameOf c))) ∧
      ∀ g ∈ w.vGroups, (name ∈ w.slaves g ↔ w.remoteName r ∈ w.slaves g) ∧
        (w.virtualRemotes g ≠ [] → VirtualGroup.slave w g 0 ≠ "" →
          VirtualGroup.slave w g 0 ≠ name ∧ VirtualGroup.slave w g 0 ≠ w.remoteName r)
  | e => ∀ r ∈ w.remotes, w.remoteName r ∈ w.patch.remotesOf name ↔
      w.remoteName r ∈ w.patch.remotesOf (w.nameOf e)

section

variable {p e : NodeRef} {name : QString}

/-- Another name of a remote: its links and its place among the slaves are looked for anew. -/
theorem Moved.indifferent_remote {r : Nat} (inside : r ∈ w.remotes)
    (moved : Moved .remoteList (.remote r) name w w') (new : w.remoteName r ≠ name) :
    ((∀ r ∈ w.remotes, ∀ e, w.IsElement e → SameLink w w' r e) ∧
      ∀ r ∈ w.remotes, ∀ g ∈ w.vGroups, SameSlave w w' r g) ↔ w.Indifferent (.remote r) name := by
  have own : w'.remoteName r = name := moved.own
  have other : ∀ r', r' ≠ r → w'.remoteName r' = w.remoteName r' := fun r' differ =>
    moved.names .remoteList (.remote r') rfl fun same => differ (NodeRef.remote.inj same)
  have element : ∀ c, w.IsElement c → w'.nameOf c = w.nameOf c := by
    intro c element
    have held := mem_children_holder (mem_children_virtualNet.mpr element)
    refine moved.names _ c held ?_
    rintro rfl
    cases held
  constructor
  · rintro ⟨links, slaves⟩
    refine ⟨fun c there => ?_, fun g group => ⟨?_, fun avatars named => ?_⟩⟩
    · have same := links r inside c there
      rwa [SameLink, own, element c there] at same
    · have same := (slaves r inside g group).listed
      rwa [own] at same
    · have same := (slaves r inside g group).first avatars named
      rw [own] at same
      constructor
      · exact fun equal => new ((same.mp equal.symm).trans equal)
      · exact fun equal => new (equal.symm.trans (same.mpr equal.symm).symm)
  · rintro ⟨links, slaves⟩
    refine ⟨fun r' _ c there => ?_, fun r' _ g group => ?_⟩
    · rw [SameLink, element c there]
      by_cases same : r' = r
      · rw [same, own]
        exact links c there
      · rw [other r' same]
    · by_cases same : r' = r
      · obtain ⟨listed, first⟩ := slaves g group
        rw [same]
        refine ⟨own.symm ▸ listed, fun avatars named => ?_⟩
        obtain ⟨notNew, notOld⟩ := first avatars named
        rw [own]
        exact iff_of_false (Ne.symm notNew) (Ne.symm notOld)
      · exact ⟨by rw [other r' same], fun _ _ => by rw [other r' same]⟩

/-- Another name of an element: its links are looked for anew. -/
theorem Moved.indifferent_element (element : w.IsElement e) (moved : Moved .virtualNet e name w w') :
    ((∀ r ∈ w.remotes, ∀ c, w.IsElement c → SameLink w w' r c) ∧
      ∀ r ∈ w.remotes, ∀ g ∈ w.vGroups, SameSlave w w' r g) ↔
    ∀ r ∈ w.remotes, w.remoteName r ∈ w.patch.remotesOf name ↔
      w.remoteName r ∈ w.patch.remotesOf (w.nameOf e) := by
  have remote : ∀ r, w'.remoteName r = w.remoteName r := by
    intro r
    refine moved.names .remoteList (.remote r) rfl ?_
    rintro rfl
    exact element
  constructor
  · rintro ⟨links, -⟩ r inside
    have same := links r inside e element
    rwa [SameLink, remote, moved.own] at same
  · intro links
    refine ⟨fun r inside c there => ?_, fun r _ g _ => ⟨by rw [remote], fun _ _ => by rw [remote]⟩⟩
    rw [SameLink, remote]
    by_cases same : c = e
    · rw [same, moved.own]
      exact links r inside
    · rw [moved.names _ c (mem_children_holder (mem_children_virtualNet.mpr there)) same]

end

/-- Of two remotes the first is linked with a virtual remote, and with a group with an avatar. -/
def concert : List Op :=
  [.addRemote "1", .addRemote "2", .addVirtualRemote "Solo", .addGroup "Band",
    .setGroup "Band" "avatarsNbr" "1", .patch (.connect "Remote1" "Solo"),
    .patch (.connect "Remote1" "Band")]

end World

end VoxPopuli
