import VoxPopuli.Model.Elements

/-! # Elements which leave or change their name

An element which is removed takes its name out of the JSON of the virtual network, and
one which is renamed puts the new name in place of the old one. A group which is
renamed is told nothing, so it goes on with the slaves it had.
-/

namespace VoxPopuli

open World

variable {w : World}

/-! ## Elements which leave -/

namespace VirtualNetwork

/-- What is left of the virtual network without one of its elements. -/
theorem leave {e : NodeRef} {vRemotes vGroups : List Nat} (inside : w.IsElement e)
    (remaining : ∀ n, IsElement { w with vRemotes := vRemotes, vGroups := vGroups } n → n ≠ e)
    (fewer : vRemotes.Sublist w.vRemotes) (fewer' : vGroups.Sublist w.vGroups) :
    Stays w (World.removeSubNode { w with vRemotes := vRemotes, vGroups := vGroups } .virtualNet
      e) := by
  have name : World.nameOf { w with vRemotes := vRemotes, vGroups := vGroups } e = w.nameOf e := by
    cases e <;> rfl
  obtain ⟨json, subnodes, same, net, outside⟩ : ∃ json subnodes, World.removeSubNode
      { w with vRemotes := vRemotes, vGroups := vGroups } .virtualNet e =
        { w with vRemotes := vRemotes, vGroups := vGroups, json := json, subnodes := subnodes } ∧
      json .virtualNet = (w.json .virtualNet).remove (w.nameOf e) ∧
      ∀ n, n ≠ .virtualNet → n ≠ .eventModel → json n = w.json n := by
    refine ⟨_, _, rfl, ?_, fun n other other' => ?_⟩
    · simp [setJson, name]
    · simp [setJson, other, other']
  rw [same]
  refine ⟨rfl, rfl, fun h => ⟨?_, ?_⟩, fun _ all g member => ?_⟩
  · refine h.fewer rfl (fun _ => .refl _) fewer' fewer le_rfl (fun n _ => by cases n <;> rfl) ?_
    intro n element there
    have element' : IsElement { w with vRemotes := vRemotes, vGroups := vGroups } n := by
      obtain ⟨g, inside, rfl⟩ | ⟨m, inside, rfl⟩ := element.node
      · exact inside
      · exact inside
    have before : w.IsElement n := by
      obtain ⟨g, inside, rfl⟩ | ⟨m, inside, rfl⟩ := element.node
      · exact fewer'.subset inside
      · exact fewer.subset inside
    have other : w.nameOf n ≠ w.nameOf e := fun named =>
      remaining n element' (h.names n e before inside named)
    change (json .virtualNet).contains (w.nameOf n)
    rw [net, QJsonObject.contains, QJsonObject.value_remove_of_ne _ other]
    exact there
  · intro g member
    obtain ⟨global, avatars, ok⟩ := h.groups g (fewer'.subset member)
    exact ⟨global, avatars, ok.congr rfl rfl (fun _ _ => rfl) le_rfl
      (outside _ (by simp) (by simp)) fun _ _ => outside _ (by simp) (by simp)⟩
  · obtain ⟨slaves, number⟩ := all g (fewer'.subset member)
    refine ⟨slaves, ?_⟩
    change (json (.group g)).value "slavesNbr" = some (.double (w.slaves g).length)
    rw [outside _ (by simp) (by simp)]
    exact number

theorem removeRemote_stays (h : w.WellFormed) (name : QString) :
    Stays w (removeRemote w name).2 := by
  unfold removeRemote
  cases found : remoteByName w name with
  | none => exact .refl w
  | some n =>
      obtain ⟨inside, -⟩ := remoteByName_eq_some found
      refine leave (e := .vRemote (.free n)) inside ?_ List.erase_sublist (.refl _)
      rintro n' element rfl
      exact h.vRemotesNodup.not_mem_erase element

theorem removeGroup_stays (h : w.WellFormed) (name : QString) :
    Stays w (removeGroup w name).2 := by
  unfold removeGroup
  cases found : groupByName w name with
  | none => exact .refl w
  | some g =>
      obtain ⟨inside, -⟩ := groupByName_eq_some found
      refine leave (e := .group g) inside ?_ (.refl _) List.erase_sublist
      rintro n' element rfl
      exact h.groupsNodup.not_mem_erase element

end VirtualNetwork

/-! ## Elements with another name -/

namespace World

theorem Registered.rename (h : w.Registered) {e : NodeRef} {name : QString}
    {groupName : Nat → QString} {vRemoteName : VRef → QString} {json : NodeRef → QJsonObject}
    (own : World.nameOf { w with groupName := groupName, vRemoteName := vRemoteName } e = name)
    (others : ∀ n, w.IsElement n → n ≠ e →
      World.nameOf { w with groupName := groupName, vRemoteName := vRemoteName } n = w.nameOf n)
    (free : ¬(w.json .virtualNet).contains name) (inside : w.IsElement e)
    (listed : (json .virtualNet).contains name)
    (netKeys : ∀ k, k ≠ w.nameOf e → (w.json .virtualNet).contains k →
      (json .virtualNet).contains k) :
    Registered { w with groupName := groupName, vRemoteName := vRemoteName, json := json } := by
  have before : ∀ n, IsElement { w with
      groupName := groupName, vRemoteName := vRemoteName, json := json } n → w.IsElement n := by
    intro n element
    obtain ⟨g, inside, rfl⟩ | ⟨m, inside, rfl⟩ := element.node
    · exact inside
    · exact inside
  have same : ∀ n, World.nameOf { w with
      groupName := groupName, vRemoteName := vRemoteName, json := json } n =
        World.nameOf { w with groupName := groupName, vRemoteName := vRemoteName } n := by
    intro n
    cases n <;> rfl
  have other : ∀ n, w.IsElement n → n ≠ e → w.nameOf n ≠ name := by
    rintro n element - rfl
    exact free (h.netKeys n element)
  refine ⟨h.tidy, h.slaves, h.groupsNodup, h.vRemotesNodup, h.groupsOld, h.vRemotesOld, ?_, ?_⟩
  · intro n n' element element' named
    have old := before n element
    have old' := before n' element'
    rw [same, same] at named
    by_cases here : n = e
    · by_cases here' : n' = e
      · rw [here, here']
      · rw [here, own, others n' old' here'] at named
        exact absurd named.symm (other n' old' here')
    · by_cases here' : n' = e
      · rw [here', own, others n old here] at named
        exact absurd named (other n old here)
      · rw [others n old here, others n' old' here'] at named
        exact h.names n n' old old' named
  · intro n element
    have old := before n element
    rw [same]
    by_cases here : n = e
    · rw [here, own]
      exact listed
    · rw [others n old here]
      exact netKeys _ (fun named => here (h.names n e old inside named)) (h.netKeys n old)

variable {g n : Nat} {name : QString}

/-- What the JSON of the virtual network is after one of its children has another name. -/
structure Renamed (w : World) (old name : QString) (json : NodeRef → QJsonObject) : Prop where
  listed : (json .virtualNet).contains name
  netKeys : ∀ k, k ≠ old → (w.json .virtualNet).contains k → (json .virtualNet).contains k
  others : ∀ n, n ≠ .virtualNet → n ≠ .eventModel → json n = w.json n

/-- The entry of the child has moved to the new name. -/
theorem Renamed.of_entry {old name : QString} {json : NodeRef → QJsonObject} (o : QJsonObject)
    (entry : json .virtualNet = ((w.json .virtualNet).remove old).insert name (.object o))
    (others : ∀ n, n ≠ .virtualNet → n ≠ .eventModel → json n = w.json n) :
    Renamed w old name json := by
  refine ⟨?_, fun k other there => ?_, others⟩
  · simp [entry, QJsonObject.contains]
  · rw [entry]
    by_cases new : k = name
    · simp [QJsonObject.contains, new]
    · simpa [QJsonObject.contains, new, other] using there

theorem rename_group (w : World) (g : Nat) {name : QString}
    (free : ¬(w.json .virtualNet).contains name) :
    ∃ json, w.rename (.group g) name =
        (true, { w with groupName := Function.update w.groupName g name, json := json }) ∧
      Renamed w (w.groupName g) name json := by
  refine ⟨_, if_neg free, .of_entry (w.json (.group g)) ?_ ?_⟩
  · simp [setName, putJson, setJson, nameOf, jsonOf]
  · intro n other other'
    simp [setName, putJson, setJson, other, other']

theorem rename_vRemote (w : World) (n : Nat) {name : QString}
    (free : ¬(w.json .virtualNet).contains name) :
    ∃ json, w.rename (.vRemote (.free n)) name =
        (true, { w with
          vRemoteName := Function.update w.vRemoteName (.free n) name, json := json }) ∧
      Renamed w (w.vRemoteName (.free n)) name json := by
  refine ⟨_, if_neg free, .of_entry (w.json (.vRemote (.free n))) ?_ ?_⟩
  · simp [setName, putJson, setJson, nameOf, jsonOf]
  · intro n' other other'
    simp [setName, putJson, setJson, other, other']

theorem rename_refused {e p : NodeRef} {rest : List NodeRef} (parent : e.ancestors = p :: rest)
    (taken : (w.json p).contains name) : w.rename e name = (false, w) := by
  rw [rename, parent]
  exact if_pos taken

theorem WellFormed.rename_group (h : w.WellFormed) (inside : g ∈ w.vGroups) (name : QString) :
    (w.rename (.group g) name).2.WellFormed := by
  by_cases free : (w.json .virtualNet).contains name
  · rw [rename_refused rfl free]
    exact h
  · obtain ⟨json, renamed, listed, netKeys, others⟩ := World.rename_group w g free
    rw [renamed]
    refine ⟨h.toRegistered.rename (e := .group g) (Function.update_self ..) ?_ free inside listed
      netKeys, fun g' member => ?_⟩
    · intro n element other
      obtain ⟨g', -, rfl⟩ | ⟨n, -, rfl⟩ := element.node
      · exact Function.update_of_ne (by simpa using other) _ _
      · rfl
    · obtain ⟨global, avatars, ok⟩ := h.groups g' member
      exact ⟨global, avatars, ok.congr rfl rfl (fun _ _ => rfl) le_rfl
        (others _ (by simp) (by simp)) fun _ _ => others _ (by simp) (by simp)⟩

theorem Stays.rename_vRemote (inside : n ∈ w.vRemotes) (name : QString) :
    Stays w (w.rename (.vRemote (.free n)) name).2 := by
  by_cases free : (w.json .virtualNet).contains name
  · rw [rename_refused rfl free]
    exact .refl w
  · obtain ⟨json, renamed, listed, netKeys, others⟩ := World.rename_vRemote w n free
    rw [renamed]
    refine ⟨rfl, rfl, fun h => ⟨?_, fun g member => ?_⟩, fun _ all g member => ?_⟩
    · refine h.toRegistered.rename (e := .vRemote (.free n)) (Function.update_self ..) ?_ free
        inside listed netKeys
      intro n' element other
      obtain ⟨g', -, rfl⟩ | ⟨m, -, rfl⟩ := element.node
      · rfl
      · exact Function.update_of_ne (by simpa using other) _ _
    · obtain ⟨global, avatars, ok⟩ := h.groups g member
      have names : ∀ m, Function.update w.vRemoteName (.free n) name (.member g m) =
          w.vRemoteName (.member g m) := fun m => by simp
      exact ⟨global, avatars, ok.congr rfl rfl (fun m _ => names m)
        le_rfl (others _ (by simp) (by simp)) fun _ _ => others _ (by simp) (by simp)⟩
    · obtain ⟨slaves, number⟩ := all g member
      refine ⟨slaves, ?_⟩
      change (json (.group g)).value "slavesNbr" = some (.double (w.slaves g).length)
      rw [others _ (by simp) (by simp)]
      exact number

end World

end VoxPopuli
