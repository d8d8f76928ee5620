import VoxPopuli.Lib.Directory
import VoxPopuli.Model.Acts
import VoxPopuli.Model.WellFormed

/-! # What becomes of the containers

The list of remotes and the virtual network contain nodes which come and go. Besides the acts
along the tree there are the steps in which members of groups and events are made; none of
them changes who is in a container or how it is named, and entries appear only under the names
of the nodes at work. A remote alone may be dropped, when its counterpart is not on the radio.
-/

namespace VoxPopuli

open World

variable {S : Scope} {w w' w'' : World}

/-! ## Containers -/

/-- The container above a node, with the child of the container to which the node belongs. -/
def VRef.holder : VRef → NodeRef × NodeRef
  | free n => (.virtualNet, .vRemote (.free n))
  | member g _ => (.virtualNet, .group g)

def NodeRef.holder : NodeRef → Option (NodeRef × NodeRef)
  | remote r => some (.remoteList, .remote r)
  | group g => some (.virtualNet, .group g)
  | vRemote v | event v _ => some v.holder
  | network | remoteList | patch | eventModel | virtualNet => none

/-- An event, or a member of a group. -/
def NodeRef.Minor : NodeRef → Prop
  | .event _ _ | .vRemote (.member _ _) => True
  | _ => False

theorem NodeRef.Minor.node {n : NodeRef} (minor : n.Minor) :
    (∃ v b, n = .event v b) ∨ ∃ g m, n = .vRemote (.member g m) := by
  cases n with
  | event v b => exact .inl ⟨v, b, rfl⟩
  | vRemote v =>
      cases v with
      | free n => exact minor.elim
      | member g m => exact .inr ⟨g, m, rfl⟩
  | network | remoteList | patch | remote r | eventModel | virtualNet | group g =>
      exact minor.elim

namespace World

/-- The children of a container, by its own lists. -/
def children (w : World) : NodeRef → List NodeRef
  | .remoteList => w.remotes.map .remote
  | .virtualNet => w.vGroups.map .group ++ w.vRemotes.map fun n => .vRemote (.free n)
  | _ => []

/-- A container has an object under a name. -/
def Entry (w : World) (p : NodeRef) (k : QString) : Prop :=
  ∃ o, (w.json p).value k = some (.object o)

def IsContainer (p : NodeRef) : Prop := p = .remoteList ∨ p = .virtualNet

theorem mem_children_remoteList {n : NodeRef} :
    n ∈ w.children .remoteList ↔ ∃ r ∈ w.remotes, n = .remote r := by
  simp [children, eq_comm]

theorem mem_children_virtualNet {n : NodeRef} : n ∈ w.children .virtualNet ↔ w.IsElement n := by
  cases n with
  | vRemote v => cases v <;> simp [children, IsElement]
  | network | remoteList | patch | remote r | eventModel | virtualNet | group g | event v b =>
      simp [children, IsElement]

theorem entry_putJson_object (p q : NodeRef) (k k' : QString) (o : QJsonObject) :
    (w.putJson q k (.object o)).Entry p k' ↔ w.Entry p k' ∨ p = q ∧ k = k' := by
  by_cases here : p = q
  · by_cases same : k = k'
    · simp [Entry, putJson, setJson, here, same]
    · have other : k' ≠ k := fun named => same named.symm
      simp [Entry, putJson, setJson, here, other, same]
  · simp [Entry, putJson, setJson, here]

/-- Copying the JSON of a node upwards makes an entry for the child it belongs to. -/
theorem entry_updateParentJSon {p : NodeRef} (container : IsContainer p) (n : NodeRef) (k : QString) :
    (w.updateParentJSon n).Entry p k ↔
      w.Entry p k ∨ ∃ c, n.holder = some (p, c) ∧ w.nameOf c = k := by
  have name : ∀ (w : World) q k v c, (w.putJson q k v).nameOf c = w.nameOf c := by
    intro w q k v c
    cases c <;> rfl
  unfold updateParentJSon
  rcases container with rfl | rfl
  all_goals
    cases n with
    | network | remoteList | patch | remote r | eventModel | virtualNet | group g =>
        simp [mirror, NodeRef.ancestors, NodeRef.holder, entry_putJson_object, name]
    | vRemote v | event v b =>
        cases v <;> simp [mirror, NodeRef.ancestors, VRef.ancestors, NodeRef.holder, VRef.holder,
          entry_putJson_object, name]

/-- A child leaves the JSON and the child nodes of its parent. -/
theorem removeSubNode_frame (w : World) (p n : NodeRef) : ∃ json, w.removeSubNode p n =
    { w with json := json, subnodes := Function.update w.subnodes p ((w.subnodes p).erase n) } ∧
      json p = (w.json p).remove (w.nameOf n) ∧ ∀ n' ∉ p :: p.ancestors, json n' = w.json n' := by
  obtain ⟨json, same, others⟩ := mirror_frame ((w.setJson p ((w.json p).remove
    (w.nameOf n))).setSubnodes p ((w.subnodes p).erase n)) p p.ancestors
  refine ⟨json, same, ?_, fun n' outside => ?_⟩
  · rw [others p (not_mem_ancestors p)]
    simp [setJson]
  · obtain ⟨differ, outside⟩ := not_or.mp fun h => outside (List.mem_cons.mpr h)
    rw [others n' outside]
    simp [setJson, differ]

/-- A node becomes the last child of its parent. -/
theorem addSubNode_frame (w : World) (p n : NodeRef) : ∃ json, w.addSubNode p n =
    { w with json := json, subnodes := Function.update w.subnodes p (w.subnodes p ++ [n]) } ∧
      json p = (w.json p).insert (w.nameOf n) (.object (w.jsonOf n)) ∧
        ∀ n' ∉ p :: p.ancestors, json n' = w.json n' := by
  obtain ⟨json, same, others⟩ := mirror_frame ((w.putJson p (w.nameOf n) (.object
    (w.jsonOf n))).setSubnodes p (w.subnodes p ++ [n])) p p.ancestors
  refine ⟨json, same, ?_, fun n' outside => ?_⟩
  · rw [others p (not_mem_ancestors p)]
    simp [putJson, setJson]
  · obtain ⟨differ, outside⟩ := not_or.mp fun h => outside (List.mem_cons.mpr h)
    rw [others n' outside]
    simp [putJson, setJson, differ]

/-! ## Steps -/

/-- An act, or a step in which an event or a member of a group is made or leaves. -/
inductive Deed (S : Scope) (w : World) : World → Prop
  | act {w' : World} (act : Act S w w') : Deed S w w'
  | make (g n : Nat) (name : QString) : Deed S w (VirtualRemote.create w (.member g n) name)
  | adopt {n : NodeRef} (inside : n ∈ S.nodes) (minor : n.Minor) (data : QJsonObject) :
      Deed S w (w.adopt n data)
  | leave {g : Nat} (inside : .group g ∈ S.nodes) (v : VRef) :
      Deed S w (w.removeSubNode (.group g) (.vRemote v))
  | seat (globalRemote : Nat → Option VRef) (virtualRemotes : Nat → List (Option VRef)) :
      Deed S w { w with globalRemote := globalRemote, virtualRemotes := virtualRemotes }

def Deeds (S : Scope) : World → World → Prop := Relation.ReflTransGen (Deed S)

namespace Deeds

theorem refl (S : Scope) (w : World) : Deeds S w w := Relation.ReflTransGen.refl

theorem trans (h : Deeds S w w') (h' : Deeds S w' w'') : Deeds S w w'' :=
  Relation.ReflTransGen.trans h h'

theorem of_deed (deed : Deed S w w') : Deeds S w w' := Relation.ReflTransGen.single deed

theorem of_acts (h : Acts S w w') : Deeds S w w' :=
  Relation.ReflTransGen.mono (fun _ _ act => Deed.act act) _ _ h

/-- What every step keeps. -/
theorem invariant {P : World → Prop} (h : Deeds S w w') (start : P w)
    (keeps : ∀ w w', P w → Deed S w w' → P w') : P w' := by
  induction h with
  | refl => exact start
  | tail _ deed ih => exact keeps _ _ ih deed

end Deeds

/-! ## Remotes which would be dropped -/

/-- Looking for the counterpart of the remote drops a remote. -/
structure Drops (w : World) (r : Nat) : Prop where
  gone : w.Gone r
  listed : ∃ r' ∈ w.remotes, RemoteList.macOf w r' = RemoteList.macOf w r

/-- No remote comes or is given another name, and no more would be dropped than before. -/
structure Settles (w w' : World) : Prop where
  remotes : w'.remotes.Sublist w.remotes
  remoteName : w'.remoteName = w.remoteName
  freshRemote : w'.freshRemote = w.freshRemote
  isReal : w'.isReal = w.isReal
  mac : RemoteList.macOf w' = RemoteList.macOf w
  linked : ∀ r, w'.remoteLink r = none → w.remoteLink r = none
  heard : ∀ x ∈ w.xbeeRemotes, ∃ x' ∈ w'.xbeeRemotes, x'.addr = x.addr

namespace Settles

theorem refl (w : World) : Settles w w := ⟨.refl _, rfl, rfl, rfl, rfl, fun _ => id, fun x heard => ⟨x, heard, rfl⟩⟩

theorem trans (h : Settles w w') (h' : Settles w' w'') : Settles w w'' where
  remotes := h'.remotes.trans h.remotes
  remoteName := h'.remoteName.trans h.remoteName
  freshRemote := h'.freshRemote.trans h.freshRemote
  isReal := h'.isReal.trans h.isReal
  mac := h'.mac.trans h.mac
  linked r still := h.linked r (h'.linked r still)
  heard x listed := by
    obtain ⟨x', listed', same⟩ := h.heard x listed
    obtain ⟨x'', listed'', same'⟩ := h'.heard x' listed'
    exact ⟨x'', listed'', same'.trans same⟩

theorem drops (h : Settles w w') {r : Nat} (drops : w'.Drops r) : w.Drops r := by
  obtain ⟨⟨isReal, unlinked, silent⟩, r', listed, same⟩ := drops
  rw [h.mac] at same
  refine ⟨⟨h.isReal ▸ isReal, h.linked r unlinked, fun x heard => ?_⟩, r', h.remotes.subset listed, same⟩
  obtain ⟨x', heard', address⟩ := h.heard x heard
  have other := silent x' heard'
  rwa [address, h.mac] at other

end Settles

theorem mirror_settles (w : World) (n : NodeRef) (ancestors : List NodeRef)
    (above : ∀ r, .remote r ∉ ancestors) : Settles w (w.mirror n ancestors) := by
  obtain ⟨json, same, others⟩ := mirror_frame w n ancestors
  rw [same]
  refine ⟨.refl _, rfl, rfl, rfl, ?_, fun _ => id, fun x heard => ⟨x, heard, rfl⟩⟩
  funext r
  simp only [RemoteList.macOf, get]
  rw [others _ (above r)]

theorem remote_not_mem_ancestors (n : NodeRef) (r : Nat) : .remote r ∉ n.ancestors := by
  cases n with
  | vRemote v | event v b => cases v <;> simp [NodeRef.ancestors, VRef.ancestors]
  | network | remoteList | patch | remote r | eventModel | virtualNet | group g =>
      simp [NodeRef.ancestors]

theorem updateParentJSon_settles (w : World) (n : NodeRef) : Settles w (w.updateParentJSon n) :=
  mirror_settles w n _ (remote_not_mem_ancestors n)

/-- The JSON of the remotes is left alone. -/
theorem settles_of_json {json : NodeRef → QJsonObject} {subnodes : NodeRef → List NodeRef}
    (same : ∀ r, (json (.remote r)).value "MAC" = (w.json (.remote r)).value "MAC") :
    Settles w { w with json := json, subnodes := subnodes } := by
  refine ⟨.refl _, rfl, rfl, rfl, ?_, fun _ => id, fun x heard => ⟨x, heard, rfl⟩⟩
  funext r
  simp only [RemoteList.macOf, get, same r]

theorem Act.settles (act : Act S w w') : Settles w w' := by
  cases act with
  | @put n k v inside writable =>
      refine settles_of_json (w := w) fun r => ?_
      by_cases own : n = .remote r
      · subst own
        have other : ("MAC" : QString) ≠ k := by
          rintro rfl
          rcases writable with ⟨led, -⟩ | ⟨text | button, -⟩
          · exact absurd led (by decide)
          · exact absurd text (by decide)
          · exact absurd button (by decide)
        simp [other]
      · have other : NodeRef.remote r ≠ n := fun same => own same.symm
        simp [other]
  | mirror inside => exact updateParentJSon_settles w _
  | @drop r r' driven gone found =>
      have removed : Settles w (w.removeSubNode .remoteList (.remote r')) := by
        unfold removeSubNode
        refine .trans (settles_of_json (w := w) fun r => ?_) (updateParentJSon_settles _ _)
        simp [setJson]
      exact { removed with remotes := List.erase_sublist }
  | aside same =>
      refine ⟨same.remotes ▸ .refl _, same.remoteName, same.freshRemote, same.isReal, ?_, same.linked,
        same.heard⟩
      funext r
      simp only [RemoteList.macOf, get, same.json]

theorem storeJson_minor {n : NodeRef} (minor : n.Minor) (data : QJsonObject) :
    w.storeJson n data = w.setJson n data := by
  cases n with
  | patch => exact minor.elim
  | _ => rfl

theorem addSubNode_settles (w : World) (p n : NodeRef) (other : ∀ r, p ≠ .remote r) :
    Settles w (w.addSubNode p n) := by
  unfold addSubNode
  refine .trans (settles_of_json (w := w) fun r => ?_) (updateParentJSon_settles _ _)
  have differ : NodeRef.remote r ≠ p := fun same => other r same.symm
  simp [putJson, setJson, differ]

theorem Deed.settles (deed : Deed S w w') : Settles w w' := by
  cases deed with
  | act act => exact act.settles
  | make g n name => exact ⟨.refl _, rfl, rfl, rfl, rfl, fun _ => id, fun x heard => ⟨x, heard, rfl⟩⟩
  | @adopt n inside minor data =>
      have stored : Settles w (w.setJson n data) := by
        have same : ∀ r, ((w.setJson n data).json (.remote r)).value "MAC" =
            (w.json (.remote r)).value "MAC" := by
          intro r
          have differ : NodeRef.remote r ≠ n := by
            rintro rfl
            exact minor
          simp [World.setJson, differ]
        exact settles_of_json same
      unfold World.adopt
      rw [storeJson_minor minor]
      obtain ⟨v, b, rfl⟩ | ⟨g, m, rfl⟩ := minor.node
      · exact stored.trans (addSubNode_settles _ _ _ (by simp))
      · exact stored.trans (addSubNode_settles _ _ _ (by simp))
  | @leave g inside v =>
      unfold removeSubNode
      refine .trans (settles_of_json (w := w) fun r => ?_) (updateParentJSon_settles _ _)
      simp [setJson]
  | seat globalRemote virtualRemotes =>
      exact ⟨.refl _, rfl, rfl, rfl, rfl, fun _ => id, fun x heard => ⟨x, heard, rfl⟩⟩

theorem Deeds.settles (h : Deeds S w w') : Settles w w' :=
  h.invariant (P := Settles w) (.refl w) fun _ _ before deed => before.trans deed.settles

/-! ## Containers which stay as they are -/

/-- The names of the children of the containers to which the nodes of a scope belong. -/
def Scope.Names (S : Scope) (w : World) (p : NodeRef) (k : QString) : Prop :=
  ∃ n ∈ S.nodes, ∃ c, n.holder = some (p, c) ∧ w.nameOf c = k

/-- The children of a container and their names stay, and entries appear only under the
    names of the nodes at work. -/
structure Holds (S : Scope) (p : NodeRef) (w w' : World) : Prop where
  children : w'.children p = w.children p
  subnodes : w'.subnodes p = w.subnodes p
  names : ∀ n c : NodeRef, n.holder = some (p, c) → w'.nameOf c = w.nameOf c
  kept : ∀ k, w.Entry p k → w'.Entry p k
  only : ∀ k, w'.Entry p k → w.Entry p k ∨ S.Names w p k

namespace Holds

variable {p : NodeRef}

theorem refl (S : Scope) (p : NodeRef) (w : World) : Holds S p w w :=
  ⟨rfl, rfl, fun _ _ _ => rfl, fun _ => id, fun _ => .inl⟩

theorem trans (h : Holds S p w w') (h' : Holds S p w' w'') : Holds S p w w'' where
  children := h'.children.trans h.children
  subnodes := h'.subnodes.trans h.subnodes
  names n c held := (h'.names n c held).trans (h.names n c held)
  kept k there := h'.kept k (h.kept k there)
  only k there := by
    rcases h'.only k there with old | ⟨n, inside, c, held, rfl⟩
    · exact h.only k old
    · exact .inr ⟨n, inside, c, held, (h.names n c held).symm⟩

/-- The JSON of the container and its children are left alone. -/
theorem of_same (children : w'.children p = w.children p) (subnodes : w'.subnodes p = w.subnodes p)
    (names : ∀ n c : NodeRef, n.holder = some (p, c) → w'.nameOf c = w.nameOf c)
    (json : w'.json p = w.json p) : Holds S p w w' := by
  refine ⟨children, subnodes, names, fun k there => ?_, fun k there => .inl ?_⟩
  · unfold Entry at there ⊢
    rwa [json]
  · unfold Entry at there ⊢
    rwa [← json]

theorem updateParentJSon (container : IsContainer p) {n : NodeRef}
    (inside : ∃ m ∈ S.nodes, m.holder = n.holder) : Holds S p w (w.updateParentJSon n) := by
  obtain ⟨json, same, -⟩ := mirror_frame w n n.ancestors
  refine ⟨?_, ?_, fun n c _ => ?_, fun k there => ?_, fun k there => ?_⟩
  · rw [World.updateParentJSon, same]
    cases p <;> rfl
  · rw [World.updateParentJSon, same]
  · rw [World.updateParentJSon, same]
    cases c <;> rfl
  · exact (entry_updateParentJSon container n k).mpr (.inl there)
  · refine ((entry_updateParentJSon container n k).mp there).imp_right ?_
    rintro ⟨c, held, named⟩
    obtain ⟨m, inside, same⟩ := inside
    exact ⟨m, inside, c, same.trans held, named⟩

end Holds

/-- A remote is dropped because its counterpart is gone. -/
def Dropping (S : Scope) (w w' : World) : Prop :=
  ∃ r ∈ S.driven, w.Drops r ∧ ∃ r' ∈ w.remotes, w' = RemoteList.drop w r'

theorem Act.holds {p : NodeRef} (container : IsContainer p) (act : Act S w w') :
    Holds S p w w' ∨ p = .remoteList ∧ Dropping S w w' := by
  cases act with
  | @put n k v inside writable =>
      have differ : p ≠ n := by
        rintro rfl
        rcases container with rfl | rfl
        · exact writable
        · exact writable
      refine .inl (.of_same ?_ rfl (fun n c _ => by cases c <;> rfl) ?_)
      · cases p <;> rfl
      · simp [putJson, setJson, differ]
  | mirror inside => exact .inl (.updateParentJSon container ⟨_, inside, rfl⟩)
  | @drop r r' driven gone found =>
      have listed : r' ∈ w.remotes := List.mem_of_find?_eq_some found
      rcases container with rfl | rfl
      · refine .inr ⟨rfl, r, driven, ⟨gone, r', listed, ?_⟩, r', listed, rfl⟩
        simpa using List.find?_some found
      · obtain ⟨json, removed, -, others⟩ := removeSubNode_frame w .remoteList (.remote r')
        left
        unfold RemoteList.drop
        rw [removed]
        exact .of_same rfl (by simp) (fun n c _ => by cases c <;> rfl)
          (others _ (by simp [NodeRef.ancestors]))
  | aside same =>
      have elements := same.elements
      left
      refine .of_same ?_ (by rw [same.subnodes]) (fun n c held => ?_) (by rw [same.json])
      · rcases container with rfl | rfl
        · simp only [children, same.remotes]
        · simp only [children, elements.vGroups, elements.vRemotes]
      · cases c <;> simp only [nameOf, same.remoteName, elements.groupName, elements.vRemoteName]

/-- A node below the containers gets another child, or loses one. -/
theorem Holds.touch {p q : NodeRef} (container : IsContainer p) (below : p ≠ q)
    (inside : ∃ m ∈ S.nodes, m.holder = q.holder) (o : QJsonObject) (l : List NodeRef) :
    Holds S p w (((w.setJson q o).setSubnodes q l).updateParentJSon q) := by
  refine .trans (.of_same ?_ ?_ (fun n c _ => by cases c <;> rfl) ?_)
    (.updateParentJSon container inside)
  · cases p <;> rfl
  · simp [setSubnodes, setJson, below]
  · simp [setJson, below]

theorem holder_child {n p c : NodeRef} (held : n.holder = some (p, c)) : ¬c.Minor := by
  cases n with
  | vRemote v | event v b =>
      cases v with
      | free n | member g n =>
          cases held
          exact id
  | remote r | group g =>
      cases held
      exact id
  | network | remoteList | patch | eventModel | virtualNet => cases held

theorem Deed.holds {p : NodeRef} (container : IsContainer p) (deed : Deed S w w') :
    Holds S p w w' ∨ p = .remoteList ∧ Dropping S w w' := by
  cases deed with
  | act act => exact act.holds container
  | make g n name =>
      refine .inl (.of_same ?_ ?_ (fun m c held => ?_) ?_)
      · cases p <;> rfl
      · rcases container with rfl | rfl <;> rfl
      · have major := holder_child held
        cases c with
        | vRemote v =>
            cases v with
            | free m => simp [nameOf, VirtualRemote.create]
            | member g m => exact absurd trivial major
        | _ => rfl
      · rcases container with rfl | rfl <;> rfl
  | @adopt n inside minor data =>
      have stored : Holds S p w (w.setJson n data) := by
        have differ : p ≠ n := by
          rintro rfl
          rcases container with rfl | rfl
          · exact minor
          · exact minor
        refine .of_same ?_ rfl (fun n c _ => by cases c <;> rfl) (by simp [setJson, differ])
        cases p <;> rfl
      left
      unfold World.adopt
      rw [storeJson_minor minor]
      obtain ⟨v, b, rfl⟩ | ⟨g, m, rfl⟩ := minor.node
      · have below : p ≠ .vRemote v := by rcases container with rfl | rfl <;> simp
        exact stored.trans (.touch container below ⟨_, inside, rfl⟩ _ _)
      · have below : p ≠ .group g := by rcases container with rfl | rfl <;> simp
        exact stored.trans (.touch container below ⟨_, inside, rfl⟩ _ _)
  | @leave g inside v =>
      have below : p ≠ .group g := by rcases container with rfl | rfl <;> simp
      exact .inl (.touch container below ⟨_, inside, rfl⟩ _ _)
  | seat globalRemote virtualRemotes =>
      refine .inl (.of_same ?_ rfl (fun n c _ => by cases c <;> rfl) rfl)
      cases p <;> rfl

/-- No remote is dropped on the way. -/
def Scope.Quiet (S : Scope) (w : World) : Prop := ∀ r ∈ S.driven, ¬w.Drops r

/-- The step lemma goes over to a chain of steps. -/
theorem Deeds.holds {p : NodeRef} (container : IsContainer p) (h : Deeds S w w')
    (quiet : p = .remoteList → S.Quiet w) : Holds S p w w' := by
  have both : Holds S p w w' ∧ Settles w w' := by
    apply h.invariant (P := fun w' => Holds S p w w' ∧ Settles w w') ⟨.refl S p w, .refl w⟩
    rintro w₁ w₂ ⟨held, settled⟩ deed
    refine ⟨?_, settled.trans deed.settles⟩
    rcases deed.holds container with more | ⟨list, r, driven, drops, -⟩
    · exact held.trans more
    · exact absurd (settled.drops drops) (quiet list r driven)
  exact both.1

/-! ## The list of remotes -/

/-- The remotes have distinct names, and there is an entry for each of them. -/
structure RemotesListed (w : World) : Prop where
  listed : Listed (w.children .remoteList) w.nameOf (w.Entry .remoteList)
  old : ∀ r ∈ w.remotes, r < w.freshRemote

theorem RemotesListed.holds (h : w.RemotesListed) (held : Holds S .remoteList w w')
    (settled : Settles w w') : w'.RemotesListed := by
  refine ⟨?_, fun r member => settled.freshRemote ▸ h.old r (settled.remotes.subset member)⟩
  rw [held.children]
  refine Listed.congr h.listed (fun n member => ?_) held.kept
  obtain ⟨r, -, rfl⟩ := mem_children_remoteList.mp member
  exact held.names (.remote r) (.remote r) rfl

theorem children_drop (w : World) (r : Nat) :
    (RemoteList.drop w r).children .remoteList = (w.children .remoteList).erase (.remote r) := by
  have injective : Function.Injective NodeRef.remote := fun _ _ same => NodeRef.remote.inj same
  exact List.map_erase injective _

theorem nameOf_drop (w : World) (r : Nat) : (RemoteList.drop w r).nameOf = w.nameOf := by
  obtain ⟨json, removed, -⟩ := removeSubNode_frame w .remoteList (.remote r)
  funext n
  rw [RemoteList.drop, removed]
  cases n <;> rfl

theorem entry_drop (w : World) (r : Nat) (k : QString) :
    (RemoteList.drop w r).Entry .remoteList k ↔ k ≠ w.remoteName r ∧ w.Entry .remoteList k := by
  obtain ⟨json, removed, own, -⟩ := removeSubNode_frame w .remoteList (.remote r)
  have value : ((RemoteList.drop w r).json .remoteList) =
      (w.json .remoteList).remove (w.remoteName r) := by
    rw [RemoteList.drop, removed]
    exact own
  unfold Entry
  rw [value]
  by_cases same : k = w.remoteName r
  · simp [same]
  · simp [same]

/-- A remote which is dropped takes its entry with it. -/
theorem RemotesListed.drop (h : w.RemotesListed) {r : Nat} (inside : r ∈ w.remotes) :
    (RemoteList.drop w r).RemotesListed := by
  obtain ⟨json, removed, -⟩ := removeSubNode_frame w .remoteList (.remote r)
  refine ⟨?_, fun r' member => ?_⟩
  · rw [children_drop, nameOf_drop]
    refine Listed.erase h.listed (mem_children_remoteList.mpr ⟨r, inside, rfl⟩) fun k other there => ?_
    exact (entry_drop w r k).mpr ⟨other, there⟩
  · rw [RemoteList.drop, removed] at member ⊢
    exact h.old r' (List.mem_of_mem_erase member)

/-- Whatever is driven, the remotes which are left stay listed. -/
theorem RemotesListed.deeds (listed : w.RemotesListed) (h : Deeds S w w') : w'.RemotesListed := by
  apply h.invariant (P := RemotesListed) listed
  intro w₁ w₂ before deed
  rcases deed.holds (.inl rfl) with held | ⟨-, r, -, -, r', inside, rfl⟩
  · exact before.holds held deed.settles
  · exact before.drop inside

/-! ## Containers in order -/

/-- The list of a container, its child nodes and its entries agree. -/
def InOrder (w : World) (p : NodeRef) : Prop :=
  Complete (w.children p) (w.subnodes p) w.nameOf (w.Entry p)

/-- The nodes of a scope belong to children of the containers. -/
def Scope.Within (S : Scope) (w : World) (p : NodeRef) : Prop :=
  ∀ n ∈ S.nodes, ∀ c, n.holder = some (p, c) → c ∈ w.children p

theorem mem_children_holder {p c : NodeRef} (member : c ∈ w.children p) : c.holder = some (p, c) := by
  cases p with
  | remoteList =>
      obtain ⟨r, -, rfl⟩ := mem_children_remoteList.mp member
      rfl
  | virtualNet =>
      obtain ⟨g, -, rfl⟩ | ⟨n, -, rfl⟩ := (mem_children_virtualNet.mp member).node
      · rfl
      · rfl
  | network | patch | remote r | eventModel | group g | vRemote v | event v b => cases member

theorem Holds.inOrder {p : NodeRef} (held : Holds S p w w') (order : w.InOrder p)
    (within : S.Within w p) : w'.InOrder p := by
  unfold InOrder
  rw [held.children, held.subnodes]
  refine Complete.congr order (fun c member => held.names c c (mem_children_holder member)) fun k => ?_
  refine ⟨fun there => ?_, held.kept k⟩
  rcases held.only k there with old | ⟨n, inside, c, holder, rfl⟩
  · exact old
  · exact order.entries c (within n inside c holder)

end World

end VoxPopuli
