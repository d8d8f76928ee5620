import VoxPopuli.Model.Making

/-! # Children which arrive

A new child of a container is populated from a document; then it joins the others and is told
of its links. With a blank in its name it is refused. What the steps of an arrival may touch is
a scope, so the lemmas here hold for any scope which has the nodes of the child.
-/

namespace VoxPopuli

open World

variable {S : Scope} {w w' : World} {p e : NodeRef} {k name : QString}

namespace World

/-! ## What steps leave alone -/

theorem value_putJson (w : World) (p q : NodeRef) (k k' : QString) (v : QJsonValue) :
    ((w.putJson q k' v).json p).value k =
      if p = q ∧ k = k' then some v else (w.json p).value k := by
  by_cases here : p = q
  · by_cases same : k = k'
    · simp [putJson, setJson, here, same]
    · simp [putJson, setJson, here, same]
  · simp [putJson, setJson, here]

/-- Copying the JSON of a node upwards writes under the name of the child it belongs to. -/
theorem value_updateParentJSon (container : IsContainer p) {n : NodeRef}
    (apart : ∀ c, n.holder = some (p, c) → k ≠ w.nameOf c) :
    ((w.updateParentJSon n).json p).value k = (w.json p).value k := by
  have name : ∀ (w : World) q k v c, (w.putJson q k v).nameOf c = w.nameOf c := by
    intro w q k v c
    cases c <;> rfl
  unfold updateParentJSon
  rcases container with rfl | rfl
  all_goals
    cases n with
    | network | remoteList | patch | remote r | eventModel | virtualNet | group g =>
        simp [NodeRef.holder] at apart
        simp [mirror, NodeRef.ancestors, value_putJson, name, apart]
    | vRemote v | event v b =>
        cases v <;>
          (simp [NodeRef.holder, VRef.holder] at apart
           simp [mirror, NodeRef.ancestors, VRef.ancestors, value_putJson, name, apart])

/-- A node below the containers gets another child, or loses one. -/
theorem value_touch (container : IsContainer p) {q : NodeRef} (below : p ≠ q)
    (apart : ∀ c, q.holder = some (p, c) → k ≠ w.nameOf c) (o : QJsonObject) (l : List NodeRef) :
    ((((w.setJson q o).setSubnodes q l).updateParentJSon q).json p).value k = (w.json p).value k := by
  rw [value_updateParentJSon container fun c held => ?_]
  · simp [setJson, below]
  · have name : ((w.setJson q o).setSubnodes q l).nameOf c = w.nameOf c := by cases c <;> rfl
    rw [name]
    exact apart c held

/-- Only under the names of the nodes at work may a member of a container change. -/
theorem Act.value (container : IsContainer p) (act : Act S w w') (apart : ¬S.Names w p k) :
    (w'.json p).value k = (w.json p).value k ∨ p = .remoteList ∧ Dropping S w w' := by
  cases act with
  | @put n k' v inside writable =>
      have differ : p ≠ n := by
        rintro rfl
        rcases container with rfl | rfl
        · exact writable
        · exact writable
      rw [value_putJson, if_neg fun here => differ here.1]
      exact .inl rfl
  | @mirror n inside =>
      exact .inl (value_updateParentJSon container fun c held named =>
        apart ⟨n, inside, c, held, named.symm⟩)
  | @drop r r' driven gone found =>
      have listed : r' ∈ w.remotes := List.mem_of_find?_eq_some found
      rcases container with rfl | rfl
      · refine .inr ⟨rfl, r, driven, ⟨gone, r', listed, ?_⟩, r', listed, rfl⟩
        simpa using List.find?_some found
      · obtain ⟨json, removed, -, others⟩ := removeSubNode_frame w .remoteList (.remote r')
        left
        rw [RemoteList.drop, removed]
        exact congrArg (QJsonObject.value · k) (others _ (by simp [NodeRef.ancestors]))
  | aside same =>
      rw [same.json]
      exact .inl rfl

theorem Deed.value (container : IsContainer p) (deed : Deed S w w') (apart : ¬S.Names w p k) :
    (w'.json p).value k = (w.json p).value k ∨ p = .remoteList ∧ Dropping S w w' := by
  cases deed with
  | act act => exact act.value container apart
  | make g n name => rcases container with rfl | rfl <;> exact .inl rfl
  | @adopt n inside minor data =>
      have differ : p ≠ n := by
        rintro rfl
        rcases container with rfl | rfl
        · exact minor
        · exact minor
      have stored : ((w.setJson n data).json p).value k = (w.json p).value k := by
        simp [setJson, differ]
      have names : ∀ c, (w.setJson n data).nameOf c = w.nameOf c := fun c => by cases c <;> rfl
      have above : ∀ q : NodeRef, q.holder = n.holder → ∀ c, q.holder = some (p, c) →
          k ≠ (w.setJson n data).nameOf c := fun q same c held named =>
        apart ⟨n, inside, c, same.symm.trans held, (named.trans (names c)).symm⟩
      left
      rw [World.adopt, storeJson_minor minor]
      obtain ⟨v, b, rfl⟩ | ⟨g, m, rfl⟩ := minor.node
      · have below : p ≠ .vRemote v := by rcases container with rfl | rfl <;> simp
        exact (value_touch container below (above (.vRemote v) rfl) _ _).trans stored
      · have below : p ≠ .group g := by rcases container with rfl | rfl <;> simp
        exact (value_touch container below (above (.group g) rfl) _ _).trans stored
  | @leave g inside v =>
      have below : p ≠ .group g := by rcases container with rfl | rfl <;> simp
      exact .inl (value_touch container below
        (fun c held named => apart ⟨.group g, inside, c, held, named.symm⟩) _ _)
  | seat globalRemote virtualRemotes => exact .inl rfl

theorem Deeds.value (container : IsContainer p) (h : Deeds S w w')
    (quiet : p = .remoteList → S.Quiet w) (apart : ¬S.Names w p k) :
    (w'.json p).value k = (w.json p).value k := by
  have all : Holds S p w w' ∧ Settles w w' ∧ (w'.json p).value k = (w.json p).value k := by
    apply h.invariant (P := fun w' => Holds S p w w' ∧ Settles w w' ∧
      (w'.json p).value k = (w.json p).value k) ⟨.refl S p w, .refl w, rfl⟩
    rintro w₁ w₂ ⟨held, settled, same⟩ deed
    have silent : ¬(p = .remoteList ∧ Dropping S w₁ w₂) := by
      rintro ⟨list, r, driven, drops, -⟩
      exact quiet list r driven (settled.drops drops)
    have still : ¬S.Names w₁ p k := by
      rintro ⟨n, inside, c, holder, named⟩
      exact apart ⟨n, inside, c, holder, (held.names n c holder).symm.trans named⟩
    exact ⟨held.trans ((deed.holds container).resolve_right silent), settled.trans deed.settles,
      ((deed.value container still).resolve_right silent).trans same⟩
  exact all.2.2

/-- The JSON of a remote outside the scope is left alone. -/
theorem Act.json_remote {r : Nat} (act : Act S w w') (outside : .remote r ∉ S.nodes) :
    w'.json (.remote r) = w.json (.remote r) := by
  cases act with
  | @put n k v inside writable =>
      have differ : NodeRef.remote r ≠ n := by
        rintro rfl
        exact outside inside
      simp [putJson, setJson, differ]
  | @mirror n inside =>
      obtain ⟨json, same, others⟩ := mirror_frame w n n.ancestors
      rw [updateParentJSon, same]
      exact others _ (remote_not_mem_ancestors n r)
  | @drop r₁ r' driven gone found =>
      obtain ⟨json, removed, -, others⟩ := removeSubNode_frame w .remoteList (.remote r')
      rw [RemoteList.drop, removed]
      exact others _ (by simp [NodeRef.ancestors])
  | aside same => rw [same.json]

theorem Deed.json_remote {r : Nat} (deed : Deed S w w') (outside : .remote r ∉ S.nodes) :
    w'.json (.remote r) = w.json (.remote r) := by
  cases deed with
  | act act => exact act.json_remote outside
  | make g n name => simp [VirtualRemote.create]
  | @adopt n inside minor data =>
      have stored : (w.setJson n data).json (.remote r) = w.json (.remote r) := by
        have differ : NodeRef.remote r ≠ n := by
          rintro rfl
          exact minor
        simp [setJson, differ]
      rw [World.adopt, storeJson_minor minor]
      obtain ⟨v, b, rfl⟩ | ⟨g, m, rfl⟩ := minor.node
      · obtain ⟨json, same, -, others⟩ := addSubNode_frame (w.setJson (.event v b) data)
          (.vRemote v) (.event v b)
        refine Eq.trans ?_ stored
        simp only [NodeRef.ancestors, same]
        exact others _ (by cases v <;> simp [NodeRef.ancestors, VRef.ancestors])
      · obtain ⟨json, same, -, others⟩ := addSubNode_frame (w.setJson (.vRemote (.member g m)) data)
          (.group g) (.vRemote (.member g m))
        refine Eq.trans ?_ stored
        simp only [NodeRef.ancestors, VRef.ancestors, same]
        exact others _ (by simp [NodeRef.ancestors])
  | @leave g inside v =>
      obtain ⟨json, removed, -, others⟩ := removeSubNode_frame w (.group g) (.vRemote v)
      rw [removed]
      exact others _ (by simp [NodeRef.ancestors])
  | seat globalRemote virtualRemotes => rfl

theorem Deeds.json_remote {r : Nat} (h : Deeds S w w') (outside : .remote r ∉ S.nodes) :
    w'.json (.remote r) = w.json (.remote r) :=
  h.invariant (P := fun w' => w'.json (.remote r) = w.json (.remote r)) rfl
    fun _ _ same deed => (deed.json_remote outside).trans same

/-! ## Arrivals -/

/-- A child stands right below its container, and below no other one. -/
structure ChildOf (p e : NodeRef) : Prop where
  container : IsContainer p
  parent : ∃ rest, e.ancestors = p :: rest
  minor : e ≠ .patch
  apart : ∀ q, IsContainer q → q ≠ p → q ∉ e :: e.ancestors

theorem childOf_of_holder (held : e.holder = some (p, e)) : ChildOf p e := by
  cases e with
  | remote r =>
      cases held
      refine ⟨.inl rfl, ⟨_, rfl⟩, by simp, ?_⟩
      rintro q (rfl | rfl) differ
      · exact absurd rfl differ
      · simp [NodeRef.ancestors]
  | group g =>
      cases held
      refine ⟨.inr rfl, ⟨_, rfl⟩, by simp, ?_⟩
      rintro q (rfl | rfl) differ
      · simp [NodeRef.ancestors]
      · exact absurd rfl differ
  | vRemote v =>
      cases v <;> cases held
      refine ⟨.inr rfl, ⟨_, rfl⟩, by simp, ?_⟩
      rintro q (rfl | rfl) differ
      · simp [NodeRef.ancestors, VRef.ancestors]
      · exact absurd rfl differ
  | event v b => cases v <;> cases held
  | network | remoteList | patch | eventModel | virtualNet => cases held

theorem adopt_eq {rest : List NodeRef} (parent : e.ancestors = p :: rest) (other : e ≠ .patch)
    (data : QJsonObject) :
    w.adopt e data = (w.setJson e data).addSubNode p e ∧ p.ancestors = rest := by
  have stored : w.storeJson e data = w.setJson e data := by
    cases e with
    | patch => exact absurd rfl other
    | _ => rfl
  constructor
  · rw [adopt, parent, stored]
  · cases e with
    | vRemote v | event v b => cases v <;> cases parent <;> rfl
    | remote r | group g | remoteList | patch | virtualNet => cases parent; rfl
    | network | eventModel => cases parent

/-- A node which is populated keeps the document and is listed by its parent. -/
theorem adopt_frame {rest : List NodeRef} (parent : e.ancestors = p :: rest) (other : e ≠ .patch)
    (data : QJsonObject) : ∃ json, w.adopt e data =
      { w with json := json, subnodes := Function.update w.subnodes p (w.subnodes p ++ [e]) } ∧
        json p = (w.json p).insert (w.nameOf e) (.object data) ∧
          ∀ n ∉ e :: e.ancestors, json n = w.json n := by
  obtain ⟨adopted, above⟩ := adopt_eq (w := w) parent other data
  have apart : p ≠ e := by
    rintro rfl
    exact not_mem_ancestors p (parent ▸ List.mem_cons_self)
  obtain ⟨json, same, own, others⟩ := addSubNode_frame (w.setJson e data) p e
  refine ⟨json, adopted.trans same, ?_, fun n outside => ?_⟩
  · have name : (w.setJson e data).nameOf e = w.nameOf e := by cases e <;> rfl
    have data' : (w.setJson e data).jsonOf e = data := by
      cases e with
      | patch => exact absurd rfl other
      | _ => simp [jsonOf, setJson]
    rw [own, name, data']
    simp [setJson, apart]
  · rw [parent, List.mem_cons] at outside
    obtain ⟨differ, outside⟩ := not_or.mp outside
    rw [others n (above ▸ outside)]
    simp [setJson, differ]

theorem json_adopt {rest : List NodeRef} (parent : e.ancestors = p :: rest) (other : e ≠ .patch)
    (data : QJsonObject) : (w.adopt e data).json e = data := by
  obtain ⟨adopted, above⟩ := adopt_eq (w := w) parent other data
  obtain ⟨json, same, -, others⟩ := addSubNode_frame (w.setJson e data) p e
  rw [adopted, same]
  have own : (w.setJson e data).json e = data := by simp [setJson]
  refine (others e ?_).trans own
  rw [above, ← parent]
  exact not_mem_ancestors e

/-- The same scope for steps in which no remote is looked for. -/
def Scope.silent (S : Scope) : Scope := { S with driven := ∅ }

theorem Scope.quiet_silent (S : Scope) (w : World) : S.silent.Quiet w := fun _ => False.elim

/-- A new child is populated, listed and told of its links; with a blank in its name it is
    refused and deleted. The result is that of `createSubNode`. -/
inductive Arrival (S : Scope) (Told : World → World → Prop) (e : NodeRef) (name : QString)
    (data : QJsonObject) (list : World → World) (w : World) : Bool × World → Prop
  | refused (blank : (' ' : QChar) ∈ name) :
      Arrival S Told e name data list w (false, w.clearJsonData e)
  | arrived {w₁ w₂ : World} (solid : (' ' : QChar) ∉ name) (grown : Deeds S w w₁)
      (told : Told (list (w₁.adopt e data)) w₂) : Arrival S Told e name data list w (true, w₂)

end World

namespace VirtualNetwork

/-- `_vRemotes.append`. -/
def listRemote (n : Nat) (w : World) : World := { w with vRemotes := w.vRemotes ++ [n] }

/-- `_vGroups.append`. -/
def listGroup (g : Nat) (w : World) : World := { w with vGroups := w.vGroups ++ [g] }

theorem createRemote_arrival (nodes : S.Holds (.free w.fresh))
    (listed : (VirtualRemote.create w (.free w.fresh) name).RemotesListed)
    (drives : (' ' : QChar) ∉ name → ∀ r ∈ w.linkedRemotes name, S.Drives r) :
    Ends (fun _ => True) (createSubNode w name VirtualRemote.createVirtualRemoteJSon)
      (Arrival S (Deeds S.silent) (.vRemote (.free w.fresh)) name
        VirtualRemote.createVirtualRemoteJSon (listRemote w.fresh)
        (VirtualRemote.create w (.free w.fresh) name)) := by
  have own : (VirtualRemote.create w (.free w.fresh) name).vRemoteName (.free w.fresh) = name :=
    Function.update_self ..
  have targets : VirtualRemote.target (VirtualRemote.create w (.free w.fresh) name) (.free w.fresh) =
      w.linkedRemotes name := by
    rw [VirtualRemote.target, own]
    rfl
  rw [createSubNode, if_neg (by decide), if_pos (by decide)]
  dsimp only
  generalize VirtualRemote.create w (.free w.fresh) name = w₁ at listed own targets ⊢
  by_cases blank : (' ' : QChar) ∈ name
  · rw [populateNode_refused (n := .vRemote (.free w.fresh)) (own.symm ▸ blank : _ ∈ w₁.vRemoteName _)]
    exact .refused blank
  · have populated := VirtualRemote.deeds_populate nodes listed
      (fun r member => drives blank r (targets ▸ member))
      VirtualRemote.document_createVirtualRemoteJSon (own.symm ▸ blank)
    apply populated.bind
    rintro ⟨created, w₃⟩ ⟨done, w₂, grown, rfl⟩
    dsimp only at done ⊢
    subst done
    simp only [Bool.not_true, Bool.false_eq_true, if_false]
    have updated := VirtualRemote.acts_updateVirtualRemote (S := S.silent)
      (w := listRemote w.fresh (w₂.adopt (.vRemote (.free w.fresh))
        VirtualRemote.createVirtualRemoteJSon)) nodes.inside
    exact updated.bind fun w₅ last => .arrived blank grown (.of_acts last)

theorem createGroup_arrival (nodes : S.HoldsGroup w.fresh)
    (listed : (VirtualGroup.create w w.fresh name).RemotesListed)
    (drives : (' ' : QChar) ∉ name → ∀ r ∈ w.linkedRemotes name, S.Drives r) :
    Ends (fun _ => True) (createSubNode w name VirtualGroup.createGroupJSon)
      (Arrival S (Deeds S.silent) (.group w.fresh) name VirtualGroup.createGroupJSon
        (listGroup w.fresh) (VirtualGroup.create w w.fresh name)) := by
  have own : (VirtualGroup.create w w.fresh name).groupName w.fresh = name :=
    Function.update_self ..
  have empty : (VirtualGroup.create w w.fresh name).json (.group w.fresh) = [] :=
    Function.update_self ..
  have linked : (VirtualGroup.create w w.fresh name).linkedRemotes name = w.linkedRemotes name := rfl
  have none : (VirtualGroup.create w w.fresh name).virtualRemotes w.fresh = [] :=
    Function.update_self ..
  rw [createSubNode, if_pos (by decide)]
  dsimp only
  generalize VirtualGroup.create w w.fresh name = w₁ at listed own empty linked none ⊢
  by_cases blank : (' ' : QChar) ∈ name
  · rw [populateNode_refused (n := .group w.fresh) (own.symm ▸ blank : _ ∈ w₁.groupName _)]
    exact .refused blank
  · have solid : (' ' : QChar) ∉ w₁.groupName w.fresh := own.symm ▸ blank
    have members := VirtualGroup.deeds_populateMembers nodes listed empty
      fun r member => drives blank r (linked ▸ own ▸ member)
    have shape := (VirtualGroup.populateMembers_ends empty).of_any
    have populated := populateNode_ends (n := .group w.fresh)
      (I := fun w₂ => Deeds S w₁ w₂ ∧ VirtualGroup.Populated w.fresh w₁ w₂) solid
      ((members.and shape).mono fun q done => ⟨done.1.1, done.1.2, done.2.2⟩)
    apply populated.bind
    rintro ⟨created, w₃⟩ ⟨done, w₂, ⟨grown, shape⟩, rfl⟩
    dsimp only at done ⊢
    subst done
    simp only [Bool.not_true, Bool.false_eq_true, if_false]
    have member : ∀ v, VirtualGroup.Member (listGroup w.fresh (w₂.adopt (.group w.fresh)
        VirtualGroup.createGroupJSon)) w.fresh v → .vRemote v ∈ S.nodes := by
      intro v member
      obtain ⟨json, same, -⟩ := adopt_frame (w := w₂) (e := .group w.fresh) rfl (by simp)
        VirtualGroup.createGroupJSon
      rw [same] at member
      rcases member with global | avatar
      · cases shape.globalRemote.symm.trans global
        exact (nodes.members _).inside
      · have inside : some v ∈ w₂.virtualRemotes w.fresh := avatar
        rw [shape.virtualRemotes, none] at inside
        cases inside
    have updated := VirtualGroup.acts_updateFromPatch (S := S.silent) member nodes.inside
    exact updated.bind fun w₅ last => .arrived blank grown (.of_acts last)

end VirtualNetwork

namespace RemoteList

/-- `_remotes.append`. -/
def listRemote (r : Nat) (w : World) : World := { w with remotes := w.remotes ++ [r] }

theorem populate_arrival (drives : S.Drives w.freshRemote) (covers : S.Covers w) (name : QString)
    {real : Bool} (emulated : (' ' : QChar) ∈ name → real = false) (o : QJsonObject)
    {data : QJsonObject} (plain : Plain data) :
    Ends (fun _ => True)
      (do
        let q ← populateNode (Remote.nodeClass fun w' => Remote.set w' w.freshRemote)
          (create w w.freshRemote name real o) (.remote w.freshRemote) data
        pure (q.1, if q.1 then { q.2 with remotes := q.2.remotes ++ [w.freshRemote] }
          else destroy q.2 w.freshRemote))
      (Arrival S Eq (.remote w.freshRemote) name data (listRemote w.freshRemote)
        (create w w.freshRemote name real o)) := by
  have own : (create w w.freshRemote name real o).remoteName w.freshRemote = name :=
    Function.update_self ..
  have covers₁ : S.Covers (create w w.freshRemote name real o) := covers.of_same rfl
  have kind : (create w w.freshRemote name real o).isReal w.freshRemote = real :=
    Function.update_self ..
  generalize create w w.freshRemote name real o = w₁ at covers₁ own kind ⊢
  by_cases blank : (' ' : QChar) ∈ name
  · rw [populateNode_refused (n := .remote w.freshRemote) (own.symm ▸ blank : _ ∈ w₁.remoteName _)]
    have deleted : destroy w₁ w.freshRemote = w₁.clearJsonData (.remote w.freshRemote) := by
      simp [destroy, kind, emulated blank]
    change Arrival S Eq (.remote w.freshRemote) name data (listRemote w.freshRemote) w₁
      (false, destroy w₁ w.freshRemote)
    rw [deleted]
    exact .refused blank
  · have solid : (' ' : QChar) ∉ w₁.remoteName w.freshRemote := own.symm ▸ blank
    have members : Ends (fun _ => True) (populateMembers
        (Remote.nodeClass fun w' => Remote.set w' w.freshRemote)
        (repopulate (Remote.nodeClass fun w' => Remote.set w' w.freshRemote)
          (.remote w.freshRemote) stackDepth) w₁ data)
        fun q => q.1 = true ∧ Acts S w₁ q.2 := by
      apply populateMembers_ends (Acts.refl S w₁)
      · exact fun k o' member => absurd member (plain k o')
      · exact fun w₂ k l done => done
      · intro w₂ k s done
        exact (Remote.acts_set (covers₁.of_same done.elements) drives k s).mono
          fun p more => done.trans more
    apply (populateNode_ends (n := .remote w.freshRemote) solid members).bind
    rintro ⟨created, w₃⟩ ⟨done, w₂, grown, rfl⟩
    dsimp only at done ⊢
    subst done
    exact .arrived blank (.of_acts grown) rfl

theorem plain_insert {o : QJsonObject} (plain : Plain o) (k s : QString) :
    Plain (o.insert k (.string s)) := by
  intro k' o' member
  rcases Assoc.mem_insert member with same | old
  · cases same
  · exact plain k' o' old

theorem plain_createRemoteJSon : Plain Remote.createRemoteJSon := by
  intro k o member
  have listed := mem_build member
  simp at listed

theorem value_MAC (address : QString) :
    (RealRemote.createRealRemoteJSon address).value "MAC" = some (.string address) := by
  unfold RealRemote.createRealRemoteJSon
  rw [QJsonObject.value_insert_of_ne _ (by decide), QJsonObject.value_insert_of_ne _ (by decide),
    QJsonObject.value_insert_self]

theorem value_osc (osc ipPort : QString) :
    (EmulatedRemote.createEmulatedRemoteJSon osc ipPort).value "osc" = some (.string osc) := by
  unfold EmulatedRemote.createEmulatedRemoteJSon
  rw [QJsonObject.value_insert_of_ne _ (by decide), QJsonObject.value_insert_self]

theorem createReal_arrival (drives : S.Drives w.freshRemote) (covers : S.Covers w)
    {name : QString} (solid : (' ' : QChar) ∉ name) (address : QString) :
    Ends (fun _ => True) (createSubNode w name (RealRemote.createRealRemoteJSon address))
      (Arrival S Eq (.remote w.freshRemote) name (RealRemote.createRealRemoteJSon address)
        (listRemote w.freshRemote)
        (create w w.freshRemote name true (QJsonObject.build [("MAC", .string address)]))) := by
  have plain : Plain (RealRemote.createRealRemoteJSon address) :=
    plain_insert (plain_insert (plain_insert plain_createRemoteJSon _ _) _ _) _ _
  have contained : (RealRemote.createRealRemoteJSon address).contains "MAC" := by
    rw [QJsonObject.contains, value_MAC]
    rfl
  have text : (RealRemote.createRealRemoteJSon address).toString "MAC" = address := by
    rw [QJsonObject.toString, value_MAC]
    rfl
  unfold createSubNode
  dsimp only
  rw [if_pos contained, text]
  exact populate_arrival drives covers name (fun blank => absurd blank solid) _ plain

theorem createEmulated_arrival (drives : S.Drives w.freshRemote) (covers : S.Covers w)
    (name osc ipPort : QString) :
    Ends (fun _ => True) (createSubNode w name (EmulatedRemote.createEmulatedRemoteJSon osc ipPort))
      (Arrival S Eq (.remote w.freshRemote) name
        (EmulatedRemote.createEmulatedRemoteJSon osc ipPort) (listRemote w.freshRemote)
        (create w w.freshRemote name false
          (QJsonObject.build [("osc", .string osc), ("ipPort", .string "")]))) := by
  have plain : Plain (EmulatedRemote.createEmulatedRemoteJSon osc ipPort) :=
    plain_insert (plain_insert plain_createRemoteJSon _ _) _ _
  have emulated : (EmulatedRemote.createEmulatedRemoteJSon osc ipPort).contains "MAC" = false := by
    unfold QJsonObject.contains EmulatedRemote.createEmulatedRemoteJSon
    rw [QJsonObject.value_insert_of_ne _ (by decide), QJsonObject.value_insert_of_ne _ (by decide)]
    decide
  have contained : (EmulatedRemote.createEmulatedRemoteJSon osc ipPort).contains "osc" := by
    rw [QJsonObject.contains, value_osc]
    rfl
  have text : (EmulatedRemote.createEmulatedRemoteJSon osc ipPort).toString "osc" = osc := by
    rw [QJsonObject.toString, value_osc]
    rfl
  unfold createSubNode
  dsimp only
  rw [if_neg (by simp [emulated]), if_pos contained, text]
  exact populate_arrival drives covers name (fun _ => rfl) _ plain

end RemoteList

end VoxPopuli
