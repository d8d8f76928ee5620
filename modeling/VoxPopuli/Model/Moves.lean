import VoxPopuli.Model.Containers

/-! # Children which leave and children with another name

A child which is removed is taken out of the list of its container, out of the child nodes and
out of the JSON. One which is renamed has its entry moved to the new name.
-/

namespace VoxPopuli

open World

variable {w w' : World} {p e : NodeRef} {name : QString}

namespace World

/-- Nothing of a container changes. -/
theorem InOrder.congr {q : NodeRef} (order : w.InOrder q) (children : w'.children q = w.children q)
    (subnodes : w'.subnodes q = w.subnodes q) (names : ∀ c ∈ w.children q, w'.nameOf c = w.nameOf c)
    (json : w'.json q = w.json q) : w'.InOrder q := by
  unfold InOrder
  rw [children, subnodes]
  refine Complete.congr order names fun k => ?_
  unfold Entry
  rw [json]

theorem RemotesListed.congr (listed : w.RemotesListed) (remotes : w'.remotes = w.remotes)
    (remoteName : w'.remoteName = w.remoteName) (freshRemote : w'.freshRemote = w.freshRemote)
    (json : w'.json .remoteList = w.json .remoteList) : w'.RemotesListed := by
  have children : w'.children .remoteList = w.children .remoteList := congrArg (List.map _) remotes
  constructor
  · rw [children]
    refine Listed.congr listed.listed (fun c member => ?_) fun k there => ?_
    · obtain ⟨r, -, rfl⟩ := mem_children_remoteList.mp member
      exact congrFun remoteName r
    · unfold Entry at there ⊢
      rwa [json]
  · rw [remotes, freshRemote]
    exact listed.old

/-! ## Children which leave -/

theorem Stable.drop {r : Nat} (inside : r ∈ w.remotes) : Stable True w (RemoteList.drop w r) := by
  obtain ⟨json, removed, own, others⟩ := removeSubNode_frame w .remoteList (.remote r)
  refine ⟨fun listed => listed.drop inside, fun order => ?_, fun _ order => ?_⟩
  · refine order.congr rfl ?_ (fun c _ => congrFun (nameOf_drop w r) c) ?_
    · rw [RemoteList.drop, removed]
      simp
    · rw [RemoteList.drop, removed]
      exact others _ (by simp [NodeRef.ancestors])
  · have subnodes : (RemoteList.drop w r).subnodes .remoteList =
        (w.subnodes .remoteList).erase (.remote r) := by
      rw [RemoteList.drop, removed]
      simp
    unfold InOrder
    rw [children_drop, subnodes, nameOf_drop]
    exact Complete.erase order (mem_children_remoteList.mpr ⟨r, inside, rfl⟩) (entry_drop w r)

/-- An element leaves the virtual network. -/
theorem Stable.leave {vRemotes vGroups : List Nat} (inside : e ∈ w.children .virtualNet)
    (children : (World.children { w with vRemotes := vRemotes, vGroups := vGroups } .virtualNet).Perm
      ((w.children .virtualNet).erase e)) :
    Stable True w (World.removeSubNode { w with vRemotes := vRemotes, vGroups := vGroups }
      .virtualNet e) := by
  obtain ⟨json, removed, own, others⟩ := removeSubNode_frame
    { w with vRemotes := vRemotes, vGroups := vGroups } .virtualNet e
  have name : World.nameOf { w with vRemotes := vRemotes, vGroups := vGroups } e = w.nameOf e := by
    cases e <;> rfl
  rw [name] at own
  have list : json .remoteList = w.json .remoteList := others _ (by simp [NodeRef.ancestors])
  refine ⟨fun listed => ?_, fun order => ?_, fun _ order => ?_⟩
  · rw [removed]
    exact listed.congr rfl rfl rfl list
  · have complete : Complete ((w.children .virtualNet).erase e) ((w.subnodes .virtualNet).erase e)
        w.nameOf fun k => ∃ o, (json .virtualNet).value k = some (.object o) := by
      refine Complete.erase order inside fun k => ?_
      rw [own]
      unfold Entry
      by_cases named : k = w.nameOf e
      · simp [named]
      · simp [named]
    have subnodes : (World.removeSubNode { w with vRemotes := vRemotes, vGroups := vGroups }
        .virtualNet e).subnodes .virtualNet = (w.subnodes .virtualNet).erase e := by
      rw [removed]
      simp
    unfold InOrder
    rw [subnodes, removed]
    exact (complete.reorder children).congr (fun c _ => by cases c <;> rfl) fun k => Iff.rfl
  · rw [removed]
    exact order.congr rfl (by simp) (fun c _ => by cases c <;> rfl) list

theorem children_erase_free (n : Nat) :
    (World.children { w with vRemotes := w.vRemotes.erase n } .virtualNet).Perm
      ((w.children .virtualNet).erase (.vRemote (.free n))) := by
  have injective : Function.Injective fun n => NodeRef.vRemote (.free n) :=
    fun _ _ same => VRef.free.inj (NodeRef.vRemote.inj same)
  have outside : NodeRef.vRemote (.free n) ∉ w.vGroups.map NodeRef.group := by simp
  simp only [children]
  rw [List.erase_append_right _ outside, List.map_erase injective]

theorem children_erase_group {g : Nat} (inside : g ∈ w.vGroups) :
    (World.children { w with vGroups := w.vGroups.erase g } .virtualNet).Perm
      ((w.children .virtualNet).erase (.group g)) := by
  have injective : Function.Injective NodeRef.group := fun _ _ same => NodeRef.group.inj same
  simp only [children]
  rw [List.erase_append_left _ (List.mem_map_of_mem inside), List.map_erase injective]

/-! ## Children with another name -/

/-- What a rename does which is accepted. -/
structure Moved (p e : NodeRef) (name : QString) (w w' : World) : Prop where
  children : ∀ q, w'.children q = w.children q
  subnodes : w'.subnodes = w.subnodes
  names : ∀ q c, c.holder = some (q, c) → c ≠ e → w'.nameOf c = w.nameOf c
  own : w'.nameOf e = name
  entries : ∀ k, w'.Entry p k ↔ k = name ∨ k ≠ w.nameOf e ∧ w.Entry p k
  others : ∀ q, IsContainer q → q ≠ p → ∀ k, w'.Entry q k ↔ w.Entry q k
  remotes : w'.remotes = w.remotes
  freshRemote : w'.freshRemote = w.freshRemote

theorem mirrored_fields (w : World) (n : NodeRef) :
    (∀ q, (w.updateParentJSon n).children q = w.children q) ∧
      (w.updateParentJSon n).subnodes = w.subnodes ∧ (w.updateParentJSon n).nameOf = w.nameOf ∧
        (w.updateParentJSon n).remotes = w.remotes ∧
          (w.updateParentJSon n).freshRemote = w.freshRemote := by
  obtain ⟨json, same, -⟩ := mirror_frame w n n.ancestors
  rw [updateParentJSon, same]
  refine ⟨fun q => by cases q <;> rfl, rfl, ?_, rfl, rfl⟩
  funext c
  cases c <;> rfl

/-- A rename is refused when the container has the name already. -/
theorem rename_moved (held : e.holder = some (p, e)) (name : QString) :
    (w.json p).contains name ∧ w.rename e name = (false, w) ∨
      (w.json p).contains name = false ∧ (w.rename e name).1 = true ∧
        Moved p e name w (w.rename e name).2 := by
  have place := childOf_of_holder held
  obtain ⟨rest, parent⟩ := place.parent
  generalize named : (w.setJson p ((w.json p).remove (w.nameOf e))).setName e name = w₁
  by_cases taken : (w.json p).contains name
  · exact .inl ⟨taken, rename_refused parent taken⟩
  · have renamed : w.rename e name = (true, w₁.updateParentJSon e) := by
      rw [rename, parent, ← named]
      exact if_neg taken
    have fields : (∀ q, w₁.children q = w.children q) ∧ w₁.subnodes = w.subnodes ∧
        (∀ q c, c.holder = some (q, c) → c ≠ e → w₁.nameOf c = w.nameOf c) ∧ w₁.nameOf e = name ∧
          w₁.json = Function.update w.json p ((w.json p).remove (w.nameOf e)) ∧
            w₁.remotes = w.remotes ∧ w₁.freshRemote = w.freshRemote := by
      rw [← named]
      cases e with
      | remote r | group g =>
          refine ⟨fun q => by cases q <;> rfl, rfl, fun q c _ other => ?_, Function.update_self ..,
            rfl, rfl, rfl⟩
          cases c <;> first | rfl | exact Function.update_of_ne (by simpa using other) _ _
      | vRemote v =>
          refine ⟨fun q => by cases q <;> rfl, rfl, fun q c _ other => ?_, Function.update_self ..,
            rfl, rfl, rfl⟩
          cases c <;> first | rfl | exact Function.update_of_ne (by simpa using other) _ _
      | event v b => cases v <;> cases held
      | network | remoteList | patch | eventModel | virtualNet => cases held
    obtain ⟨children, subnodes, names, own, json, remotes, fresh⟩ := fields
    obtain ⟨children', subnodes', names', remotes', fresh'⟩ := mirrored_fields w₁ e
    refine .inr ⟨by simpa using taken, by rw [renamed], ?_⟩
    rw [renamed]
    refine ⟨fun q => (children' q).trans (children q), subnodes'.trans subnodes, ?_, ?_, ?_, ?_,
      remotes'.trans remotes, fresh'.trans fresh⟩
    · intro q c held' other
      exact (congrFun names' c).trans (names q c held' other)
    · exact (congrFun names' e).trans own
    · intro k
      have entry : w₁.Entry p k ↔ k ≠ w.nameOf e ∧ w.Entry p k := by
        unfold Entry
        rw [json]
        by_cases same : k = w.nameOf e
        · simp [same]
        · simp [same]
      rw [entry_updateParentJSon place.container, entry]
      constructor
      · rintro (old | ⟨c, held', there⟩)
        · exact .inr old
        · cases held.symm.trans held'
          exact .inl (there.symm.trans own)
      · rintro (rfl | old)
        · exact .inr ⟨e, held, own⟩
        · exact .inl old
    · intro q container' differ k
      have entry : w₁.Entry q k ↔ w.Entry q k := by
        unfold Entry
        rw [json, Function.update_of_ne differ]
      rw [entry_updateParentJSon container', entry]
      constructor
      · rintro (old | ⟨c, held', there⟩)
        · exact old
        · cases held.symm.trans held'
          exact absurd rfl differ
      · exact .inl

/-- A rename keeps both containers as they are, but for the name. -/
theorem Stable.rename (inside : e ∈ w.children p) (name : QString) :
    Stable True w (w.rename e name).2 := by
  have held := mem_children_holder inside
  rcases rename_moved held name with ⟨-, refused⟩ | ⟨free, -, moved⟩
  · rw [refused]
    exact .refl True w
  · generalize (w.rename e name).2 = w' at moved ⊢
    have absent : ¬w.Entry p (w'.nameOf e) := by
      rintro ⟨o, found⟩
      rw [moved.own] at found
      rw [QJsonObject.contains, found] at free
      cases free
    have entries : ∀ k, w'.Entry p k ↔ k = w'.nameOf e ∨ k ≠ w.nameOf e ∧ w.Entry p k := by
      intro k
      rw [moved.own]
      exact moved.entries k
    have same : ∀ q, ∀ c ∈ w.children q, c ≠ e → w'.nameOf c = w.nameOf c :=
      fun q c member other => moved.names q c (mem_children_holder member) other
    have order : ∀ q, IsContainer q → w.InOrder q → w'.InOrder q := by
      intro q container order
      unfold InOrder
      rw [moved.children, moved.subnodes]
      by_cases own : q = p
      · subst own
        exact Complete.rename order inside (same q) absent entries
      · refine Complete.congr order (fun c member => same q c member ?_)
          (moved.others q container own)
        rintro rfl
        exact own (congrArg Prod.fst (Option.some.inj ((mem_children_holder member).symm.trans held)))
    refine ⟨fun listed => ⟨?_, ?_⟩, order _ (.inr rfl), fun _ => order _ (.inl rfl)⟩
    · rw [moved.children]
      by_cases own : p = .remoteList
      · subst own
        refine Listed.rename listed.listed inside (same _) absent (fun k other there => ?_) ?_
        · exact (entries k).mpr (.inr ⟨other, there⟩)
        · exact (entries _).mpr (.inl rfl)
      · refine Listed.congr listed.listed (fun c member => same _ c member ?_) fun k there =>
          (moved.others _ (.inl rfl) (Ne.symm own) k).mpr there
        rintro rfl
        exact own (congrArg Prod.fst (Option.some.inj (held.symm.trans (mem_children_holder member))))
    · rw [moved.remotes, moved.freshRemote]
      exact listed.old

end World

end VoxPopuli
