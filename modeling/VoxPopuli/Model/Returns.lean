import VoxPopuli.Model.Arrivals
import VoxPopuli.Model.Routing

/-! # Creation comes to an end

Populating a child takes the mutex of the patch again and again, and could end in one of the
faults of the members. With the mutex free and the documents which the add functions use it
never does.
-/

namespace VoxPopuli

open World

variable {w : World}

namespace World

theorem unlocked_adopt (free : w.Unlocked) (n : NodeRef) (data : QJsonObject) :
    (w.adopt n data).Unlocked := by
  have stored : (w.storeJson n data).Unlocked := by
    cases n <;> exact free
  unfold adopt
  split
  · exact stored
  · rename_i p rest parent
    obtain ⟨json, same, -⟩ := addSubNode_frame (w.storeJson n data) p n
    rw [same]
    exact stored

theorem unlocked_assign (free : w.Unlocked) (n : NodeRef) (k : QString) (same : QJsonValue → Bool)
    (v : QJsonValue) : (w.assign n k same v).2.Unlocked := by
  obtain ⟨json, written, -⟩ := w.assign_frame n k same v
  rw [written]
  exact free

end World

/-! ## Virtual remotes -/

theorem Event.populateNode_returns (v : VRef) (b : Button) :
    populateNode (nodeClass v b) w (.event v b) createEventJSon =
      .ok (true, w.adopt (.event v b) createEventJSon) := by
  have solid : (' ' : QChar) ∉ w.nameOf (.event v b) := nodeName_solid b
  rw [populateNode, if_neg solid]
  rfl

namespace VirtualRemote

variable (free : w.Unlocked)

include free

/-- A button which is not known to the text is refused, and nothing else fails. -/
theorem setValue_returns (v : VRef) {name value : QString}
    (still : name ∈ (["Up", "Down", "Left", "Right", "Action"] : QStringList) → value = "NA") :
    Ends (fun _ => False) (setValue w v name value) fun p => p.2.Unlocked := by
  have kept := (keeps_setValue (w := w) (F := v.writing) rfl rfl name value).of_any
  refine .join ?_ (kept.mono fun p kept => kept.unlocked free)
  have reach : patchedRemotes w v = .ok (target w v, w) := patchedRemotes_eq free v
  unfold setValue
  split
  · rename_i button
    rw [still button]
    trivial
  · split
    · cases value.toInt? with
      | none => trivial
      | some n =>
          simp only [fastTrigger, if_true, sendFastTrigger, reach]
          trivial
    · split
      · rw [reach]
        trivial
      · split
        · cases value.toInt? with
          | none => trivial
          | some n =>
              have set : (w.setNumber (.vRemote v) name (Byte.ofInt n).val).2.Unlocked :=
                unlocked_assign free _ _ _ _
              simp only [updateVirtualRemote_eq set]
              trivial
        · trivial

omit free in
theorem mem_createVirtualRemoteJSon {m : QString × QJsonValue}
    (member : m ∈ createVirtualRemoteJSon) :
    (∃ d, m.2 = .double d ∧ m.1 = "LED") ∨ (∃ s, m.2 = .string s ∧ (s = "NA" ∨ m.1 = "State")) ∨
      ∃ b, Button.ofNodeName? m.1 = some b ∧ m.2 = .object Event.createEventJSon := by
  have listed := mem_build member
  simp only [List.mem_cons, List.not_mem_nil, or_false] at listed
  rcases listed with rfl | rfl | rfl | rfl | rfl | rfl | rfl | rfl | rfl | rfl | rfl | rfl
  · exact .inl ⟨0, rfl, rfl⟩
  all_goals first
    | exact .inr (.inl ⟨_, rfl, .inl rfl⟩)
    | exact .inr (.inl ⟨_, rfl, .inr rfl⟩)
    | exact .inr (.inr ⟨_, rfl, rfl⟩)

theorem populateNode_returns (v : VRef) (solid : (' ' : QChar) ∉ w.vRemoteName v) :
    Ends (fun _ => False) (populateNode (nodeClass v) w (.vRemote v) createVirtualRemoteJSon)
      fun q => q.1 = true ∧ q.2.Unlocked := by
  have members : Ends (fun _ => False) (populateMembers (nodeClass v)
      (repopulate (nodeClass v) (.vRemote v) stackDepth) w createVirtualRemoteJSon) fun q =>
      q.1 = true ∧ q.2.Unlocked := by
    apply populateMembers_each free
    rintro ⟨k, x⟩ member w₁ free₁
    rcases mem_createVirtualRemoteJSon member with ⟨d, rfl, rfl⟩ | ⟨s, rfl, still⟩ | ⟨b, named, rfl⟩
    · have set : Ends (fun _ => False) (setValue w₁ v "LED" (QString.ofDouble d))
          fun p => p.2.Unlocked :=
        setValue_returns free₁ v fun button => absurd button (by decide)
      exact set.bind fun p free₂ => ⟨rfl, free₂⟩
    · have set : Ends (fun _ => False) (setValue w₁ v k s) fun p => p.2.Unlocked := by
        refine setValue_returns free₁ v fun button => still.resolve_right ?_
        rintro rfl
        exact absurd button (by decide)
      exact set.bind fun p free₂ => ⟨rfl, free₂⟩
    · have created : populateMember (nodeClass v) w₁ (k, .object Event.createEventJSon) =
          .ok (true, w₁.adopt (.event v b) Event.createEventJSon) := by
        simp only [populateMember, nodeClass, createSubNode, named, Event.populateNode_returns]
      rw [created]
      exact ⟨rfl, unlocked_adopt free₁ _ _⟩
  apply (populateNode_ends (n := .vRemote v) solid members).mono
  rintro ⟨created, w₂⟩ ⟨done, w₁, free₁, rfl⟩
  exact ⟨done, unlocked_adopt free₁ _ _⟩

end VirtualRemote

/-! ## Groups -/

namespace VirtualGroup

variable {g : Nat} (free : w.Unlocked)

include free

theorem createGlobalRemote_returns (empty : w.json (.group g) = []) :
    Ends (fun _ => False) (createSubNode w g "GlobalRemote" VirtualRemote.createVirtualRemoteJSon)
      fun p => p.1 = true ∧ (p.2.json (.group g)).length < 3 := by
  have created := (createGlobalRemote_ends empty).of_any
  refine .join ?_ (created.mono fun p done => ⟨done.1, done.2.2⟩)
  have named : (VirtualRemote.create w (.member g w.fresh) "GlobalRemote").vRemoteName
      (.member g w.fresh) = "GlobalRemote" := Function.update_self ..
  have free₁ : (VirtualRemote.create w (.member g w.fresh) "GlobalRemote").Unlocked := free
  rw [createSubNode, if_pos (.inl rfl)]
  refine (VirtualRemote.populateNode_returns free₁ (.member g w.fresh)
    (named.symm ▸ by decide)).bind ?_
  rintro ⟨created, w₂⟩ ⟨done, free₂⟩
  dsimp only at done
  subst done
  trivial

theorem populateNode_returns (empty : w.json (.group g) = [])
    (solid : (' ' : QChar) ∉ w.groupName g) :
    Ends (fun _ => False) (populateNode (nodeClass g) w (.group g) createGroupJSon) fun q =>
      q.1 = true ∧ ∃ w', Populated g w w' ∧ q.2 = w'.adopt (.group g) createGroupJSon := by
  apply populateNode_ends (n := .group g) solid
  refine .join ?_ (populateMembers_ends empty).of_any
  rw [createGroupJSon_eq, populateMembers]
  apply (createGlobalRemote_returns free empty).bind
  rintro ⟨created, w₁⟩ ⟨done, few⟩
  dsimp only at done few
  subst done
  have number : Ends (fun _ => False) (setValue w₁ g "avatarsNbr" (QString.ofDouble 0))
      fun _ => True := by
    rw [setValue, if_pos rfl]
    cases (QString.ofDouble 0).toInt? with
    | none => trivial
    | some nbr =>
        have unchanged : setVirtualRemotesNbr w₁ g nbr = .ok w₁ := if_pos few
        simp only [unchanged]
        trivial
  dsimp only
  rw [if_pos rfl, populateMembers]
  exact number.bind fun p _ => trivial

theorem updateFromPatch_returns {v : VRef} (global : w.globalRemote g = some v)
    (none : w.virtualRemotes g = []) :
    Ends (fun _ => False) (updateFromPatch w g) fun _ => True := by
  have kept : Keeps { refreshed := {g} } w (refreshSlaves w g) := keeps_refreshSlaves rfl
  have global' : (refreshSlaves w g).globalRemote g = some v := by rw [kept.roster, global]
  have updated := VirtualRemote.updateVirtualRemote_eq (kept.unlocked free) v
  have none' : (VirtualRemote.showRemote (refreshSlaves w g) v
      (VirtualRemote.target (refreshSlaves w g) v).head?).virtualRemotes g = [] := by
    rw [VirtualRemote.showRemote_roster, kept.roster, none]
  rw [updateFromPatch, updateVirtualRemotes, global']
  dsimp only
  rw [updated]
  show Ends _ (List.foldlM _ _ _) _
  rw [none']
  trivial

end VirtualGroup

/-! ## Elements -/

namespace VirtualNetwork

variable (free : w.Unlocked)

include free

theorem createRemote_returns (name : QString) :
    Ends (fun _ => False) (createSubNode w name VirtualRemote.createVirtualRemoteJSon)
      fun _ => True := by
  have free₁ : (VirtualRemote.create w (.free w.fresh) name).Unlocked := free
  rw [createSubNode, if_neg (by decide), if_pos (by decide)]
  dsimp only
  generalize VirtualRemote.create w (.free w.fresh) name = w₁ at free₁ ⊢
  by_cases blank : (' ' : QChar) ∈ w₁.vRemoteName (.free w.fresh)
  · rw [populateNode_refused (n := .vRemote (.free w.fresh)) blank]
    trivial
  · apply (VirtualRemote.populateNode_returns free₁ (.free w.fresh) blank).bind
    rintro ⟨created, w₂⟩ ⟨done, free₂⟩
    dsimp only at done free₂
    subst done
    have listed : Unlocked { w₂ with vRemotes := w₂.vRemotes ++ [w.fresh] } := free₂
    simp only [VirtualRemote.updateVirtualRemote_eq listed]
    trivial

theorem createGroup_returns (name : QString) :
    Ends (fun _ => False) (createSubNode w name VirtualGroup.createGroupJSon) fun _ => True := by
  have free₁ : (VirtualGroup.create w w.fresh name).Unlocked := free
  have empty : (VirtualGroup.create w w.fresh name).json (.group w.fresh) = [] :=
    Function.update_self ..
  have none : (VirtualGroup.create w w.fresh name).virtualRemotes w.fresh = [] :=
    Function.update_self ..
  rw [createSubNode, if_pos (by decide)]
  dsimp only
  generalize VirtualGroup.create w w.fresh name = w₁ at free₁ empty none ⊢
  by_cases blank : (' ' : QChar) ∈ w₁.groupName w.fresh
  · rw [populateNode_refused (n := .group w.fresh) blank]
    trivial
  · apply (VirtualGroup.populateNode_returns free₁ empty blank).bind
    rintro ⟨created, w₃⟩ ⟨done, w₂, shape, rfl⟩
    dsimp only at done ⊢
    subst done
    have free₂ : w₂.Unlocked := by
      rw [Unlocked, shape.resized.sameLinks.mutex]
      exact free₁
    have adopted := unlocked_adopt free₂ (.group w.fresh) VirtualGroup.createGroupJSon
    obtain ⟨json, same, -⟩ := adopt_frame (w := w₂) (e := .group w.fresh) rfl (by simp)
      VirtualGroup.createGroupJSon
    rw [same] at adopted ⊢
    simp only [Bool.not_true, Bool.false_eq_true, if_false]
    refine Ends.bind (VirtualGroup.updateFromPatch_returns ?_ shape.globalRemote
      (shape.virtualRemotes.trans none)) fun _ _ => trivial
    exact adopted

theorem addRemote_returns (name : QString) :
    Ends (fun _ => False) (addRemote w name) fun _ => True := by
  unfold addRemote
  split
  · trivial
  · exact (createRemote_returns free _).bind fun _ _ => trivial

theorem addGroup_returns (name : QString) :
    Ends (fun _ => False) (addGroup w name) fun _ => True := by
  unfold addGroup
  split
  · trivial
  · exact (createGroup_returns free _).bind fun _ _ => trivial

end VirtualNetwork

/-! ## Remotes -/

theorem EmulatedRemote.setValue_returns (h : w.WellFormed) (free : w.Unlocked) (r : Nat)
    (name value : QString) : Ends (fun _ => False) (setValue w r name value) fun _ => True := by
  unfold setValue
  split
  · rename_i type known
    obtain ⟨b, rfl⟩ : ∃ b, type = Remote.message b := by
      unfold button? at known
      split_ifs at known
      · exact ⟨0, (Option.some.inj known).symm⟩
      · exact ⟨1, (Option.some.inj known).symm⟩
      · exact ⟨3, (Option.some.inj known).symm⟩
      · exact ⟨2, (Option.some.inj known).symm⟩
      · exact ⟨4, (Option.some.inj known).symm⟩
    have pressed : ∀ pressed, ∃ w', Remote.setButtonState w r (Remote.message b) pressed = .ok w' := by
      intro pressed
      obtain ⟨w', run, -⟩ := Remote.setButtonState_log h free r b pressed
      exact ⟨w', run⟩
    obtain ⟨w₁, up⟩ := pressed false
    obtain ⟨w₂, down⟩ := pressed true
    rw [up, down]
    split
    · trivial
    · split <;> trivial
  · split
    · trivial
    · split
      · split <;> trivial
      · trivial

namespace RemoteList

variable (h : w.WellFormed) (free : w.Unlocked)

include h free

theorem createEmulated_returns (name osc ipPort : QString) :
    Ends (fun _ => False) (createSubNode w name (EmulatedRemote.createEmulatedRemoteJSon osc ipPort))
      fun _ => True := by
  have plain : Plain (EmulatedRemote.createEmulatedRemoteJSon osc ipPort) :=
    plain_insert (plain_insert plain_createRemoteJSon _ _) _ _
  have created : ∀ real o, Keeps (w.pressing w.freshRemote) w
      (create w w.freshRemote name real o) := fun real o =>
    (keeps_setRemote (F := w.pressing w.freshRemote) rfl o).trans (keeps_of_same rfl rfl rfl rfl rfl)
  have set : ∀ w₁ k s, Keeps (w.pressing w.freshRemote) w w₁ → Ends (fun _ => False)
      (Remote.set w₁ w.freshRemote k s) fun p => Keeps (w.pressing w.freshRemote) w p.2 := by
    intro w₁ k s kept
    have pressed := (Remote.keeps_set (w := w₁) w.freshRemote k s).of_any
    rw [kept.pressing_eq] at pressed
    refine .join ?_ (pressed.mono fun p more => kept.trans more)
    unfold Remote.set
    split
    · trivial
    · exact EmulatedRemote.setValue_returns ((Stays.of_pressing kept).wellFormed h)
        (kept.unlocked free) _ k s
  have populated : ∀ real o, Ends (fun _ => False)
      (populateNode (Remote.nodeClass fun w' => Remote.set w' w.freshRemote)
        (create w w.freshRemote name real o) (.remote w.freshRemote)
        (EmulatedRemote.createEmulatedRemoteJSon osc ipPort)) fun _ => True := by
    intro real o
    have members : Ends (fun _ => False) (populateMembers
        (Remote.nodeClass fun w' => Remote.set w' w.freshRemote)
        (repopulate (Remote.nodeClass fun w' => Remote.set w' w.freshRemote)
          (.remote w.freshRemote) stackDepth) (create w w.freshRemote name real o)
        (EmulatedRemote.createEmulatedRemoteJSon osc ipPort)) fun q =>
        q.1 = true ∧ Keeps (w.pressing w.freshRemote) w q.2 := by
      apply populateMembers_ends (created real o)
      · exact fun k o' member => absurd member (plain k o')
      · exact fun w₁ k l kept => kept
      · exact fun w₁ k s kept => set w₁ k s kept
    by_cases blank : (' ' : QChar) ∈ (create w w.freshRemote name real o).nameOf
        (.remote w.freshRemote)
    · rw [populateNode_refused blank]
      trivial
    · exact (populateNode_ends blank members).mono fun _ _ => trivial
  unfold createSubNode
  dsimp only
  split
  · exact (populated true _).bind fun _ _ => trivial
  · split
    · exact (populated false _).bind fun _ _ => trivial
    · trivial

theorem emulateRemote_returns (name osc ipPort : QString) :
    Ends (fun _ => False) (emulateRemote w name osc ipPort) fun _ => True := by
  unfold emulateRemote
  split
  · trivial
  · exact (createEmulated_returns h free name osc ipPort).bind fun _ _ => trivial

end RemoteList

end VoxPopuli
