import VoxPopuli.Model.Deeds
import VoxPopuli.Model.Elements

/-! # Making members

New virtual remotes are populated from a document, and while they are, LEDs and states are set
on the remotes which the patch leads to. All of it is a chain of steps along the tree.
-/

namespace VoxPopuli

open World

variable {S : Scope} {F : Footprint} {w w' : World}

/-! ## The remotes which are told -/

namespace RemoteList

theorem byName_eq_some {name : QString} {r : Nat} (found : byName w name = some r) :
    r ∈ w.remotes ∧ w.remoteName r = name :=
  ⟨List.mem_of_find?_eq_some found, by simpa using List.find?_some found⟩

/-- A remote is found under its name. -/
theorem byName_remoteName (listed : w.RemotesListed) {r : Nat} (inside : r ∈ w.remotes) :
    byName w (w.remoteName r) = some r := by
  cases found : byName w (w.remoteName r) with
  | none =>
      have other := List.find?_eq_none.mp found r inside
      simp at other
  | some r' =>
      obtain ⟨inside', same⟩ := byName_eq_some found
      have named : w.nameOf (.remote r') = w.nameOf (.remote r) := same
      have equal := Listed.inj listed.listed (mem_children_remoteList.mpr ⟨r', inside', rfl⟩)
        (mem_children_remoteList.mpr ⟨r, inside, rfl⟩) named
      exact congrArg some (NodeRef.remote.inj equal)

theorem byName_settles (listed : w.RemotesListed) (settled : Settles w w') {name : QString} {r : Nat}
    (found : byName w' name = some r) : byName w name = some r := by
  obtain ⟨inside, rfl⟩ := byName_eq_some found
  rw [settled.remoteName]
  exact byName_remoteName listed (settled.remotes.subset inside)

end RemoteList

namespace World

theorem linkedRemotes_settles (listed : w.RemotesListed) (settled : Settles w w')
    (patch : w'.patch = w.patch) {vName : QString} {r : Nat} (linked : r ∈ w'.linkedRemotes vName) :
    r ∈ w.linkedRemotes vName := by
  obtain ⟨rName, member, found⟩ := List.mem_filterMap.mp linked
  rw [patch] at member
  exact List.mem_filterMap.mpr ⟨rName, member, RemoteList.byName_settles listed settled found⟩

end World

/-- Only one virtual remote is written, and none replaced. -/
def VRef.writing (v : VRef) : Footprint where
  notified := {v}
  edited := {v}

namespace VirtualRemote

/-- A virtual remote leads to no other remotes than before. -/
theorem target_settles {v : VRef} (listed : w.RemotesListed) (settled : Settles w w')
    (kept : Keeps F w w') (other : v ∉ F.rewritten) (refreshed : ∀ g, g ∉ F.refreshed) {r : Nat}
    (inside : r ∈ target w' v) : r ∈ target w v := by
  have patch : w'.patch = w.patch := by rw [kept.roster]
  cases v with
  | free n =>
      have name : w'.vRemoteName (.free n) = w.vRemoteName (.free n) := by rw [kept.roster]
      simp only [target, name] at inside ⊢
      exact linkedRemotes_settles listed settled patch inside
  | member g n =>
      have name : w'.vRemoteName (.member g n) = w.vRemoteName (.member g n) := by rw [kept.roster]
      have group : w'.groupName g = w.groupName g := by rw [kept.roster]
      have slave : ∀ id, VirtualGroup.slave w' g id = VirtualGroup.slave w g id := fun id => by
        unfold VirtualGroup.slave
        rw [kept.slaves g (refreshed g)]
      simp only [target, name, group, slave, kept.otherID _ other] at inside ⊢
      by_cases global : ("Global" : QString) <+: w.vRemoteName (.member g n)
      · rw [if_pos global] at inside ⊢
        exact linkedRemotes_settles listed settled patch inside
      · rw [if_neg global] at inside ⊢
        split at inside
        · cases inside
        · rename_i named
          rw [if_neg named]
          rw [Option.mem_toList] at inside ⊢
          exact RemoteList.byName_settles listed settled inside

end VirtualRemote

/-! ## Populating -/

theorem Event.deeds_populate {v : VRef} {b : Button} (inside : .event v b ∈ S.nodes)
    {o : QJsonObject} (plain : Plain o) :
    Ends (fun _ => True) (populateNode (nodeClass v b) w (.event v b) o) fun q =>
      q.1 = true ∧ Deeds S w q.2 := by
  have members : Ends (fun _ => True) (populateMembers (nodeClass v b)
      (repopulate (nodeClass v b) (.event v b) stackDepth) w o) fun q =>
      q.1 = true ∧ Deeds S w q.2 := by
    apply populateMembers_ends (Deeds.refl S w)
    · exact fun k o' member => absurd member (plain k o')
    · intro w₁ k l done
      exact done.trans (.of_acts (Acts.foldl l (fun w d _ => acts_addEvent inside d k) w₁))
    · exact fun w₁ k s done => done
  apply (populateNode_ends (n := .event v b) (nodeName_solid b) members).mono
  rintro ⟨created, w₂⟩ ⟨done, w₁, chain, rfl⟩
  exact ⟨done, chain.trans (.of_deed (.adopt inside trivial o))⟩

/-- The nodes of a virtual remote are in the scope. -/
structure World.Scope.Holds (S : Scope) (v : VRef) : Prop where
  inside : .vRemote v ∈ S.nodes
  events : ∀ b, .event v b ∈ S.nodes

namespace VirtualRemote

/-- The members of the document of a virtual remote. -/
theorem deeds_populateMembers {v : VRef} (nodes : S.Holds v) (listed : w.RemotesListed)
    (drives : ∀ r ∈ target w v, S.Drives r) {data : QJsonObject} (doc : Document data) :
    Ends (fun _ => True) (populateMembers (nodeClass v)
      (repopulate (nodeClass v) (.vRemote v) stackDepth) w data) fun q =>
      q.1 = true ∧ Keeps v.writing w q.2 ∧ Deeds S w q.2 := by
  apply populateMembers_ends (I := fun w' => Keeps v.writing w w' ∧ Deeds S w w')
    ⟨.refl v.writing w, .refl S w⟩
  · rintro k o member w₁ ⟨kept, chain⟩
    obtain ⟨isEvent, plain⟩ := doc k o member
    obtain ⟨b, found⟩ := Option.isSome_iff_exists.mp isEvent
    have created : (nodeClass v).createSubNode w₁ k o =
        populateNode (Event.nodeClass v b) w₁ (.event v b) o := by
      simp [nodeClass, createSubNode, found]
    rw [created]
    have footprint := (Event.populate_ends (w := w₁) (F := v.writing) rfl rfl b plain).mono_err
      fun _ _ => trivial
    apply (footprint.and (Event.deeds_populate (w := w₁) (nodes.events b) plain)).mono
    rintro q ⟨⟨done, more⟩, -, steps⟩
    exact ⟨done, kept.trans more, chain.trans steps⟩
  · exact fun w₁ k l done => done
  · rintro w₁ k s ⟨kept, chain⟩
    have footprint := (keeps_setValue (w := w₁) (F := v.writing) rfl rfl k s).mono_err
      fun _ _ => trivial
    have acts : Ends (fun _ => True) (setValue w₁ v k s) fun p => Acts S w₁ p.2 :=
      acts_setValue nodes.inside fun _ r member => drives r
        (target_settles listed chain.settles kept (fun none => none) (fun _ none => none) member)
    apply (footprint.and acts).mono
    rintro q ⟨more, steps⟩
    exact ⟨kept.trans more, chain.trans (.of_acts steps)⟩

theorem deeds_populate {v : VRef} (nodes : S.Holds v) (listed : w.RemotesListed)
    (drives : ∀ r ∈ target w v, S.Drives r) {data : QJsonObject} (doc : Document data)
    (solid : (' ' : QChar) ∉ w.vRemoteName v) :
    Ends (fun _ => True) (populateNode (nodeClass v) w (.vRemote v) data) fun q =>
      q.1 = true ∧ ∃ w', Deeds S w w' ∧ q.2 = w'.adopt (.vRemote v) data := by
  have members := deeds_populateMembers nodes listed drives doc
  apply (populateNode_ends (n := .vRemote v) (I := fun w' => Keeps v.writing w w' ∧ Deeds S w w')
    solid members).mono
  rintro q ⟨done, w₁, ⟨-, chain⟩, same⟩
  exact ⟨done, w₁, chain, same⟩

end VirtualRemote

/-! ## Members of groups -/

/-- The nodes of a group are in the scope, and those of members which it has or may get. -/
structure World.Scope.HoldsGroup (S : Scope) (g : Nat) : Prop where
  inside : .group g ∈ S.nodes
  members : ∀ n, S.Holds (.member g n)

namespace VirtualGroup

variable {g : Nat}

/-- The remote which an avatar leads to, as its ID is looked for under another name. -/
def firstRemote (w : World) (g : Nat) : List Nat :=
  if (slave w g 0).isEmpty then [] else (RemoteList.byName w (slave w g 0)).toList

theorem target_created_global (n : Nat) :
    VirtualRemote.target (VirtualRemote.create w (.member g n) "GlobalRemote") (.member g n) =
      w.linkedRemotes (w.groupName g) := by
  have name : (VirtualRemote.create w (.member g n) "GlobalRemote").vRemoteName (.member g n) =
      "GlobalRemote" := Function.update_self ..
  rw [VirtualRemote.target, name, if_pos (by decide)]
  rfl

theorem target_created_avatar (n i : Nat) :
    VirtualRemote.target (VirtualRemote.create w (.member g n) (avatarName i)) (.member g n) =
      firstRemote w g := by
  have name : (VirtualRemote.create w (.member g n) (avatarName i)).vRemoteName (.member g n) =
      avatarName i := Function.update_self ..
  have other : ¬("Global" : QString) <+: avatarName i := by
    rintro ⟨rest, same⟩
    have heads : some ('G' : QChar) = (avatarName i).head? := congrArg List.head? same
    rw [head?_avatarName] at heads
    exact absurd heads (by decide)
  have unset : (VirtualRemote.create w (.member g n) (avatarName i)).get (.vRemote (.member g n))
      "RemoteID" = none := by
    simp [World.get, VirtualRemote.create, QJsonObject.value]
  rw [VirtualRemote.target, name, if_neg other, unset]
  rfl

theorem deeds_createSubNode (nodes : S.HoldsGroup g) (listed : w.RemotesListed) {name : QString}
    (drives : ∀ r ∈ VirtualRemote.target (VirtualRemote.create w (.member g w.fresh) name)
      (.member g w.fresh), S.Drives r)
    {data : QJsonObject} (doc : VirtualRemote.Document data) (solid : (' ' : QChar) ∉ name)
    (numbered : Numbered name) :
    Ends (fun _ => True) (createSubNode w g name data) fun p => Deeds S w p.2 := by
  unfold createSubNode
  split
  · have made : Deeds S w (VirtualRemote.create w (.member g w.fresh) name) :=
      .of_deed (.make g w.fresh name)
    have name₀ : (VirtualRemote.create w (.member g w.fresh) name).vRemoteName (.member g w.fresh) =
        name := Function.update_self ..
    dsimp only
    generalize VirtualRemote.create w (.member g w.fresh) name = w₀ at made name₀ drives ⊢
    have populated := VirtualRemote.deeds_populate (nodes.members w.fresh) (listed.deeds made) drives
      doc (name₀ ▸ solid)
    apply populated.bind
    rintro ⟨created, w₂⟩ ⟨done, w₁, chain, rfl⟩
    dsimp only at done ⊢
    subst done
    have adopted := (made.trans chain).trans
      (.of_deed (.adopt (nodes.members w.fresh).inside trivial data))
    simp only [Bool.not_true, Bool.false_eq_true, if_false]
    split
    · exact adopted.trans (.of_deed (.seat _ _))
    · rename_i avatar
      obtain ⟨id, number⟩ := Option.isSome_iff_exists.mp (numbered.resolve_left avatar)
      rw [number]
      dsimp only
      unfold setVirtualRemote
      split
      · exact adopted.trans (.of_deed (.seat _ _))
      · trivial
  · exact .refl S w

theorem deeds_removeVirtualRemotes (nodes : S.HoldsGroup g) (delta : Nat) :
    Ends (fun _ => True) (removeVirtualRemotes w g delta) (Deeds S w) := by
  induction delta generalizing w with
  | zero => exact .refl S w
  | succ delta ih =>
      unfold removeVirtualRemotes
      split
      · trivial
      · trivial
      · rename_i v _
        have left : Deeds S w (w.removeSubNode (.group g) (.vRemote v)) :=
          .of_deed (.leave nodes.inside v)
        apply ih.mono
        intro w' more
        exact (left.trans (.of_deed (.seat _ _))).trans more

/-- The next avatars, each of which is told of by the same remote. -/
theorem deeds_addVirtualRemotes {global : Nat} {avatars : List Nat} (nodes : S.HoldsGroup g)
    (listed : w.RemotesListed) (ok : w.GroupOk g global avatars) {nbr : Int} {delta : Nat}
    (inside : g ∈ w.vGroups)
    (drives : 0 < delta → ∀ r ∈ firstRemote w g, S.Drives r)
    (sum : nbr = avatars.length + delta) (small : nbr < 2 ^ 31) :
    Ends (fun _ => True) (addVirtualRemotes w g nbr delta) (Deeds S w) := by
  induction delta generalizing w avatars with
  | zero => exact .refl S w
  | succ delta ih =>
      have name := next_avatarName sum
      have next := (createSubNode_ends ok (by omega)).of_any
      have steps := deeds_createSubNode nodes listed
        (fun r member => drives (Nat.succ_pos _) r
          (target_created_avatar w.fresh avatars.length ▸ member))
        (VirtualRemote.document_createVirtualRemoteJSon.insert "remoteID" (-1))
        (avatarName_solid avatars.length) (numbered_avatarName (by omega))
      have both := next.and steps
      rw [← name] at both
      apply both.bind
      rintro ⟨created, w₁⟩ ⟨⟨ok₁, resized⟩, chain⟩
      dsimp only at ok₁ resized chain ⊢
      have inside₁ : g ∈ w₁.vGroups := by
        rw [resized.sameLinks.vGroups]
        exact inside
      have drives₁ : 0 < delta → ∀ r ∈ firstRemote w₁ g, S.Drives r := by
        intro _ r member
        apply drives (Nat.succ_pos _) r
        have same : slave w₁ g 0 = slave w g 0 := by
          unfold slave
          rw [resized.sameLinks.slaves g inside]
        unfold firstRemote at member ⊢
        rw [same] at member
        split at member
        · cases member
        · rename_i named
          rw [if_neg named]
          rw [Option.mem_toList] at member ⊢
          exact RemoteList.byName_settles listed chain.settles member
      refine (ih (listed.deeds chain) ok₁ inside₁ drives₁ ?_).mono fun w' more => chain.trans more
      simp only [List.length_append, List.length_singleton]
      push_cast at sum ⊢
      omega

/-- The group is given more avatars. -/
def Grows (w : World) (g : Nat) (name value : QString) : Prop :=
  name = "avatarsNbr" ∧ ∃ nbr, value.toInt? = some nbr ∧ ((w.virtualRemotes g).length : Int) < nbr

theorem deeds_setValue {global : Nat} {avatars : List Nat} (nodes : S.HoldsGroup g)
    (listed : w.RemotesListed) (ok : w.GroupOk g global avatars) (inside : g ∈ w.vGroups)
    {name value : QString} (drives : Grows w g name value → ∀ r ∈ firstRemote w g, S.Drives r) :
    Ends (fun _ => True) (setValue w g name value) fun p => Deeds S w p.2 := by
  unfold setValue
  split
  · rename_i avatarsNbr
    subst avatarsNbr
    cases number : value.toInt? with
    | none => exact .refl S w
    | some nbr =>
        have small : nbr < 2 ^ 31 :=
          (of_decide_eq_true (Option.filter_eq_some_iff.mp number).2).2
        have count := ok.length_json
        have length : (w.virtualRemotes g).length = avatars.length := by simp [ok.virtualRemotes]
        have resized : Ends (fun _ => True) (setVirtualRemotesNbr w g nbr) (Deeds S w) := by
          rw [setVirtualRemotesNbr]
          dsimp only
          rw [if_neg (by omega), count]
          split
          · rename_i more
            push_cast at more ⊢
            refine deeds_addVirtualRemotes nodes listed ok inside (fun grows => drives ?_) (by omega)
              small
            exact ⟨rfl, nbr, number, by omega⟩
          · exact deeds_removeVirtualRemotes nodes _
        apply resized.bind
        intro w' chain
        exact chain.trans (.of_acts (acts_assign nodes.inside ⟨by decide, _, rfl⟩ _))
  · exact .refl S w

/-- The members of the document of a new group. -/
theorem deeds_populateMembers (nodes : S.HoldsGroup g) (listed : w.RemotesListed)
    (empty : w.json (.group g) = [])
    (drives : ∀ r ∈ w.linkedRemotes (w.groupName g), S.Drives r) :
    Ends (fun _ => True) (populateMembers (nodeClass g)
      (repopulate (nodeClass g) (.group g) stackDepth) w createGroupJSon) fun q =>
      q.1 = true ∧ Deeds S w q.2 := by
  have global := (createGlobalRemote_ends (w := w) empty).of_any
  have steps : Ends (fun _ => True)
      (createSubNode w g "GlobalRemote" VirtualRemote.createVirtualRemoteJSon) fun p => Deeds S w p.2 :=
    deeds_createSubNode nodes listed
      (fun r member => drives r (target_created_global w.fresh ▸ member))
      VirtualRemote.document_createVirtualRemoteJSon (by decide) (.inl (by decide))
  rw [createGroupJSon_eq, populateMembers]
  apply (global.and steps).bind
  rintro ⟨created, w₁⟩ ⟨⟨done, -, few⟩, chain⟩
  dsimp only at done few chain ⊢
  subst done
  have number : Ends (fun _ => True) (setValue w₁ g "avatarsNbr" (QString.ofDouble 0)) fun p =>
      Deeds S w₁ p.2 := by
    rw [setValue, if_pos rfl]
    cases (QString.ofDouble 0).toInt? with
    | none => exact .refl S w₁
    | some nbr =>
        have unchanged : setVirtualRemotesNbr w₁ g nbr = .ok w₁ := if_pos few
        simp only [unchanged]
        exact .of_acts (acts_assign nodes.inside ⟨by decide, _, rfl⟩ _)
  rw [if_pos rfl, populateMembers]
  apply number.bind
  rintro ⟨e, w₂⟩ more
  exact ⟨rfl, chain.trans more⟩

end VirtualGroup

end VoxPopuli
