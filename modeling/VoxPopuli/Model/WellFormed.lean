import VoxPopuli.Model.Commands
import VoxPopuli.Model.Frame

/-! # Well-formed states

What holds of the models in every state which commands lead to: the names of groups
and free virtual remotes are distinct, every group has its global remote, and its
avatars fill their list without a gap because the JSON of the group counts them.
-/

namespace VoxPopuli

open World

/-- The name of the avatar at a position. -/
def avatarName (i : Nat) : QString := ("Remote" : QString) ++ QString.ofNat (i + 1)

/-- The keys in the JSON of a group with some avatars. -/
def groupKeys (avatars : Nat) : QStringList :=
  (["GlobalRemote", "avatarsNbr", "slavesNbr"] : QStringList) ++
    (List.range avatars).map avatarName

theorem head?_avatarName (i : Nat) : (avatarName i).head? = some ('R' : QChar) := rfl

theorem avatarName_ne (i : Nat) :
    avatarName i ≠ "GlobalRemote" ∧ avatarName i ≠ "avatarsNbr" ∧ avatarName i ≠ "slavesNbr" := by
  have head := head?_avatarName i
  refine ⟨?_, ?_, ?_⟩
  all_goals
    intro same
    rw [same] at head
    exact absurd head (by decide)

theorem avatarName_injective : Function.Injective avatarName := by
  intro i j same
  have numbers := QString.ofNat_injective (List.append_cancel_left same)
  omega

theorem solid_ofNat (n : Nat) : (' ' : QChar) ∉ QString.ofNat n := by
  intro member
  have solid := QString.not_isSpace_of_digit (QString.digit?_of_mem_ofNat member)
  exact absurd solid (by decide)

theorem avatarName_solid (i : Nat) : (' ' : QChar) ∉ avatarName i := by
  intro member
  rcases List.mem_append.mp member with prefixed | number
  · exact absurd prefixed (by decide)
  · exact solid_ofNat _ number

theorem nodup_groupKeys (avatars : Nat) : (groupKeys avatars).Nodup := by
  refine List.nodup_append.mpr ⟨by decide, List.nodup_range.map avatarName_injective, ?_⟩
  intro k fixed k' avatar
  obtain ⟨i, -, rfl⟩ := List.mem_map.mp avatar
  obtain ⟨global, number, slaves⟩ := avatarName_ne i
  simp only [List.mem_cons, List.not_mem_nil, or_false] at fixed
  rcases fixed with rfl | rfl | rfl
  · exact global.symm
  · exact number.symm
  · exact slaves.symm

namespace World

/-- A group with the numbers of its global remote and of its avatars. -/
structure GroupOk (w : World) (g global : Nat) (avatars : List Nat) : Prop where
  globalRemote : w.globalRemote g = some (.member g global)
  globalName : w.vRemoteName (.member g global) = "GlobalRemote"
  virtualRemotes : w.virtualRemotes g = avatars.map fun n => some (.member g n)
  names : avatars.map (fun n => w.vRemoteName (.member g n)) =
    (List.range avatars.length).map avatarName
  nodup : (global :: avatars).Nodup
  old : ∀ n ∈ global :: avatars, n < w.fresh
  sorted : Assoc.Sorted (w.json (.group g))
  keys : ∀ k, (w.json (.group g)).contains k ↔ k ∈ groupKeys avatars.length
  otherID : ∀ n ∈ avatars, w.get (.vRemote (.member g n)) "RemoteID" = none

/-- The nodes of the virtual network which have a name of their own. -/
def IsElement (w : World) : NodeRef → Prop
  | .group g => g ∈ w.vGroups
  | .vRemote (.free n) => n ∈ w.vRemotes
  | _ => False

theorem IsElement.node {w : World} {e : NodeRef} (element : w.IsElement e) :
    (∃ g ∈ w.vGroups, e = .group g) ∨ ∃ n ∈ w.vRemotes, e = .vRemote (.free n) := by
  cases e with
  | group g => exact .inl ⟨g, element, rfl⟩
  | vRemote v =>
      cases v with
      | free n => exact .inr ⟨n, element, rfl⟩
      | member g n => exact element.elim
  | network | remoteList | patch | remote r | eventModel | virtualNet | event v b =>
      exact element.elim

structure Registered (w : World) : Prop where
  tidy : Rows.Tidy w.patch.virtualToRemote
  slaves : ∀ g, (w.slaves g).Nodup
  groupsNodup : w.vGroups.Nodup
  vRemotesNodup : w.vRemotes.Nodup
  groupsOld : ∀ g ∈ w.vGroups, g < w.fresh
  vRemotesOld : ∀ n ∈ w.vRemotes, n < w.fresh
  names : ∀ n n', w.IsElement n → w.IsElement n' → w.nameOf n = w.nameOf n' → n = n'
  netKeys : ∀ n, w.IsElement n → (w.json .virtualNet).contains (w.nameOf n)

structure WellFormed (w : World) : Prop extends w.Registered where
  groups : ∀ g ∈ w.vGroups, ∃ global avatars, w.GroupOk g global avatars

variable {F : Footprint} {w w' : World} {g global : Nat} {avatars : List Nat}

/-! ## Groups -/

namespace GroupOk

theorem member_iff (ok : w.GroupOk g global avatars) {v : VRef} :
    VirtualGroup.Member w g v ↔ ∃ n ∈ global :: avatars, v = .member g n := by
  unfold VirtualGroup.Member
  rw [ok.globalRemote, ok.virtualRemotes]
  simp [eq_comm]

/-- The name of a member is a key of the JSON. -/
theorem name_mem (ok : w.GroupOk g global avatars) {n : Nat} (member : n ∈ global :: avatars) :
    w.vRemoteName (.member g n) ∈ groupKeys avatars.length := by
  rcases List.mem_cons.mp member with rfl | avatar
  · rw [ok.globalName]
    exact List.mem_append_left _ List.mem_cons_self
  · apply List.mem_append_right
    rw [← ok.names]
    exact List.mem_map_of_mem avatar

/-- The JSON of the group counts its avatars. -/
theorem length_json (ok : w.GroupOk g global avatars) :
    (w.json (.group g)).length = 3 + avatars.length := by
  have perm : QJsonObject.keys (w.json (.group g)) |>.Perm (groupKeys avatars.length) := by
    apply (List.perm_ext_iff_of_nodup (QJsonObject.nodup_keys ok.sorted) (nodup_groupKeys _)).mpr
    intro k
    rw [← ok.keys k, QJsonObject.contains_iff]
  have count := perm.length_eq
  simp only [QJsonObject.keys, groupKeys, List.length_map, List.length_append, List.length_range,
    List.length_cons, List.length_nil] at count
  omega

/-- A step which writes the JSON of no other virtual remote of the group than its
    members. -/
theorem keeps (ok : w.GroupOk g global avatars) (kept : Keeps F w w')
    (notified : ∀ n, .member g n ∈ F.notified → n ∈ global :: avatars)
    (rewritten : ∀ n ∈ avatars, .member g n ∉ F.rewritten) : w'.GroupOk g global avatars where
  globalRemote := by
    rw [kept.roster]
    exact ok.globalRemote
  globalName := by
    rw [kept.roster]
    exact ok.globalName
  virtualRemotes := by
    rw [kept.roster]
    exact ok.virtualRemotes
  names := by
    rw [kept.roster]
    exact ok.names
  nodup := ok.nodup
  old := by
    rw [kept.roster]
    exact ok.old
  sorted := kept.sorted g ok.sorted
  keys k := by
    constructor
    · intro there
      by_contra extra
      have absent : (w.json (.group g)).contains k = false := by
        simpa using mt (ok.keys k).mp extra
      have other : k ≠ "avatarsNbr" ∧ k ≠ "slavesNbr" := by
        constructor
        · rintro rfl
          exact extra (by simp [groupKeys])
        · rintro rfl
          exact extra (by simp [groupKeys])
      have same := kept.groupValue g k other.1 (fun slaves => absurd slaves other.2) (by
        intro n inside named
        exact extra (named ▸ ok.name_mem (notified n inside)))
      unfold QJsonObject.contains at there absent
      rw [same, absent] at there
      cases there
    · exact fun member => kept.groupKeys g k ((ok.keys k).mpr member)
  otherID n avatar := by
    rw [kept.otherID _ (rewritten n avatar)]
    exact ok.otherID n avatar

/-- Nothing of the group has changed. -/
theorem congr (ok : w.GroupOk g global avatars) (globalRemote : w'.globalRemote g = w.globalRemote g)
    (virtualRemotes : w'.virtualRemotes g = w.virtualRemotes g)
    (names : ∀ n < w.fresh, w'.vRemoteName (.member g n) = w.vRemoteName (.member g n))
    (fresh : w.fresh ≤ w'.fresh) (json : w'.json (.group g) = w.json (.group g))
    (vRemote : ∀ n < w.fresh, w'.json (.vRemote (.member g n)) = w.json (.vRemote (.member g n))) :
    w'.GroupOk g global avatars where
  globalRemote := globalRemote.trans ok.globalRemote
  globalName := (names global (ok.old global List.mem_cons_self)).trans ok.globalName
  virtualRemotes := virtualRemotes.trans ok.virtualRemotes
  names := by
    rw [← ok.names]
    apply List.map_congr_left
    exact fun n avatar => names n (ok.old n (List.mem_cons_of_mem _ avatar))
  nodup := ok.nodup
  old n member := (ok.old n member).trans_le fresh
  sorted := json ▸ ok.sorted
  keys := json ▸ ok.keys
  otherID n avatar := by
    rw [get, vRemote n (ok.old n (List.mem_cons_of_mem _ avatar))]
    exact ok.otherID n avatar

end GroupOk

theorem Keeps.isElement {n : NodeRef} (kept : Keeps F w w') (element : w'.IsElement n) :
    w.IsElement n ∧ w'.nameOf n = w.nameOf n := by
  cases n with
  | group g => simpa only [IsElement, nameOf, kept.roster, and_true] using element
  | vRemote v =>
      cases v with
      | free n => simpa only [IsElement, nameOf, kept.roster, and_true] using element
      | member g n => exact element.elim
  | network | remoteList | patch | remote r | eventModel | virtualNet | event v b =>
      exact element.elim

theorem Registered.keeps (h : w.Registered) (kept : Keeps F w w') : w'.Registered where
  tidy := by
    rw [kept.roster]
    exact h.tidy
  slaves g := by
    rcases kept.slavesFrom g with fewer | row
    · exact (h.slaves g).sublist fewer
    · exact (h.tidy.nodup _).sublist row
  groupsNodup := by
    rw [kept.roster]
    exact h.groupsNodup
  vRemotesNodup := by
    rw [kept.roster]
    exact h.vRemotesNodup
  groupsOld := by
    rw [kept.roster]
    exact h.groupsOld
  vRemotesOld := by
    rw [kept.roster]
    exact h.vRemotesOld
  names n n' element element' same := by
    obtain ⟨old, name⟩ := kept.isElement element
    obtain ⟨old', name'⟩ := kept.isElement element'
    exact h.names n n' old old' (name ▸ name' ▸ same)
  netKeys n element := by
    obtain ⟨old, name⟩ := kept.isElement element
    rw [name]
    exact kept.netKeys _ (h.netKeys n old)

/-- Elements may leave; those which stay keep their names. -/
theorem Registered.fewer (h : w.Registered) (patch : w'.patch = w.patch)
    (slaves : ∀ g, (w'.slaves g).Sublist (w.slaves g)) (groups : w'.vGroups.Sublist w.vGroups)
    (vRemotes : w'.vRemotes.Sublist w.vRemotes) (fresh : w.fresh ≤ w'.fresh)
    (names : ∀ n, w.IsElement n → w'.nameOf n = w.nameOf n)
    (netKeys : ∀ n, w'.IsElement n → (w.json .virtualNet).contains (w.nameOf n) →
      (w'.json .virtualNet).contains (w.nameOf n)) : w'.Registered := by
  have before : ∀ n, w'.IsElement n → w.IsElement n := by
    intro n element
    obtain ⟨g, inside, rfl⟩ | ⟨m, inside, rfl⟩ := element.node
    · exact groups.subset inside
    · exact vRemotes.subset inside
  refine ⟨patch ▸ h.tidy, fun g => (h.slaves g).sublist (slaves g), h.groupsNodup.sublist groups,
    h.vRemotesNodup.sublist vRemotes, ?_, ?_, ?_, ?_⟩
  · exact fun g inside => (h.groupsOld g (groups.subset inside)).trans_le fresh
  · exact fun n inside => (h.vRemotesOld n (vRemotes.subset inside)).trans_le fresh
  · intro n n' element element' same
    rw [names n (before n element), names n' (before n' element')] at same
    exact h.names n n' (before n element) (before n' element') same
  · intro n element
    rw [names n (before n element)]
    exact netKeys n element (h.netKeys n (before n element))

namespace WellFormed

/-- A step which stays among the members of the groups and replaces no JSON of theirs. -/
theorem keeps (h : w.WellFormed) (kept : Keeps F w w')
    (notified : ∀ g ∈ w.vGroups, ∀ n, .member g n ∈ F.notified →
      VirtualGroup.Member w g (.member g n))
    (rewritten : ∀ g ∈ w.vGroups, ∀ v, VirtualGroup.Member w g v → v ∉ F.rewritten) :
    w'.WellFormed where
  toRegistered := h.toRegistered.keeps kept
  groups g member := by
    rw [kept.roster] at member
    obtain ⟨global, avatars, ok⟩ := h.groups g member
    refine ⟨global, avatars, ok.keeps kept ?_ ?_⟩
    · intro n inside
      obtain ⟨m, there, same⟩ := ok.member_iff.mp (notified g member n inside)
      cases same
      exact there
    · intro n avatar
      exact rewritten g member _ (ok.member_iff.mpr ⟨n, List.mem_cons_of_mem _ avatar, rfl⟩)

theorem live_member (h : w.WellFormed) {n : Nat} (live : w.Live (.member g n)) :
    VirtualGroup.Member w g (.member g n) := by
  rcases live with ⟨m, -, same⟩ | ⟨g', member, isMember⟩
  · cases same
  · obtain ⟨global, avatars, ok⟩ := h.groups g' member
    obtain ⟨m, -, same⟩ := ok.member_iff.mp isMember
    cases same
    exact isMember

/-- Triggers and commands which go to the elements keep the state well-formed. -/
theorem live (h : w.WellFormed) (kept : Keeps w.live w w') : w'.WellFormed :=
  h.keeps kept (fun _ _ _ live => h.live_member live) fun _ _ _ _ => id

/-- So does the notification of an element. -/
theorem around (h : w.WellFormed) {element : Option Element}
    (kept : Keeps (w.around element) w w') : w'.WellFormed :=
  h.keeps kept (fun _ _ _ live => h.live_member live) fun _ _ _ _ => id

theorem member_name_ne (h : w.WellFormed) (inside : g ∈ w.vGroups) {n : Nat}
    (live : w.Live (.member g n)) : w.vRemoteName (.member g n) ≠ "slavesNbr" := by
  obtain ⟨global, avatars, ok⟩ := h.groups g inside
  obtain ⟨m, member, same⟩ := ok.member_iff.mp (h.live_member live)
  cases same
  rcases List.mem_cons.mp member with rfl | avatar
  · rw [ok.globalName]
    decide
  · have listed := List.mem_map_of_mem (f := fun n => w.vRemoteName (.member g n)) avatar
    rw [ok.names] at listed
    obtain ⟨i, -, name⟩ := List.mem_map.mp listed
    rw [← name]
    exact (avatarName_ne i).2.2

end WellFormed

/-! ## Links -/

/-- The links and what the groups cache of them are as they were. -/
structure SameLinks (w w' : World) : Prop where
  patch : w'.patch = w.patch
  mutex : w'.mutex = w.mutex
  vGroups : w'.vGroups = w.vGroups
  groupName : ∀ g ∈ w.vGroups, w'.groupName g = w.groupName g
  slaves : ∀ g ∈ w.vGroups, w'.slaves g = w.slaves g
  slavesNbr : ∀ g ∈ w.vGroups, w'.get (.group g) "slavesNbr" = w.get (.group g) "slavesNbr"

namespace SameLinks

theorem refl (w : World) : SameLinks w w := ⟨rfl, rfl, rfl, fun _ _ => rfl, fun _ _ => rfl, fun _ _ => rfl⟩

theorem trans {w'' : World} (h : SameLinks w w') (h' : SameLinks w' w'') : SameLinks w w'' where
  patch := h'.patch.trans h.patch
  mutex := h'.mutex.trans h.mutex
  vGroups := h'.vGroups.trans h.vGroups
  groupName g inside := (h'.groupName g (h.vGroups ▸ inside)).trans (h.groupName g inside)
  slaves g inside := (h'.slaves g (h.vGroups ▸ inside)).trans (h.slaves g inside)
  slavesNbr g inside := (h'.slavesNbr g (h.vGroups ▸ inside)).trans (h.slavesNbr g inside)

end SameLinks

theorem Keeps.sameLinks (kept : Keeps F w w') (refreshed : ∀ g ∈ w.vGroups, g ∉ F.refreshed)
    (names : ∀ g ∈ w.vGroups, ∀ n, .member g n ∈ F.notified →
      w.vRemoteName (.member g n) ≠ "slavesNbr") : SameLinks w w' where
  patch := by rw [kept.roster]
  mutex := by rw [kept.roster]
  vGroups := by rw [kept.roster]
  groupName g _ := by rw [kept.roster]
  slaves g inside := kept.slaves g (refreshed g inside)
  slavesNbr g inside :=
    kept.groupValue g "slavesNbr" (by decide) (fun _ => refreshed g inside) (names g inside)

end World

end VoxPopuli
