import VoxPopuli.Model.Drafts
import VoxPopuli.Model.Views

/-! # Groups which are resized

`set("avatarsNbr", n)` creates avatars or removes the last ones until the group has `n`, and
counts them by the JSON of the group. For any `n` which is not negative that comes out right,
whatever has been done to the group before. Asked for fewer than none it empties the list of
avatars and goes on.
-/

namespace VoxPopuli

open World

variable {w w' : World} {g global : Nat} {avatars : List Nat}

namespace VirtualGroup

/-! ## One avatar -/

/-- A group whose avatars are among its child nodes. -/
structure Manned (w : World) (g global : Nat) (avatars : List Nat) : Prop where
  ok : w.GroupOk g global avatars
  listed : ∀ n ∈ avatars, .vRemote (.member g n) ∈ w.subnodes (.group g)

/-- Creating the next avatar does not lead outside the list. -/
theorem createAvatar_deadlock (small : (avatars.length : Int) + 1 < 2 ^ 31) :
    Ends (· = .deadlock) (createSubNode w g (avatarName avatars.length) avatarJson)
      fun _ => True := by
  have prefixed : ("Remote" : QString) <+: avatarName avatars.length := List.prefix_append ..
  have own : (VirtualRemote.create w (.member g w.fresh) (avatarName avatars.length)).vRemoteName
      (.member g w.fresh) = avatarName avatars.length := Function.update_self ..
  have grown := VirtualRemote.populateNode_growing
    (VirtualRemote.growing_create w (.member g w.fresh) (avatarName avatars.length))
    (own.symm ▸ avatarName_solid _) document_avatarJson calm_avatarJson
  rw [createSubNode, if_pos (Or.inr prefixed)]
  refine (grown.mono fun _ _ => trivial).bind (M := fun _ => True) fun q _ => ?_
  dsimp only
  split
  · trivial
  · rw [toInt?_avatarName small]
    have first : (1 : Int) ≤ avatars.length + 1 := by omega
    dsimp only
    rw [setVirtualRemote, if_pos first]
    split <;> trivial

theorem createAvatar_manned (manned : Manned w g global avatars)
    (small : (avatars.length : Int) + 1 < 2 ^ 31) :
    Ends (· = .deadlock) (createSubNode w g (avatarName avatars.length) avatarJson) fun q =>
      Manned q.2 g global (avatars ++ [w.fresh]) := by
  have visible : ¬RefusesQuietly w.accepts (avatarName avatars.length) avatarJson :=
    visible_avatar (List.prefix_append ..) (avatarName_solid _)
  have created := (createSubNode_ends manned.ok small).of_any.and
    (createSubNode_outcome w g (avatarName avatars.length) avatarJson)
  apply (createAvatar_deadlock small).join
  apply created.mono
  rintro q ⟨⟨ok, -⟩, ⟨quiet, -⟩ | ⟨-, subnodes, -⟩⟩
  · exact absurd quiet visible
  · refine ⟨ok, fun n member => ?_⟩
    rw [subnodes]
    rcases List.mem_append.mp member with before | single
    · exact List.mem_append_left _ (manned.listed n before)
    · cases List.mem_singleton.mp single
      exact List.mem_append_right _ (List.mem_singleton_self _)

/-- The last avatar leaves the group and its child nodes. -/
theorem removeAvatar_manned {n : Nat} (manned : Manned w g global (avatars ++ [n])) :
    Manned { w.removeSubNode (.group g) (.vRemote (.member g n)) with
      virtualRemotes := Function.update w.virtualRemotes g (w.virtualRemotes g).dropLast } g global
        avatars := by
  refine ⟨(remove_last manned.ok).1, fun m member => ?_⟩
  obtain ⟨json, removed, -⟩ := w.removeSubNode_frame (.group g) (.vRemote (.member g n))
  have nodup := (List.nodup_cons.mp manned.ok.nodup).2
  have differ : m ≠ n := by
    rintro rfl
    exact (List.nodup_append.mp nodup).2.2 m member m (List.mem_singleton_self m) rfl
  have other : NodeRef.vRemote (.member g m) ≠ .vRemote (.member g n) := by simpa using differ
  rw [removed]
  dsimp only
  rw [Function.update_self]
  exact (List.mem_erase_of_ne other).mpr (manned.listed m (List.mem_append_left _ member))

/-! ## The loops -/

theorem addVirtualRemotes_manned (manned : Manned w g global avatars) {nbr : Int} {delta : Nat}
    (sum : nbr = avatars.length + delta) (small : nbr < 2 ^ 31) :
    Ends (· = .deadlock) (addVirtualRemotes w g nbr delta) fun w' =>
      ∃ more, Manned w' g global (avatars ++ more) ∧ more.length = delta := by
  induction delta generalizing w avatars with
  | zero => exact ⟨[], (List.append_nil avatars).symm ▸ manned, rfl⟩
  | succ delta ih =>
      have name := next_avatarName sum
      have next := createAvatar_manned manned (by omega)
      rw [← name] at next
      apply next.bind
      rintro ⟨created, w₁⟩ manned₁
      have longer : nbr = (avatars ++ [w.fresh]).length + delta := by
        rw [List.length_append, List.length_singleton]
        omega
      apply (ih manned₁ longer).mono
      rintro w₂ ⟨more, manned₂, length⟩
      refine ⟨w.fresh :: more, ?_, by rw [List.length_cons, length]⟩
      rwa [List.append_assoc] at manned₂

/-- Taking more avatars away than there are ends at the empty list. -/
theorem removeVirtualRemotes_manned (manned : Manned w g global avatars) (delta : Nat) :
    Ends (fun f => f = .outOfRange ∧ avatars.length < delta) (removeVirtualRemotes w g delta)
      fun w' => ∃ fewer, Manned w' g global fewer ∧ fewer <+: avatars ∧
        fewer.length + delta = avatars.length := by
  induction delta generalizing w avatars with
  | zero => exact ⟨avatars, manned, List.prefix_rfl, rfl⟩
  | succ delta ih =>
      rw [removeVirtualRemotes, manned.ok.virtualRemotes]
      rcases List.eq_nil_or_concat avatars with rfl | ⟨before, n, rfl⟩
      · exact ⟨rfl, Nat.succ_pos delta⟩
      · rw [List.concat_eq_append] at manned ⊢
        rw [List.map_append, List.map_singleton, List.getLast?_concat]
        have rest := ih (removeAvatar_manned manned)
        refine Ends.mono_err (Ends.mono (show Ends _ _ _ from rest) ?_) ?_
        · rintro w₂ ⟨fewer, manned₂, shorter, length⟩
          refine ⟨fewer, manned₂, shorter.trans (List.prefix_append before [n]), ?_⟩
          rw [List.length_append, List.length_singleton]
          omega
        · rintro f ⟨rfl, short⟩
          refine ⟨rfl, ?_⟩
          rw [List.length_append, List.length_singleton]
          omega

/-- How resizing to `nbr` fails: outside the list exactly when `nbr` is negative. -/
def Stops (nbr : Int) (f : Fault) : Prop := 0 ≤ nbr ∧ f = .deadlock ∨ nbr < 0 ∧ f = .outOfRange

theorem setVirtualRemotesNbr_manned (manned : Manned w g global avatars) {nbr : Int}
    (small : nbr < 2 ^ 31) :
    Ends (Stops nbr) (setVirtualRemotesNbr w g nbr) fun w' => ∃ avatars',
      Manned w' g global avatars' ∧ (avatars'.length : Int) = nbr ∧
        (avatars <+: avatars' ∨ avatars' <+: avatars) := by
  have count := manned.ok.length_json
  rw [setVirtualRemotesNbr]
  dsimp only
  rw [if_neg (by omega), count]
  split
  · rename_i more
    push_cast at more ⊢
    have sum : nbr = avatars.length + ((nbr - (3 + avatars.length) + 3).toNat : Int) := by omega
    refine ((addVirtualRemotes_manned manned sum small).mono ?_).mono_err ?_
    · rintro w' ⟨added, manned', length⟩
      refine ⟨avatars ++ added, manned', ?_, .inl (List.prefix_append avatars added)⟩
      rw [List.length_append, length]
      push_cast
      omega
    · exact fun f deadlock => .inl ⟨by omega, deadlock⟩
  · rename_i less
    push_cast at less ⊢
    refine ((removeVirtualRemotes_manned manned _).mono ?_).mono_err ?_
    · rintro w' ⟨fewer, manned', shorter, length⟩
      exact ⟨fewer, manned', by omega, .inr shorter⟩
    · rintro f ⟨rfl, short⟩
      exact .inr ⟨by omega, rfl⟩

/-! ## The setter -/

/-- `_virtualRemotes` holds `n` child nodes under their names, and the JSON says so. -/
structure HasAvatars (w : World) (g : Nat) (n : Int) : Prop where
  count : ((w.virtualRemotes g).length : Int) = n
  seated : ∀ i : Nat, (i : Int) < n → ∃ v, (w.virtualRemotes g)[i]? = some (some v) ∧
    .vRemote v ∈ w.subnodes (.group g) ∧
      w.vRemoteName v = ("Remote" : QString) ++ QString.ofNat (i + 1)
  number : w.get (.group g) "avatarsNbr" = some (.double n)

/-- The setter does not take an avatar from an empty list. When it accepts a number the group
    has as many avatars, and those which it had before up to that number. -/
def Resizes (w : World) (g : Nat) (value : QString) : Prop :=
  Ends (fun f => f ≠ .outOfRange) (setValue w g "avatarsNbr" value) fun q =>
    q.1 = .noError ∨ q.1 = .sameValue → ∃ n, value.toInt? = some n ∧ HasAvatars q.2 g n ∧
      ∀ i < (w.virtualRemotes g).length, (i : Int) < n →
        (q.2.virtualRemotes g)[i]? = (w.virtualRemotes g)[i]?

theorem Manned.hasAvatars (manned : Manned w g global avatars)
    (number : w.get (.group g) "avatarsNbr" = some (.double avatars.length)) :
    HasAvatars w g avatars.length where
  count := by rw [manned.ok.virtualRemotes, List.length_map]
  seated i inside := by
    have inside : i < avatars.length := by omega
    refine ⟨.member g avatars[i], ?_, manned.listed _ (List.getElem_mem inside), ?_⟩
    · rw [manned.ok.virtualRemotes, List.getElem?_map, List.getElem?_eq_getElem inside]
      rfl
    · have names := congrArg (fun l => l[i]?) manned.ok.names
      simpa [inside, avatarName] using names
  number := number

theorem setValue_manned (manned : Manned w g global avatars) {value : QString} {nbr : Int}
    (number : value.toInt? = some nbr) :
    Ends (Stops nbr) (setValue w g "avatarsNbr" value) fun q => ∃ avatars',
      Manned q.2 g global avatars' ∧ (avatars'.length : Int) = nbr ∧
        (avatars <+: avatars' ∨ avatars' <+: avatars) ∧
          q.2.get (.group g) "avatarsNbr" = some (.double nbr) := by
  have small : nbr < 2 ^ 31 := (of_decide_eq_true (Option.filter_eq_some_iff.mp number).2).2
  rw [setValue, if_pos rfl, number]
  apply (setVirtualRemotesNbr_manned manned small).bind
  rintro w' ⟨avatars', manned', length, related⟩
  have kept : Keeps {} w' (w'.setNumber (.group g) "avatarsNbr" nbr).2 :=
    keeps_setNumber (n := .group g) trivial (Or.inl rfl) _
  refine ⟨avatars', ⟨manned'.ok.keeps kept (fun _ => False.elim) fun _ _ => id, ?_⟩, length, related, ?_⟩
  · rw [setNumber, assign_subnodes]
    exact manned'.listed
  · exact (w'.get_setNumber (.group g) "avatarsNbr" nbr "avatarsNbr").trans (if_pos rfl)

/-- Step lemma. -/
theorem Manned.resizes_iff (manned : Manned w g global avatars) (value : QString) :
    Resizes w g value ↔ ∀ n, value.toInt? = some n → 0 ≤ n := by
  unfold Resizes
  cases number : value.toInt? with
  | none =>
      rw [setValue, if_pos rfl, number]
      exact iff_of_true (by simp) (by simp)
  | some nbr =>
      have ended := setValue_manned manned number
      rcases lt_or_ge nbr 0 with negative | natural
      · refine iff_of_false (fun resizes => ?_) fun all => absurd (all nbr rfl) (by omega)
        cases result : setValue w g "avatarsNbr" value with
        | error f =>
            rcases ended.of_error result with ⟨natural, -⟩ | ⟨-, outside⟩
            · omega
            · exact resizes.of_error result outside
        | ok q =>
            obtain ⟨avatars', -, length, -⟩ := ended.of_ok result
            omega
      · refine iff_of_true ((ended.mono ?_).mono_err ?_) fun n same => Option.some.inj same ▸ natural
        · rintro q ⟨avatars', manned', rfl, related, json⟩ -
          refine ⟨_, rfl, manned'.hasAvatars json, fun i old inside => ?_⟩
          have inside : i < avatars'.length := by omega
          rw [manned.ok.virtualRemotes, List.length_map] at old
          rw [manned.ok.virtualRemotes, manned'.ok.virtualRemotes, List.getElem?_map,
            List.getElem?_map]
          rcases related with longer | shorter
          · rw [List.prefix_iff_getElem?.mp longer i old, List.getElem?_eq_getElem old]
          · rw [List.prefix_iff_getElem?.mp shorter i inside, List.getElem?_eq_getElem inside]
        · rintro f (⟨-, rfl⟩ | ⟨below, -⟩) outside
          · cases outside
          · omega

end VirtualGroup

/-! ## Runs -/

/-- What is done to a group: it is resized, or its links change. -/
inductive GroupCall where
  | set (value : QString)
  | patch (op : PatchOp)

namespace GroupCall

def perform (g : Nat) (w : World) : GroupCall → Except Fault World
  | set value => Prod.snd <$> VirtualGroup.setValue w g "avatarsNbr" value
  | patch op => op.perform w

/-- A call which resizes the group does so. -/
def Resizes (g : Nat) (w : World) : GroupCall → Prop
  | set value => VirtualGroup.Resizes w g value
  | patch _ => True

/-- No number below 0 is asked for. -/
def Natural : GroupCall → Prop
  | set value => ∀ n, value.toInt? = some n → 0 ≤ n
  | patch _ => True

end GroupCall

namespace VirtualGroup

/-- What holds of a group between two calls. -/
structure Resizable (g : Nat) (w : World) : Prop where
  sound : w.Sound
  inside : g ∈ w.vGroups
  listed : ∀ v, some v ∈ w.virtualRemotes g → .vRemote v ∈ w.subnodes (.group g)

theorem Resizable.manned (h : Resizable g w) : ∃ global avatars, Manned w g global avatars := by
  obtain ⟨global, avatars, ok⟩ := h.sound.wellFormed.groups g h.inside
  refine ⟨global, avatars, ok, fun n member => h.listed _ ?_⟩
  rw [ok.virtualRemotes]
  exact List.mem_map_of_mem member

theorem Manned.resizable (manned : Manned w g global avatars) (sound : w.Sound)
    (inside : g ∈ w.vGroups) : Resizable g w := by
  refine ⟨sound, inside, fun v member => ?_⟩
  rw [manned.ok.virtualRemotes] at member
  obtain ⟨n, avatar, same⟩ := List.mem_map.mp member
  cases same
  exact manned.listed n avatar

/-- Step lemma: whatever is done to it, a group stays resizable. -/
theorem Resizable.perform (h : Resizable g w) (c : GroupCall) :
    Ends (fun _ => True) (c.perform g w) (Resizable g) := by
  cases c with
  | set value =>
      obtain ⟨global, avatars, manned⟩ := h.manned
      have resized := (setValue_ends manned.ok "avatarsNbr" value).of_any
      apply Ends.map
      cases number : value.toInt? with
      | none =>
          rw [setValue, if_pos rfl, number]
          exact h
      | some nbr =>
          have ended := (setValue_manned manned number).of_any
          apply (resized.and ended).mono
          rintro q ⟨⟨ok, resized⟩, avatars', manned', -⟩
          refine manned'.resizable ⟨resized.wellFormed h.sound.wellFormed fun _ => ⟨global, ok⟩, ?_⟩ ?_
          · rw [resized.sameLinks.patch]
            exact h.sound.agree
          · rw [resized.sameLinks.vGroups]
            exact h.inside
  | patch op =>
      have covers : everything.Covers w := ⟨trivial, fun _ _ => trivial, fun _ _ => trivial⟩
      have acts := Op.acts_patch covers op fun _ _ _ _ _ => ⟨trivial, trivial⟩
      have sound := h.sound.perform (.patch op)
      apply ((acts.and op.perform_step).and sound).mono
      rintro w' ⟨⟨acts, step⟩, sound', -⟩
      refine ⟨sound', ?_, fun v member => ?_⟩
      · rw [step.roster]
        exact h.inside
      · rw [step.roster] at member
        rw [acts.subnodes (by simp)]
        exact h.listed v member

end VirtualGroup

namespace VirtualNetwork

/-- A new group has no avatars. -/
theorem createGroup_bare (h : w.WellFormed) (name : QString) :
    Ends (fun _ => True) (createSubNode w name VirtualGroup.createGroupJSon) fun q =>
      ∀ g ∈ q.2.vGroups, g ∉ w.vGroups → q.2.virtualRemotes g = [] := by
  have fresh : w.fresh ∉ w.vGroups := fun inside => (h.groupsOld _ inside).ne rfl
  let w₀ := VirtualGroup.create w w.fresh name
  have bare : w₀.virtualRemotes w.fresh = [] := Function.update_self ..
  have empty : w₀.json (.group w.fresh) = [] := Function.update_self ..
  have groups : w₀.vGroups = w.vGroups := rfl
  rw [createSubNode, if_pos (by decide)]
  change Ends _ (do
    let q ← populateNode (VirtualGroup.nodeClass w.fresh) w₀ (.group w.fresh)
      VirtualGroup.createGroupJSon
    if !q.1 then pure (false, q.2.clearJsonData (.group w.fresh))
    else do
      let w₂ ← VirtualGroup.updateFromPatch { q.2 with vGroups := q.2.vGroups ++ [w.fresh] } w.fresh
      pure (true, w₂)) _
  generalize w₀ = w₀ at bare empty groups ⊢
  by_cases space : (' ' : QChar) ∈ w₀.groupName w.fresh
  · rw [populateNode_refused (n := .group w.fresh) space]
    exact fun g inside new => absurd (groups ▸ inside) new
  · apply (VirtualGroup.populate_ends (groups ▸ fresh) empty space).of_any.bind
    rintro ⟨populated, w₁⟩ ⟨done, shape, -⟩
    dsimp only at done shape ⊢
    subst done
    have told := VirtualGroup.keeps_updateFromPatch (F := ⟨Set.univ, ∅, ∅, Set.univ, ∅⟩)
      (w := { w₁ with vGroups := w₁.vGroups ++ [w.fresh] }) (g := w.fresh) (fun _ _ => trivial) trivial
    refine told.of_any.bind fun w₂ kept => fun g inside new => ?_
    rw [kept.roster] at inside ⊢
    rcases List.mem_append.mp inside with before | single
    · rw [shape.resized.sameLinks.vGroups, groups] at before
      exact absurd before new
    · cases List.mem_singleton.mp single
      exact shape.virtualRemotes.trans bare

theorem addGroup_bare (h : w.WellFormed) (name : QString) :
    Ends (fun _ => True) (addGroup w name) fun q =>
      ∀ g ∈ q.2.vGroups, g ∉ w.vGroups → q.2.virtualRemotes g = [] := by
  unfold addGroup
  split
  · exact fun g inside new => absurd inside new
  · exact (createGroup_bare h _).bind fun _ bare => bare

end VirtualNetwork

theorem VirtualGroup.resizable_addGroup (sound : w.Sound) {name : QString} {b : Bool}
    (added : VirtualNetwork.addGroup w name = .ok (b, w')) (inside : g ∈ w'.vGroups)
    (new : g ∉ w.vGroups) : Resizable g w' := by
  have performed : (Op.addGroup name).perform w = .ok w' := by
    rw [Op.perform, added]
    rfl
  have bare := (VirtualNetwork.addGroup_bare sound.wellFormed name).of_ok added g inside new
  refine ⟨((sound.perform (.addGroup name)).of_ok performed).1, inside, fun v member => ?_⟩
  rw [bare] at member
  cases member

/-- Along a run on a new group every call which resizes it does so, whatever becomes of its
    links in between, exactly when none asks for a number below 0. -/
theorem VirtualGroup.resizes_throughout_iff {mutex : MutexState} {w₀ : World}
    (reachable : w₀.Reachable mutex) {name : QString}
    (added : VirtualNetwork.addGroup w₀ name = .ok (true, w)) (inside : g ∈ w.vGroups)
    (new : g ∉ w₀.vGroups) (calls : List GroupCall) :
    Runs.Throughout (GroupCall.perform g) (fun w c => c.Resizes g w) w calls ↔
      Runs.Throughout (GroupCall.perform g) (fun _ c => c.Natural) w calls := by
  apply Runs.throughout_congr (I := Resizable g)
  · exact resizable_addGroup reachable.sound.1 added inside new
  · intro w₁ c resizable
    cases c with
    | set value =>
        obtain ⟨global, avatars, manned⟩ := resizable.manned
        exact manned.resizes_iff value
    | patch op => exact Iff.rfl
  · intro w₁ c w₂ resizable _ step
    exact (resizable.perform c).of_ok step

/-- A group gets two avatars, is linked and keeps one of them. -/
theorem VirtualGroup.resizes_throughout_iff_shrunk :
    Ends (fun _ => False) (VirtualNetwork.addGroup (initial .free fun _ => none) "Band") fun q =>
      Runs.Throughout (GroupCall.perform 0) (fun w c => c.Resizes 0 w) q.2
        [.set "2", .patch (.connect "Remote1" "Band"), .set "1"] := by
  have run : Ends (fun _ => False) (VirtualNetwork.addGroup (initial .free fun _ => none) "Band")
      fun q => q.1 = true ∧ 0 ∈ q.2.vGroups := by
    decide
  obtain ⟨⟨b, w⟩, added, rfl, inside⟩ := ends_total.mp run
  have two : QString.toInt? "2" = some 2 := by decide
  have one : QString.toInt? "1" = some 1 := by decide
  rw [added]
  refine (resizes_throughout_iff ⟨_, [], rfl⟩ added inside List.not_mem_nil _).mpr
    ⟨fun n same => ?_, fun _ _ => ⟨trivial, fun _ _ => ⟨fun n same => ?_, fun _ _ => trivial⟩⟩⟩
  · cases two.symm.trans same
    decide
  · cases one.symm.trans same
    decide

/-- A group without avatars is asked for one less. -/
theorem VirtualGroup.not_resizes_throughout :
    ¬∀ (mutex : MutexState) (w₀ w : World), w₀.Reachable mutex → ∀ (name : QString) (g : Nat),
      VirtualNetwork.addGroup w₀ name = .ok (true, w) → g ∈ w.vGroups → g ∉ w₀.vGroups →
        ∀ calls : List GroupCall,
          Runs.Throughout (GroupCall.perform g) (fun w c => c.Resizes g w) w calls := by
  intro all
  have run : Ends (fun _ => False) (VirtualNetwork.addGroup (initial .free fun _ => none) "Band")
      fun q => (q.1 = true ∧ 0 ∈ q.2.vGroups) ∧
        Ends (fun f => f = .outOfRange) (setValue q.2 0 "avatarsNbr" "-1") fun _ => False := by
    decide
  obtain ⟨⟨b, w⟩, added, ⟨rfl, inside⟩, outside⟩ := ends_total.mp run
  obtain ⟨resizes, -⟩ := all .free _ w ⟨_, [], rfl⟩ "Band" 0 added inside List.not_mem_nil [.set "-1"]
  cases result : setValue w 0 "avatarsNbr" "-1" with
  | error f => exact resizes.of_error result (outside.of_error result)
  | ok q => exact outside.of_ok result

end VoxPopuli
