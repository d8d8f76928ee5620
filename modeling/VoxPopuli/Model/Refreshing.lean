import VoxPopuli.Lib.Runs
import VoxPopuli.Model.Reachable

/-! # When the caches of the groups follow the links

A group is told of each link which comes or goes, and refreshes its slaves when their
number is not that of the patch. That is not enough when all links of a group are taken
away, since the patch forgets them only after the group has been told, and when a group
is renamed, of which it is not told. Every other command keeps the caches up to date.
-/

namespace VoxPopuli

open World VirtualNetwork

variable {F : Footprint} {w w' : World} {p : Patch}

/-- The commands after which a group has other slaves than the patch gives it. -/
def Op.Outdates (w : World) : Op → Prop
  | patch (.disconnectVirtual vName) =>
      w.patch.remotesOf vName ≠ [] ∧ (groupByName w vName).isSome
  | renameGroup name newName =>
      (groupByName w name).isSome ∧ ¬(w.json .virtualNet).contains newName ∧
        w.patch.remotesOf newName ≠ w.patch.remotesOf name
  | _ => False

/-! ## Caches of another patch -/

namespace World

theorem AllCached.counted (h : w.AllCached) {g : Nat} (inside : g ∈ w.vGroups) : w.Counted g :=
  (h g inside).slavesNbr

/-- A patch with other links of one name. -/
theorem Cached.setPatch {g : Nat} (h : w.Cached g)
    (row : p.remotesOf (w.groupName g) = w.patch.remotesOf (w.groupName g)) :
    (PatchNode.setPatch w p).Cached g :=
  ⟨h.slaves.trans row.symm, h.slavesNbr⟩

theorem AllCached.setPatch (h : w.AllCached) (rows : p.virtualToRemote = w.patch.virtualToRemote) :
    (PatchNode.setPatch w p).AllCached := by
  intro g inside
  apply (h g inside).setPatch
  rw [Patch.remotesOf, rows]
  rfl

theorem AllCached.valueChanged (h : w.AllCached) : (w.valueChanged .patch).AllCached := by
  intro g inside
  obtain ⟨slaves, number⟩ := h g inside
  refine ⟨slaves, ?_⟩
  simpa [World.valueChanged, updateParentJSon, mirror, NodeRef.ancestors, putJson, setJson,
    World.get] using number

theorem AllCached.of_keeps (h : w.AllCached) (ok : w.WellFormed) {element : Option Element}
    (kept : Keeps (w.around element) w w') (noGroup : ∀ g, element ≠ some (.group g)) :
    w'.AllCached := by
  intro g inside
  rw [kept.roster] at inside
  exact kept.cached (noGroup g) (fun _ live => ok.member_name_ne inside live) (h g inside)

end World

namespace PatchNode

theorem elementByName_eq_group {vName : QString} {g : Nat} (found : groupByName w vName = some g) :
    elementByName w vName = some (.group g) := by
  rw [elementByName, found]

/-- Without a group of the name no group is told. -/
theorem elementByName_ne_group {vName : QString} (none : groupByName w vName = none) (g : Nat) :
    elementByName w vName ≠ some (.group g) := by
  rw [elementByName, none]
  intro same
  obtain ⟨n, -, other⟩ := Option.map_eq_some_iff.mp same
  cases other

theorem name_ne_of_none {vName : QString} (none : groupByName w vName = none) {g : Nat}
    (inside : g ∈ w.vGroups) : w.groupName g ≠ vName := by
  simpa using List.find?_eq_none.mp none g inside

/-- What a group does when it is told of a change of its links. -/
theorem removeSlave_allCached (h : w.WellFormed) {g : Nat} (inside : g ∈ w.vGroups)
    (rName : QString) (others : ∀ g' ∈ w.vGroups, g' ≠ g → w.Cached g')
    (same : ((w.slaves g).erase rName).length = (w.patch.remotesOf (w.groupName g)).length →
      (w.slaves g).erase rName = w.patch.remotesOf (w.groupName g)) :
    Ends w.MayFail (VirtualGroup.removeSlave w g rName) World.AllCached := by
  have kept : Keeps { refreshed := {g} } w
      (VirtualGroup.setSlaves w g ((w.slaves g).erase rName)) :=
    VirtualGroup.keeps_setSlaves rfl (.inl List.erase_sublist)
  have slaves : (VirtualGroup.setSlaves w g ((w.slaves g).erase rName)).slaves g =
      (w.slaves g).erase rName := by
    rw [slaves_setSlaves, Function.update_self]
  have counted := counted_setSlaves (w := w) g ((w.slaves g).erase rName)
  rw [VirtualGroup.removeSlave]
  generalize VirtualGroup.setSlaves w g ((w.slaves g).erase rName) = w₁ at kept slaves counted ⊢
  have wellFormed : w₁.WellFormed := h.keeps kept (fun _ _ _ => False.elim) fun _ _ _ _ => id
  have inside₁ : g ∈ w₁.vGroups := by
    rw [kept.roster]
    exact inside
  apply (kept.ends (wellFormed.updateFromPatch_ends inside₁ counted)).mono
  rintro w₂ ⟨-, -, cached⟩
  apply cached
  · rw [slaves, kept.roster]
    exact same
  · intro g' member other
    rw [kept.roster] at member
    exact kept.cached other (fun _ => False.elim) (others g' member other)

/-- An element is told of a change of the links of its name. -/
theorem notify_allCached (h : w.WellFormed) {rName vName : QString}
    (others : ∀ g ∈ w.vGroups, w.groupName g ≠ vName → w.Cached g)
    (own : ∀ g ∈ w.vGroups, w.groupName g = vName →
      ((w.slaves g).erase rName).length = (w.patch.remotesOf vName).length →
        (w.slaves g).erase rName = w.patch.remotesOf vName) :
    Ends w.MayFail (notify w rName (elementByName w vName)) World.AllCached := by
  cases found : groupByName w vName with
  | some g =>
      obtain ⟨inside, name⟩ := groupByName_eq_some found
      rw [elementByName_eq_group found]
      refine removeSlave_allCached h inside rName (fun g' member other => ?_) ?_
      · refine others g' member fun same => other ?_
        have element : NodeRef.group g' = .group g :=
          h.names (.group g') (.group g) member inside (same.trans name.symm)
        cases element
        rfl
      · rw [name]
        exact own g inside name
  | none =>
      have all : w.AllCached := fun g inside => others g inside (name_ne_of_none found inside)
      apply (keeps_notify rName (elementByName_existing vName)).mono
      exact fun w' kept => all.of_keeps h kept (elementByName_ne_group found)

/-! ## Links which come -/

theorem addEntry_refused {p' : Patch} {rName vName : QString}
    (added : p.addEntry rName vName = (false, p')) : p'.virtualToRemote = p.virtualToRemote := by
  unfold Patch.addEntry at added
  split at added
  · cases added
    rfl
  · dsimp only at added
    split at added
    · cases added
      rfl
    · cases added

theorem addEntry_added {p' : Patch} {rName vName : QString}
    (added : p.addEntry rName vName = (true, p')) :
    Rows.link? p.virtualToRemote vName rName = some p'.virtualToRemote := by
  unfold Patch.addEntry at added
  split at added
  · cases added
  · dsimp only at added
    split at added
    · cases added
    · rename_i linked
      cases added
      exact linked

theorem addEntry_allCached (h : w.WellFormed) (all : w.AllCached) (rName vName : QString) :
    Ends w.MayFail (addEntry w rName vName) fun q => q.2.AllCached := by
  have tidy := tidy_addEntry (p := w.patch) rName vName h.tidy
  unfold addEntry
  cases added : w.patch.addEntry rName vName with
  | mk b p =>
      cases b with
      | false => exact all.setPatch (addEntry_refused added)
      | true =>
          rw [added] at tidy
          have linked := addEntry_added added
          have row : p.remotesOf vName = w.patch.remotesOf vName ++ [rName] :=
            (Rows.row_link? linked vName).trans (if_pos rfl)
          have rows : ∀ v, v ≠ vName → p.remotesOf v = w.patch.remotesOf v :=
            fun v other => (Rows.row_link? linked v).trans (if_neg other)
          have new : rName ∉ w.patch.remotesOf vName := (Rows.link?_eq_some linked).1
          have told : Ends w.MayFail (notify (setPatch w p) rName
              (elementByName (setPatch w p) vName)) World.AllCached := by
            refine notify_allCached (w := setPatch w p) (h.setPatch tidy w.mutex) ?_ ?_
            · exact fun g inside other => (all g inside).setPatch (rows _ other)
            · -- The new remote is not among the slaves yet, so there are too few of them.
              intro g inside name lengths
              have slaves : w.slaves g = w.patch.remotesOf vName := by
                rw [(all g inside).slaves]
                exact congrArg w.patch.remotesOf name
              change ((w.slaves g).erase rName).length = (p.remotesOf vName).length at lengths
              rw [slaves, List.erase_of_not_mem new, row, List.length_append] at lengths
              simp at lengths
          exact told.bind fun w' cached => cached

theorem parseArray_allCached (h : w.WellFormed) (all : w.AllCached) (name : QString)
    (value : QStringList) :
    Ends (fun _ => True) (parseArray w name value) fun q => q.2.AllCached := by
  induction value generalizing w with
  | nil => exact all
  | cons vName rest ih =>
      rw [parseArray]
      have both := ((addEntry_allCached h all name vName).mono_err fun _ _ => trivial).and
        (addEntry_step name vName)
      apply both.bind
      rintro ⟨added, w₁⟩ ⟨cached, -, step⟩
      cases added with
      | false => exact cached
      | true => exact ih (step.wellFormed h) cached

theorem addLink_allCached (h : w.WellFormed) (all : w.AllCached) (rName vName : QString) :
    Ends w.MayFail (addLink w rName vName) fun q => q.2.AllCached := by
  rw [addLink]
  apply (addEntry_allCached h all rName vName).bind
  rintro ⟨added, w₁⟩ cached
  cases added with
  | false => exact cached
  | true => exact AllCached.valueChanged (cached.setPatch rfl)

/-! ## Links which go -/

/-- The row of an element without one of its remotes. -/
theorem remotesOf_unlinked {p' : Patch} {rName vName : QString}
    (rows : p'.virtualToRemote = Rows.unlink p.virtualToRemote vName rName) :
    p'.remotesOf vName = (p.remotesOf vName).erase rName := by
  rw [Patch.remotesOf, rows, Rows.row_unlink, if_pos rfl, Rows.removeOne, Patch.remotesOf]
  congr 1
  exact lawful_beq_subsingleton _ _

theorem unlink_allCached (h : w.WellFormed) (all : w.AllCached) {rName vName : QString}
    (rows : p.virtualToRemote = Rows.unlink w.patch.virtualToRemote vName rName) :
    Ends w.MayFail (notify (setPatch w p) rName (elementByName (setPatch w p) vName))
      World.AllCached := by
  have row : p.remotesOf vName = (w.patch.remotesOf vName).erase rName := remotesOf_unlinked rows
  have others : ∀ v, v ≠ vName → p.remotesOf v = w.patch.remotesOf v := by
    intro v other
    rw [Patch.remotesOf, rows, Rows.row_unlink, if_neg other]
    rfl
  have tidy : Rows.Tidy p.virtualToRemote := rows ▸ h.tidy.unlink vName rName
  refine notify_allCached (w := setPatch w p) (h.setPatch tidy w.mutex) ?_ ?_
  · exact fun g inside other => (all g inside).setPatch (others _ other)
  · intro g inside name _
    change (w.slaves g).erase rName = p.remotesOf vName
    rw [row, (all g inside).slaves]
    exact congrArg (fun v => (w.patch.remotesOf v).erase rName) name

theorem lock_noop (noop : w.mutex = .noop) : w.lock = .ok w := by
  rw [World.lock, noop]
  rfl

theorem unlock_noop (noop : w.mutex = .noop) : w.unlock = w := by
  rw [World.unlock, noop]

theorem removeLink_allCached (h : w.WellFormed) (all : w.AllCached) (noop : w.mutex = .noop)
    (rName vName : QString) :
    Ends w.MayFail (removeLink w rName vName) fun q => q.2.AllCached := by
  rw [removeLink]
  cases found : w.patch.remoteToVirtual.find? rName with
  | none => exact all
  | some vNames =>
      simp only [lock_noop noop, bind, Except.bind]
      by_cases linked : vName ∈ vNames
      · simp only [linked, if_true]
        have erased := PatchStep.setJson w (Patch.eraseLinkJson w.patch.jsonData rName vName)
        have left := erased.trans (PatchStep.setPatch (p := { w.patch with
          jsonData := Patch.eraseLinkJson w.patch.jsonData rName vName
          remoteToVirtual := Rows.unlink w.patch.remoteToVirtual rName vName }) id rfl)
        have cached := AllCached.setPatch (p := { w.patch with
          jsonData := Patch.eraseLinkJson w.patch.jsonData rName vName
          remoteToVirtual := Rows.unlink w.patch.remoteToVirtual rName vName })
          (AllCached.valueChanged (all.setPatch (p := { w.patch with
            jsonData := Patch.eraseLinkJson w.patch.jsonData rName vName }) rfl)) rfl
        have noop₁ := left.mutex.trans noop
        cases back : w.patch.virtualToRemote.find? vName with
        | none =>
            simp only [patch_valueChanged, patch_setPatch, back]
            rw [unlock_noop noop₁]
            exact cached
        | some rNames =>
            have told := unlink_allCached (p := { w.patch with
              jsonData := Patch.eraseLinkJson w.patch.jsonData rName vName
              remoteToVirtual := Rows.unlink w.patch.remoteToVirtual rName vName
              virtualToRemote := Rows.unlink w.patch.virtualToRemote vName rName })
              (left.wellFormed h) cached rfl
            simp only [patch_valueChanged, patch_setPatch, back]
            rw [unlock_noop]
            · exact told.bind fun w' cached => cached
            · exact noop₁
      · simp only [linked, if_false]
        rw [unlock_noop noop]
        exact all

theorem removeRemoteLinks_allCached (h : w.WellFormed) (all : w.AllCached)
    (noop : w.mutex = .noop) (rName : QString) :
    Ends (fun _ => True) (removeRemoteLinks w rName) fun q => q.2.AllCached := by
  rw [removeRemoteLinks]
  cases found : w.patch.remoteToVirtual.find? rName with
  | none => exact all
  | some vNames =>
      simp only [lock_noop noop, bind, Except.bind]
      have turns : Ends (fun _ => True) (vNames.foldlM (forgetRemote rName) w) fun w' =>
          (∃ p, PatchStep w w' p) ∧ w'.AllCached := by
        apply Ends.foldlM (I := fun _ w' => (∃ p, PatchStep w w' p) ∧ w'.AllCached)
          ⟨⟨_, .refl w⟩, all⟩
        rintro vName rest w' ⟨⟨p, step⟩, cached⟩
        have wellFormed := step.wellFormed h
        have rows : (w'.patch.forgetRemote rName vName).virtualToRemote =
            Rows.unlink w'.patch.virtualToRemote vName rName := by
          rw [Patch.forgetRemote_eq wellFormed.tidy]
        have told : Ends (fun _ => True) _ _ :=
          (unlink_allCached wellFormed cached rows).mono_err fun _ _ => trivial
        apply (told.and (forgetRemote_step step rName vName)).mono
        exact fun w'' both => ⟨⟨_, both.2⟩, both.1⟩
      apply turns.bind
      rintro w₂ ⟨⟨p, step⟩, cached⟩
      have erased := PatchStep.setJson w₂ (w₂.patch.jsonData.remove rName)
      have noop₂ := (step.trans erased).mutex.trans noop
      rw [unlock_noop]
      · change World.AllCached _
        refine AllCached.setPatch (AllCached.valueChanged (AllCached.setPatch cached ?_)) ?_
        · rfl
        · rfl
      · exact noop₂

theorem elementByName_congr (step : PatchStep w w' p) (vName : QString) :
    elementByName w' vName = elementByName w vName := by
  unfold elementByName groupByName remoteByName
  rw [step.roster]

theorem forgetVirtual_rows (p : Patch) (vName rName : QString) :
    (p.forgetVirtual vName rName).virtualToRemote = p.virtualToRemote := by
  unfold Patch.forgetVirtual
  split
  · rfl
  · split <;> rfl

theorem length_erase_eq {l : QStringList} {r : QString} (same : (l.erase r).length = l.length) :
    l.erase r = l := by
  apply List.erase_of_not_mem
  intro member
  have shorter := List.length_erase_of_mem member
  have some := List.length_pos_of_mem member
  omega

/-- The patch has not forgotten the links yet when the element is told, so its slaves
    stay as they are. -/
theorem forgetVirtual_allCached (h : w.WellFormed) (all : w.AllCached) (vName rName : QString) :
    Ends w.MayFail (forgetVirtual vName (elementByName w vName) w rName) fun w' =>
      w'.AllCached := by
  rw [forgetVirtual]
  cases found : w.patch.remoteToVirtual.find? rName with
  | none => exact all
  | some vNames =>
      have tell : ∀ w', w'.WellFormed → w'.AllCached →
          Ends w'.MayFail (notify w' rName (elementByName w' vName)) World.AllCached := by
        intro w' ok cached
        apply notify_allCached ok fun g inside _ => cached g inside
        intro g inside name lengths
        have slaves : w'.slaves g = w'.patch.remotesOf vName := name ▸ (cached g inside).slaves
        rw [slaves] at lengths ⊢
        exact length_erase_eq lengths
      by_cases linked : vName ∈ vNames
      · simp only [linked, if_true]
        have step := forgetVirtual_changed found linked
        have told := tell _ (step.wellFormed h)
          (AllCached.valueChanged (all.setPatch (forgetVirtual_rows _ _ _)))
        rw [elementByName_congr step] at told
        exact told
      · simp only [linked, if_false]
        exact tell w h all

/-- Taking all links of a name away leaves the slaves of a group of that name. -/
theorem removeVirtualLinks_allCached (h : w.WellFormed) (all : w.AllCached)
    (noop : w.mutex = .noop) (vName : QString) :
    Ends (fun _ => True) (removeVirtualLinks w vName) fun q =>
      q.2.AllCached ↔ ¬(Op.patch (.disconnectVirtual vName)).Outdates w := by
  rw [removeVirtualLinks]
  cases found : w.patch.virtualToRemote.find? vName with
  | none =>
      have row : w.patch.remotesOf vName = [] := by simp [Patch.remotesOf, Rows.row, found]
      exact iff_of_true all fun outdates => outdates.1 row
  | some rNames =>
      have row : w.patch.remotesOf vName = rNames := Rows.row_of_find? found
      have some : w.patch.remotesOf vName ≠ [] := by
        rw [row]
        rintro rfl
        exact h.tidy.nonempty vName found
      simp only [lock_noop noop, bind, Except.bind]
      have turns : Ends (fun _ => True)
          (rNames.foldlM (forgetVirtual vName (elementByName w vName)) w) fun w' =>
            (∃ p, PatchStep w w' p ∧ p.virtualToRemote = w.patch.virtualToRemote) ∧
              w'.AllCached := by
        apply Ends.foldlM (I := fun _ w' =>
          (∃ p, PatchStep w w' p ∧ p.virtualToRemote = w.patch.virtualToRemote) ∧ w'.AllCached)
          ⟨⟨_, .refl w, rfl⟩, all⟩
        rintro rName rest w' ⟨⟨p, step, rows⟩, cached⟩
        have told : Ends (fun _ => True) _ _ :=
          (forgetVirtual_allCached (step.wellFormed h) cached vName rName).mono_err
            fun _ _ => trivial
        rw [elementByName_congr step] at told
        apply (told.and (forgetVirtual_step step vName rName (elementByName_existing vName))).mono
        exact fun w'' both =>
          ⟨⟨_, both.2, (forgetVirtual_rows _ _ _).trans rows⟩, both.1⟩
      apply turns.bind
      rintro w₂ ⟨⟨p, step, rows⟩, cached⟩
      have noop₂ := step.mutex.trans noop
      have rows₂ : w₂.patch.virtualToRemote = w.patch.virtualToRemote := by
        rw [step.patch, rows]
      have vGroups : w₂.vGroups = w.vGroups := by rw [step.roster]
      have groupName : w₂.groupName = w.groupName := by rw [step.roster]
      have row₂ : (w₂.patch.eraseVirtual vName).remotesOf vName = [] := Rows.row_erase_self _ _
      have others : ∀ v, v ≠ vName →
          (w₂.patch.eraseVirtual vName).remotesOf v = w₂.patch.remotesOf v :=
        fun v other => Rows.row_erase_of_ne _ other
      rw [unlock_noop]
      · change (setPatch w₂ (w₂.patch.eraseVirtual vName)).AllCached ↔ _
        constructor
        · rintro after ⟨-, isGroup⟩
          obtain ⟨g, group⟩ := Option.isSome_iff_exists.mp isGroup
          obtain ⟨inside, name⟩ := groupByName_eq_some group
          have inside₂ : g ∈ w₂.vGroups := vGroups ▸ inside
          have before := (cached g inside₂).slaves
          have left : w₂.slaves g = (w₂.patch.eraseVirtual vName).remotesOf (w₂.groupName g) :=
            (after g inside₂).slaves
          rw [groupName, name] at before left
          rw [left, row₂, Patch.remotesOf, rows₂] at before
          exact some before.symm
        · intro fresh g inside
          have none : groupByName w vName = none := by
            by_contra isGroup
            exact fresh ⟨some, Option.isSome_iff_ne_none.mpr isGroup⟩
          have name : w₂.groupName g ≠ vName := by
            rw [groupName]
            exact name_ne_of_none none (vGroups ▸ inside)
          exact (cached g inside).setPatch (others _ name)
      · exact noop₂

end PatchNode

/-! ## Elements which are told -/

namespace VirtualRemote

theorem patchedRemotes_eq (h : w.Unlocked) (v : VRef) :
    patchedRemotes w v = .ok (target w v, w) := by
  have found := patchedRemotes_ends (w := w) v
  cases result : patchedRemotes w v with
  | ok q =>
      rw [result] at found
      exact congrArg Except.ok found
  | error e =>
      have lookup : ∀ name, PatchNode.remoteList w name = .ok (w.linkedRemotes name, w) := by
        intro name
        obtain ⟨w', locked, unlocked, patch⟩ := lock_eq h
        simp only [PatchNode.remoteList, locked, bind, Except.bind, unlocked, patch]
        rfl
      cases v with
      | free n =>
          rw [patchedRemotes, lookup] at result
          cases result
      | member g n =>
          rw [patchedRemotes] at result
          split at result
          · rw [lookup] at result
            cases result
          · cases result

theorem updateVirtualRemote_eq (h : w.Unlocked) (v : VRef) :
    updateVirtualRemote w v = .ok (showRemote w v (target w v).head?) := by
  rw [updateVirtualRemote, patchedRemotes_eq h]
  rfl

end VirtualRemote

theorem VirtualRemote.showRemote_roster (v : VRef) (r? : Option Nat) :
    (showRemote w v r?).toRoster = w.toRoster :=
  (keeps_showRemote (F := { notified := {v} }) rfl r?).roster

theorem VirtualGroup.foldlM_total {f : World → Option VRef → Except Fault World}
    (turn : ∀ w v, f w (some v) = VirtualRemote.updateVirtualRemote w v) (vs : List VRef)
    (h : w.Unlocked) : ∃ w', (vs.map some).foldlM f w = .ok w' := by
  induction vs generalizing w with
  | nil => exact ⟨w, rfl⟩
  | cons v rest ih =>
      rw [List.map_cons, List.foldlM_cons, turn, VirtualRemote.updateVirtualRemote_eq h]
      apply ih
      rw [Unlocked, VirtualRemote.showRemote_roster]
      exact h

namespace World

/-- Telling an element of an unlocked network succeeds. -/
theorem WellFormed.notify_total (h : w.WellFormed) (unlocked : w.Unlocked) (rName : QString)
    {element : Option Element} (existing : Element.Existing w element) :
    ∃ w', PatchNode.notify w rName element = .ok w' := by
  match element, existing with
  | none, _ => exact ⟨w, rfl⟩
  | some (.vRemote n), _ => exact ⟨_, VirtualRemote.updateVirtualRemote_eq unlocked _⟩
  | some (.group g), inside =>
      obtain ⟨global, avatars, ok⟩ := h.groups g inside
      have kept : Keeps { refreshed := {g} } w
          (VirtualGroup.refreshSlaves (VirtualGroup.setSlaves w g ((w.slaves g).erase rName)) g) :=
        (VirtualGroup.keeps_setSlaves rfl (.inl List.erase_sublist)).trans
          (VirtualGroup.keeps_refreshSlaves rfl)
      rw [PatchNode.notify, VirtualGroup.removeSlave, VirtualGroup.updateFromPatch]
      generalize VirtualGroup.refreshSlaves _ g = w₁ at kept ⊢
      have global₁ : w₁.globalRemote g = some (.member g global) := by
        rw [kept.roster]
        exact ok.globalRemote
      have told := VirtualRemote.updateVirtualRemote_eq (kept.unlocked unlocked) (.member g global)
      have roster := VirtualRemote.showRemote_roster (w := w₁) (.member g global)
        (VirtualRemote.target w₁ (.member g global)).head?
      rw [VirtualGroup.updateVirtualRemotes, global₁]
      simp only [told]
      generalize VirtualRemote.showRemote w₁ _ _ = w₂ at roster ⊢
      have avatars₂ : w₂.virtualRemotes g = (avatars.map (VRef.member g)).map some := by
        rw [roster, kept.roster, ok.virtualRemotes, List.map_map]
        rfl
      have unlocked₂ : w₂.Unlocked := by
        rw [Unlocked, roster]
        exact kept.unlocked unlocked
      simp only [bind, Except.bind, avatars₂]
      exact VirtualGroup.foldlM_total (fun _ _ => rfl) _ unlocked₂

end World

theorem PatchNode.removeVirtualLinks_total (h : w.WellFormed) (noop : w.mutex = .noop)
    (vName : QString) : ∃ q, removeVirtualLinks w vName = .ok q := by
  rw [removeVirtualLinks]
  cases found : w.patch.virtualToRemote.find? vName with
  | none => exact ⟨_, rfl⟩
  | some rNames =>
      have turns : Ends (fun _ => False)
          (rNames.foldlM (forgetVirtual vName (elementByName w vName)) w) fun w' =>
            ∃ p, PatchStep w w' p := by
        apply Ends.foldlM (I := fun _ w' => ∃ p, PatchStep w w' p) ⟨_, .refl w⟩
        rintro rName rest w' ⟨p, step⟩
        have existing := elementByName_existing (w := w) vName
        have next := forgetVirtual_step step vName rName existing
        have tell : ∀ w₁ p₁, PatchStep w w₁ p₁ →
            ∃ w₂, notify w₁ rName (elementByName w vName) = .ok w₂ := by
          intro w₁ p₁ step₁
          have unlocked : w₁.Unlocked := by
            rw [Unlocked, step₁.mutex, noop]
            decide
          exact (step₁.wellFormed h).notify_total unlocked rName (step₁.existing existing)
        have returns : ∃ w₂, forgetVirtual vName (elementByName w vName) w' rName = .ok w₂ := by
          rw [forgetVirtual]
          cases found : w'.patch.remoteToVirtual.find? rName with
          | none => exact ⟨w', rfl⟩
          | some vNames =>
              by_cases linked : vName ∈ vNames
              · simp only [linked, if_true]
                exact tell _ _ (step.trans (forgetVirtual_changed found linked))
              · simp only [linked, if_false]
                exact tell _ _ step
        obtain ⟨w₂, run⟩ := returns
        exact ends_total.mpr ⟨w₂, run, _, next.of_ok run⟩
      obtain ⟨w₂, run, -⟩ := ends_total.mp turns
      simp only [lock_noop noop, bind, Except.bind, run]
      exact ⟨_, rfl⟩

/-! ## Runs -/

theorem World.rename_allCached (all : w.AllCached) {name newName : QString} {g : Nat}
    (found : groupByName w name = some g) :
    (w.rename (.group g) newName).2.AllCached ↔ ¬(Op.renameGroup name newName).Outdates w := by
  obtain ⟨inside, old⟩ := groupByName_eq_some found
  by_cases free : (w.json .virtualNet).contains newName
  · rw [rename_refused rfl free]
    exact iff_of_true all fun outdates => outdates.2.1 free
  · obtain ⟨json, renamed, -, -, others⟩ := rename_group w g free
    have number : ∀ g', (json (.group g')).value "slavesNbr" = w.get (.group g') "slavesNbr" :=
      fun g' => congrArg (fun o => o.value "slavesNbr") (others (.group g') (by simp) (by simp))
    rw [renamed]
    constructor
    · rintro after ⟨-, -, other⟩
      have left : w.slaves g = w.patch.remotesOf (Function.update w.groupName g newName g) :=
        (after g inside).slaves
      rw [Function.update_self] at left
      rw [(all g inside).slaves, old] at left
      exact other left.symm
    · intro fresh g' member
      obtain ⟨slaves, count⟩ := all g' member
      refine ⟨?_, (number g').trans count⟩
      change w.slaves g' = w.patch.remotesOf (Function.update w.groupName g newName g')
      by_cases own : g' = g
      · rw [own, Function.update_self, (all g inside).slaves, old]
        by_contra other
        exact fresh ⟨by rw [found]; rfl, free, fun same => other same.symm⟩
      · rw [Function.update_of_ne own]
        exact slaves

/-- Step lemma: exactly the commands which outdate a group leave it outdated. -/
theorem Op.allCached_iff (h : w.WellFormed) (noop : w.mutex = .noop) (all : w.AllCached) (op : Op) :
    Ends (fun _ => True) (op.perform w) fun w' => w'.AllCached ↔ ¬op.Outdates w := by
  have quiet : ∀ {err : Fault → Prop} {x : Except Fault World}, ¬op.Outdates w →
      Ends err x World.AllCached → Ends (fun _ => True) x fun w' => w'.AllCached ↔ ¬op.Outdates w :=
    fun fresh cached =>
      (cached.mono fun _ inside => iff_of_true inside fresh).mono_err fun _ _ => trivial
  by_cases leaves : op.LeavesLinks
  · refine quiet ?_ ((perform_stays h leaves).mono fun w' stays => stays.cached h all)
    cases op <;> first | exact id | exact leaves.elim
  · cases op with
    | renameGroup name newName =>
        cases found : groupByName w name with
        | none =>
            rw [perform, found]
            exact iff_of_true all (by simp [Outdates, found])
        | some g =>
            rw [perform, found]
            exact rename_allCached all found
    | patch op =>
        cases op with
        | connect rName vName =>
            exact quiet id (PatchNode.addLink_allCached h all rName vName).map
        | disconnect rName vName =>
            exact quiet id (PatchNode.removeLink_allCached h all noop rName vName).map
        | disconnectRemote rName =>
            exact quiet id (PatchNode.removeRemoteLinks_allCached h all noop rName).map
        | parseArray name value =>
            exact quiet id (PatchNode.parseArray_allCached h all name value).map
        | fastTriggerRemote rName e v =>
            exact quiet id ((PatchNode.keeps_fastTriggerRemote rName e v).mono
              fun w' kept => (Stays.of_live kept).cached h all)
        | remoteList vName =>
            have same : Ends w.MayFail (PatchNode.remoteList w vName) fun answer =>
                answer.2.AllCached := by
              apply (PatchNode.remoteList_ends vName).mono
              rintro _ rfl
              exact all
            exact quiet id same.map
        | disconnectVirtual vName =>
            exact (PatchNode.removeVirtualLinks_allCached h all noop vName).map
    | _ => exact absurd trivial leaves

/-- The commands which outdate a group do not fail. -/
theorem Op.not_outdates_of_error (h : w.WellFormed) (noop : w.mutex = .noop) {op : Op} {e : Fault}
    (failed : op.perform w = .error e) : ¬op.Outdates w := by
  cases op with
  | patch op =>
      cases op with
      | disconnectVirtual vName =>
          obtain ⟨q, run⟩ := PatchNode.removeVirtualLinks_total h noop vName
          rw [perform, PatchOp.perform, run] at failed
          cases failed
      | _ => exact id
  | renameGroup name newName =>
      rw [perform] at failed
      cases found : groupByName w name with
      | none =>
          rw [found] at failed
          cases failed
      | some g =>
          rw [found] at failed
          cases failed
  | _ => exact id

/-- Along a run the slaves of every group and their number in its JSON are what the patch
    has for its name if and only if no command takes all links of a linked group away, and
    none gives a group a new name for which the patch has other remotes. -/
theorem World.caches_follow_iff (accepts : QString → Option Bool) (ops : List Op) :
    (∀ w, Runs.Reaches (fun w (op : Op) => op.perform w) (initial .noop accepts) ops w →
      ∀ g ∈ w.vGroups, w.slaves g = w.patch.remotesOf (w.groupName g) ∧
        w.get (.group g) "slavesNbr" = some (.double (w.slaves g).length)) ↔
      Runs.Throughout (fun w (op : Op) => op.perform w) (fun w op => ¬op.Outdates w)
        (initial .noop accepts) ops := by
  refine Iff.trans (b := ∀ w, Runs.Reaches (fun w (op : Op) => op.perform w)
    (initial .noop accepts) ops w → w.AllCached) ?_ ?_
  · constructor
    · intro h w reached g inside
      obtain ⟨slaves, number⟩ := h w reached g inside
      exact ⟨slaves, number⟩
    · intro h w reached g inside
      exact ⟨(h w reached g inside).slaves, (h w reached g inside).slavesNbr⟩
  · apply Runs.reaches_iff (J := fun w : World => w.Sound ∧ w.mutex = .noop)
    · exact nofun
    · exact ⟨sound_initial .noop accepts, rfl⟩
    · rintro w op w' ⟨sound, noop⟩ step
      obtain ⟨sound', mutex⟩ := (sound.perform op).of_ok step
      exact ⟨sound', mutex.trans noop⟩
    · rintro w op w' ⟨sound, noop⟩ all step
      exact (op.allCached_iff sound.wellFormed noop all).of_ok step
    · rintro w op e ⟨sound, noop⟩ failed
      exact Op.not_outdates_of_error sound.wellFormed noop failed

/-- A linked group takes another name. -/
theorem World.not_caches_follow : ∃ w, (initial .noop fun _ => none).run
    [.addGroup "Band", .patch (.connect "Remote1" "Band"), .renameGroup "Band" "Choir"] = .ok w ∧
    ∃ g ∈ w.vGroups, w.slaves g ≠ w.patch.remotesOf (w.groupName g) := by
  refine ⟨_, rfl, 0, ?_, ?_⟩
  · decide
  · decide

end VoxPopuli
