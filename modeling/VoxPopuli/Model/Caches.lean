import VoxPopuli.Model.WellFormed

/-! # What groups cache

A group keeps the list of its slaves and their number in its JSON, which it takes from
the patch when it is told of a change. Most commands leave the links and these caches
alone; the update of a group from the patch brings them up to date.
-/

namespace VoxPopuli

open World

variable {F : Footprint} {w w' w'' : World}

/-! ## Commands which leave the links alone -/

namespace World

/-- The slaves of a group and their number in its JSON are those of the patch. -/
structure Cached (w : World) (g : Nat) : Prop where
  slaves : w.slaves g = w.patch.remotesOf (w.groupName g)
  slavesNbr : w.get (.group g) "slavesNbr" = some (.double (w.slaves g).length)

def AllCached (w : World) : Prop := ∀ g ∈ w.vGroups, w.Cached g

theorem SameLinks.cached (same : SameLinks w w') {g : Nat} (inside : g ∈ w.vGroups)
    (h : w.Cached g) : w'.Cached g where
  slaves := by
    rw [same.slaves g inside, same.patch, same.groupName g inside]
    exact h.slaves
  slavesNbr := by
    rw [same.slavesNbr g inside, same.slaves g inside]
    exact h.slavesNbr

theorem SameLinks.allCached (same : SameLinks w w') (h : w.AllCached) : w'.AllCached := by
  intro g inside
  rw [same.vGroups] at inside
  exact same.cached inside (h g inside)

structure Stays (w w' : World) : Prop where
  patch : w'.patch = w.patch
  mutex : w'.mutex = w.mutex
  wellFormed : w.WellFormed → w'.WellFormed
  cached : w.WellFormed → w.AllCached → w'.AllCached

namespace Stays

theorem refl (w : World) : Stays w w := ⟨rfl, rfl, id, fun _ => id⟩

theorem trans (h : Stays w w') (h' : Stays w' w'') : Stays w w'' where
  patch := h'.patch.trans h.patch
  mutex := h'.mutex.trans h.mutex
  wellFormed := h'.wellFormed ∘ h.wellFormed
  cached ok := h'.cached (h.wellFormed ok) ∘ h.cached ok

theorem of_sameLinks (same : SameLinks w w') (wellFormed : w.WellFormed → w'.WellFormed) :
    Stays w w' :=
  ⟨same.patch, same.mutex, wellFormed, fun _ => same.allCached⟩

/-- A step around virtual remotes which events can reach. -/
theorem of_keeps (kept : Keeps F w w') (notified : ∀ v ∈ F.notified, w.Live v)
    (rewritten : ∀ v, v ∉ F.rewritten) (refreshed : ∀ g, g ∉ F.refreshed) : Stays w w' where
  patch := by rw [kept.roster]
  mutex := by rw [kept.roster]
  wellFormed h :=
    h.keeps kept (fun _ _ _ inside => h.live_member (notified _ inside)) fun _ _ v _ => rewritten v
  cached h :=
    (kept.sameLinks (fun g _ => refreshed g)
      fun _ inside _ member => h.member_name_ne inside (notified _ member)).allCached

theorem of_live (kept : Keeps w.live w w') : Stays w w' :=
  of_keeps kept (fun _ => id) (fun _ => id) fun _ => id

theorem mayFail_eq (h : Stays w w') : w'.MayFail = w.MayFail := by
  unfold MayFail
  rw [h.mutex]

end Stays

end World

/-! ## Caches -/

namespace World

variable {g : Nat}

theorem Keeps.cached (kept : Keeps F w w') (refreshed : g ∉ F.refreshed)
    (names : ∀ n, .member g n ∈ F.notified → w.vRemoteName (.member g n) ≠ "slavesNbr")
    (h : w.Cached g) : w'.Cached g where
  slaves := by
    rw [kept.slaves g refreshed, kept.roster]
    exact h.slaves
  slavesNbr := by
    have value : w'.get (.group g) "slavesNbr" = w.get (.group g) "slavesNbr" :=
      kept.groupValue g "slavesNbr" (by decide) (fun _ => refreshed) names
    rw [value, kept.slaves g refreshed]
    exact h.slavesNbr

/-- The number of slaves in the JSON of a group is right. -/
def Counted (w : World) (g : Nat) : Prop :=
  w.get (.group g) "slavesNbr" = some (.double (w.slaves g).length)

theorem slaves_setSlaves (g : Nat) (slaves : QStringList) :
    (VirtualGroup.setSlaves w g slaves).slaves = Function.update w.slaves g slaves := by
  unfold VirtualGroup.setSlaves setNumber assign
  split <;> rfl

theorem counted_setSlaves (g : Nat) (slaves : QStringList) :
    (VirtualGroup.setSlaves w g slaves).Counted g := by
  rw [Counted, slaves_setSlaves, Function.update_self]
  unfold VirtualGroup.setSlaves setNumber assign
  split
  · rename_i same
    cases value : World.get { w with slaves := Function.update w.slaves g slaves } (.group g)
        "slavesNbr" with
    | none => simp [value] at same
    | some v => cases v <;> simp_all
  · simp [World.get, valueChanged, updateParentJSon, mirror, NodeRef.ancestors, putJson, setJson]

/-- Refreshing the slaves makes up for a list of the wrong length. -/
theorem cached_refreshSlaves (counted : w.Counted g)
    (same : (w.slaves g).length = (w.patch.remotesOf (w.groupName g)).length →
      w.slaves g = w.patch.remotesOf (w.groupName g)) :
    (VirtualGroup.refreshSlaves w g).Cached g := by
  unfold VirtualGroup.refreshSlaves
  dsimp only
  split
  · refine ⟨?_, counted_setSlaves g _⟩
    have kept : Keeps { refreshed := {g} } w
        (VirtualGroup.setSlaves w g (w.patch.remotesOf (w.groupName g))) :=
      VirtualGroup.keeps_setSlaves rfl (.inr (.refl _))
    rw [slaves_setSlaves, Function.update_self, kept.roster]
  · rename_i lengths
    exact ⟨same (not_not.mp lengths), counted⟩

/-- The update of a group from the patch leaves the caches of the others alone. -/
theorem WellFormed.updateFromPatch_ends (h : w.WellFormed) (inside : g ∈ w.vGroups)
    (counted : w.Counted g) :
    Ends w.MayFail (VirtualGroup.updateFromPatch w g) fun w' =>
      w'.toRoster = w.toRoster ∧ w'.WellFormed ∧
        (((w.slaves g).length = (w.patch.remotesOf (w.groupName g)).length →
            w.slaves g = w.patch.remotesOf (w.groupName g)) →
          (∀ g' ∈ w.vGroups, g' ≠ g → w.Cached g') → w'.AllCached) := by
  have refresh : Keeps { refreshed := {g} } w (VirtualGroup.refreshSlaves w g) :=
    VirtualGroup.keeps_refreshSlaves rfl
  have wellFormed : (VirtualGroup.refreshSlaves w g).WellFormed :=
    h.keeps refresh (fun _ _ _ => False.elim) fun _ _ _ _ => id
  have inside' : g ∈ (VirtualGroup.refreshSlaves w g).vGroups := by
    rw [refresh.roster]
    exact inside
  have updated := VirtualGroup.keeps_updateVirtualRemotes (w := VirtualGroup.refreshSlaves w g)
    (F := (VirtualGroup.refreshSlaves w g).live) fun v => Live.of_member inside'
  rw [refresh.mayFail_eq] at updated
  apply updated.mono
  intro w' kept
  refine ⟨kept.roster.trans refresh.roster, wellFormed.live kept, fun same others => ?_⟩
  apply (Stays.of_live kept).cached wellFormed
  intro g' member
  rw [refresh.roster] at member
  by_cases own : g' = g
  · rw [own]
    exact cached_refreshSlaves counted same
  · exact refresh.cached own (fun _ => False.elim) (others g' member own)

end World

end VoxPopuli
