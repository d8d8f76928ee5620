import VoxPopuli.Model.Refreshing
import VoxPopuli.Model.Wiring

/-! # Buttons which are copied

When a link of a free virtual remote comes or goes, the virtual remote takes over the buttons
of the first remote which it still has. Four of the copies read the button they write. The
copy of the action button reads `Active`, and no other virtual remote is touched.
-/

namespace VoxPopuli

open World VirtualNetwork

variable {w w₁ w₂ w' : World} {n : Nat}

namespace World

/-- The JSON of some nodes changes and nothing else. -/
def Rewrites (ns : List NodeRef) (w w' : World) : Prop :=
  ∃ json, w' = { w with json := json } ∧ ∀ n ∉ ns, json n = w.json n

theorem Rewrites.trans {ns : List NodeRef} (first : Rewrites ns w w₁) (second : Rewrites ns w₁ w₂) :
    Rewrites ns w w₂ := by
  obtain ⟨json, rfl, others⟩ := first
  obtain ⟨json', rfl, others'⟩ := second
  exact ⟨json', rfl, fun n outside => (others' n outside).trans (others n outside)⟩

theorem Rewrites.get {ns : List NodeRef} (rewrites : Rewrites ns w w') {m : NodeRef}
    (outside : m ∉ ns) (k : QString) : w'.get m k = w.get m k := by
  obtain ⟨json, rfl, others⟩ := rewrites
  exact congrArg (fun o => QJsonObject.value o k) (others m outside)

end World

namespace VirtualRemote

/-! ## What is copied -/

/-- The button of a remote under which `updateVirtualRemote` looks for a button. -/
def copiedFrom (k : QString) : QString := if k = "Action" then "Active" else k

/-- The text which a virtual remote gets for a button, `r?` being the first of its remotes. -/
def copied (w : World) (r? : Option Nat) (k : QString) : QString :=
  r?.elim "NA" fun r => (w.get (.remote r) (copiedFrom k)).toString

theorem get_remote_setString (v : VRef) (k value : QString) (r : Nat) (k' : QString) :
    (w.setString (.vRemote v) k value).2.get (.remote r) k' = w.get (.remote r) k' := by
  have outside : NodeRef.remote r ∉ .vRemote v :: (NodeRef.vRemote v).ancestors := by
    cases v <;> simp [NodeRef.ancestors, VRef.ancestors]
  rw [World.get, setString, json_assign outside, World.get]

theorem get_showRemote (v : VRef) (r? : Option Nat) {k : QString} (button : k ∈ Remote.buttonNames) :
    (showRemote w v r?).get (.vRemote v) k = some (.string (copied w r? k)) := by
  have names : k = "Left" ∨ k = "Up" ∨ k = "Right" ∨ k = "Down" ∨ k = "Action" := by
    simpa [Remote.buttonNames] using button
  cases r? with
  | none =>
      rcases names with rfl | rfl | rfl | rfl | rfl
      all_goals simp [showRemote, get_setString, copied]
  | some r =>
      simp only [showRemote, get_remote_setString, get_setString]
      rcases names with rfl | rfl | rfl | rfl | rfl
      all_goals rfl

/-- Showing a remote writes to the virtual remote and the nodes above it. -/
theorem rewrites_showRemote (w : World) (v : VRef) (r? : Option Nat) :
    Rewrites (.vRemote v :: (NodeRef.vRemote v).ancestors) w (showRemote w v r?) := by
  have text : ∀ (w : World) (k value : QString),
      Rewrites (.vRemote v :: (NodeRef.vRemote v).ancestors) w (w.setString (.vRemote v) k value).2 :=
    fun w k _ => w.assign_frame (.vRemote v) k _ _
  cases r? with
  | none =>
      exact (text w "Up" _).trans ((text _ "Down" _).trans ((text _ "Left" _).trans
        ((text _ "Right" _).trans (text _ "Action" _))))
  | some r =>
      exact (text w "Up" _).trans ((text _ "Down" _).trans ((text _ "Left" _).trans
        ((text _ "Right" _).trans (text _ "Action" _))))

end VirtualRemote

/-! ## Links which change -/

namespace World

/-- The links change; of the JSON only that of the network model does. -/
structure Relinked (w w' : World) : Prop where
  elements : SameElements w w'
  remotes : w'.remotes = w.remotes
  remoteName : w'.remoteName = w.remoteName
  json : ∀ n ≠ .network, w'.json n = w.json n

namespace Relinked

theorem trans (first : Relinked w w₁) (second : Relinked w₁ w₂) : Relinked w w₂ where
  elements := first.elements.trans second.elements
  remotes := second.remotes.trans first.remotes
  remoteName := second.remoteName.trans first.remoteName
  json n other := (second.json n other).trans (first.json n other)

theorem setPatch (w : World) (p : Patch) : Relinked w (PatchNode.setPatch w p) :=
  ⟨rfl, rfl, rfl, fun _ _ => rfl⟩

theorem valueChanged (w : World) : Relinked w (w.valueChanged .patch) := by
  obtain ⟨json, same, others⟩ := w.mirror_frame .patch [.network]
  have changed : w.valueChanged .patch = { w with json := json } := same
  rw [changed]
  exact ⟨rfl, rfl, rfl, fun n other => others n (by simpa using other)⟩

theorem lock (locked : w.lock = .ok w₁) : Relinked w w₁ := by
  unfold World.lock at locked
  split at locked
  all_goals cases locked
  all_goals exact ⟨rfl, rfl, rfl, fun _ _ => rfl⟩

theorem unlock (w : World) : Relinked w w.unlock := by
  unfold World.unlock
  split
  all_goals exact ⟨rfl, rfl, rfl, fun _ _ => rfl⟩

variable (relinked : Relinked w w')

include relinked

theorem elementByName (vName : QString) :
    VirtualNetwork.elementByName w' vName = VirtualNetwork.elementByName w vName := by
  unfold VirtualNetwork.elementByName groupByName remoteByName
  rw [relinked.elements.vGroups, relinked.elements.groupName, relinked.elements.vRemotes,
    relinked.elements.vRemoteName]

theorem byName : RemoteList.byName w' = RemoteList.byName w := by
  unfold RemoteList.byName
  rw [relinked.remotes, relinked.remoteName]

theorem get {m : NodeRef} (other : m ≠ .network) (k : QString) : w'.get m k = w.get m k := by
  rw [World.get, relinked.json m other, World.get]

end Relinked

end World

/-- The virtual remote has taken over the buttons of the first remote of these names. -/
structure World.Taken (w : World) (n : Nat) (names : QStringList) (w' : World) : Prop where
  target : VirtualRemote.target w' (.free n) = names.filterMap (RemoteList.byName w)
  own : ∀ k ∈ Remote.buttonNames, w'.get (.vRemote (.free n)) k =
    some (.string (VirtualRemote.copied w (names.filterMap (RemoteList.byName w)).head? k))
  others : ∀ v ≠ .free n, ∀ k, w'.get (.vRemote v) k = w.get (.vRemote v) k
  remotes : ∀ r k, w'.get (.remote r) k = w.get (.remote r) k

/-- Later changes of the links of other names do not matter. -/
theorem World.Taken.relinked {names : QStringList} (taken : Taken w n names w₁)
    (more : Relinked w₁ w₂) (rows : w₂.patch.virtualToRemote = w₁.patch.virtualToRemote) :
    Taken w n names w₂ where
  target := by
    rw [← taken.target, VirtualRemote.target, VirtualRemote.target, linkedRemotes, linkedRemotes,
      more.byName, more.elements.vRemoteName, Patch.remotesOf, Patch.remotesOf, rows]
  own k button := (more.get (by simp) k).trans (taken.own k button)
  others v other k := (more.get (by simp) k).trans (taken.others v other k)
  remotes r k := (more.get (by simp) k).trans (taken.remotes r k)

namespace PatchNode

theorem patch_unlock (w : World) : w.unlock.patch = w.patch := by
  unfold unlock
  split
  all_goals rfl

section

variable (h : w.Registered) {rName vName : QString} (found : remoteByName w vName = some n)

include h found

theorem notify_takes (relinked : Relinked w w₁) :
    Ends (fun _ => True) (notify w₁ rName (elementByName w₁ vName)) fun w₂ =>
      Taken w n (w₁.patch.remotesOf vName) w₂ ∧ w₂.patch = w₁.patch := by
  obtain ⟨inside, named⟩ := remoteByName_eq_some found
  have element : elementByName w₁ vName = some (.vRemote n) := by
    rw [relinked.elementByName]
    exact (elementByName_iff h).mpr ⟨inside, named⟩
  have first : VirtualRemote.target w₁ (.free n) =
      (w₁.patch.remotesOf vName).filterMap (RemoteList.byName w) := by
    rw [VirtualRemote.target, linkedRemotes, relinked.byName, relinked.elements.vRemoteName, named]
  rw [element]
  refine ((VirtualRemote.patchedRemotes_ends (w := w₁) (.free n)).mono_err
    fun _ _ => trivial).bind ?_
  rintro _ rfl
  have rewrites := VirtualRemote.rewrites_showRemote w₁ (.free n)
    (VirtualRemote.target w₁ (.free n)).head?
  refine ⟨⟨?_, fun k button => ?_, fun v other k => ?_, fun r k => ?_⟩, ?_⟩
  · obtain ⟨json, shown, -⟩ := rewrites
    rw [shown, ← first]
    rfl
  · rw [VirtualRemote.get_showRemote _ _ button, first]
    unfold VirtualRemote.copied
    simp only [relinked.get (m := .remote _) (by simp)]
  · refine (rewrites.get ?_ k).trans (relinked.get (by simp) k)
    simpa [NodeRef.ancestors, VRef.ancestors] using other
  · refine (rewrites.get ?_ k).trans (relinked.get (by simp) k)
    simp [NodeRef.ancestors, VRef.ancestors]
  · obtain ⟨json, shown, -⟩ := rewrites
    rw [shown]

theorem addLink_takes (w' : World) (added : addLink w rName vName = .ok (true, w')) :
    Taken w n (w.patch.remotesOf vName ++ [rName]) w' := by
  rw [addLink, addEntry] at added
  cases entry : w.patch.addEntry rName vName with
  | mk b p =>
      rw [entry] at added
      cases b with
      | false => cases added
      | true =>
          have row : p.remotesOf vName = w.patch.remotesOf vName ++ [rName] :=
            (Rows.row_link? (addEntry_added entry) vName).trans (if_pos rfl)
          obtain ⟨q, entered, stored⟩ := bind_eq_ok.mp added
          obtain ⟨w₁, told, paired⟩ := bind_eq_ok.mp entered
          cases paired
          obtain ⟨taken, -⟩ := (notify_takes h found (.setPatch w p)).of_ok told
          rw [patch_setPatch, row] at taken
          cases stored
          exact taken.relinked ((Relinked.setPatch _ _).trans (.valueChanged _)) (by simp)

theorem removeLink_takes (w' : World) (removed : removeLink w rName vName = .ok (true, w')) :
    Taken w n ((w.patch.remotesOf vName).erase rName) w' := by
  rw [removeLink] at removed
  cases linked : w.patch.remoteToVirtual.find? rName with
  | none =>
      rw [linked] at removed
      cases removed
  | some vNames =>
      rw [linked] at removed
      obtain ⟨w₁, locked, removed⟩ := bind_eq_ok.mp removed
      split at removed
      · dsimp only at removed
        split at removed
        · cases removed
        · rename_i rNames row
          obtain ⟨w₂, told, done⟩ := bind_eq_ok.mp removed
          cases done
          have takes := fun changed => (notify_takes h found changed).of_ok told
          obtain ⟨taken, -⟩ := takes ((Relinked.lock locked).trans ((Relinked.setPatch _ _).trans
            ((Relinked.valueChanged _).trans ((Relinked.setPatch _ _).trans
              ((Relinked.setPatch _ _).trans (.unlock _))))))
          rw [patch_unlock, remotesOf_unlinked (p := w₁.patch), lock_patch locked] at taken
          · exact taken
          · simp only [patch_setPatch, patch_valueChanged]
      · cases removed

end

end PatchNode

/-! ## Connecting and disconnecting -/

/-- The calls which change one link. -/
inductive Relink where
  | connect
  | disconnect

namespace Relink

def perform (w : World) (rName vName : QString) : Relink → Except Fault (Bool × World)
  | connect => PatchNode.addLink w rName vName
  | disconnect => PatchNode.removeLink w rName vName

/-- The names which are linked to the element afterwards. -/
def remaining (w : World) (rName vName : QString) : Relink → QStringList
  | connect => w.patch.remotesOf vName ++ [rName]
  | disconnect => (w.patch.remotesOf vName).erase rName

/-- The first of the remotes which the element has afterwards. -/
def first (w : World) (rName vName : QString) (op : Relink) : Option Nat :=
  ((op.remaining w rName vName).filterMap (RemoteList.byName w)).head?

theorem takes (h : w.Registered) {rName vName : QString} (found : remoteByName w vName = some n)
    (op : Relink) (done : op.perform w rName vName = .ok (true, w')) :
    Taken w n (op.remaining w rName vName) w' := by
  cases op with
  | connect => exact PatchNode.addLink_takes h found w' done
  | disconnect => exact PatchNode.removeLink_takes h found w' done

end Relink

namespace World

/-- The buttons of a free virtual remote are those of the first of its remotes, or all `NA`. -/
def ShowsFirst (w : World) (n : Nat) : Prop :=
  ∀ k ∈ Remote.buttonNames, w.get (.vRemote (.free n)) k = some (.string
    ((VirtualRemote.target w (.free n)).head?.elim "NA" fun r => (w.get (.remote r) k).toString))

/-- The buttons of all other virtual remotes are as before. -/
def OthersKept (n : Nat) (w w' : World) : Prop :=
  ∀ v ≠ .free n, ∀ k ∈ Remote.buttonNames, w'.get (.vRemote v) k = w.get (.vRemote v) k

theorem Taken.shows_iff {names : QStringList} (taken : Taken w n names w') :
    w'.ShowsFirst n ↔ ∀ r ∈ (names.filterMap (RemoteList.byName w)).head?,
      (w.get (.remote r) "Active").toString = (w.get (.remote r) "Action").toString := by
  unfold ShowsFirst
  rw [taken.target]
  cases first : (names.filterMap (RemoteList.byName w)).head? with
  | none =>
      refine iff_of_true (fun k button => ?_) (by simp)
      rw [taken.own k button, first]
      rfl
  | some r =>
      have shown := taken.own
      rw [first] at shown
      constructor
      · intro all r' same
        cases same
        have action := (shown "Action" (by decide)).symm.trans (all "Action" (by decide))
        simpa [VirtualRemote.copied, VirtualRemote.copiedFrom, taken.remotes] using action
      · intro same k button
        rw [shown k button]
        by_cases action : k = "Action"
        · simpa [VirtualRemote.copied, VirtualRemote.copiedFrom, taken.remotes, action] using same r rfl
        · simp [VirtualRemote.copied, VirtualRemote.copiedFrom, taken.remotes, action]

end World

/-- After a link of a free virtual remote has come or gone its buttons are those of the first
    remote it still has, and no other buttons have changed, exactly when that remote does not tell
    `Active` from `Action`, or there is none. -/
theorem Relink.showsFirst_iff {mutex : MutexState} (reachable : w.Reachable mutex)
    {rName vName : QString} (found : remoteByName w vName = some n) (op : Relink)
    (done : op.perform w rName vName = .ok (true, w')) :
    w'.ShowsFirst n ∧ OthersKept n w w' ↔ ∀ r ∈ op.first w rName vName,
      (w.get (.remote r) "Active").toString = (w.get (.remote r) "Action").toString := by
  have taken := op.takes reachable.sound.1.wellFormed.toRegistered found done
  have kept : OthersKept n w w' := fun v other k _ => taken.others v other k
  rw [and_iff_left kept]
  exact taken.shows_iff

/-- The only link of a virtual remote is taken away. -/
theorem Relink.showsFirst_iff_last :
    Ends (fun _ => False) ((initial .free fun _ => none).run
      [.addRemote "1", .addVirtualRemote "Solo", .patch (.connect "Remote1" "Solo")]) fun w =>
        Ends (fun _ => False) (disconnect.perform w "Remote1" "Solo") fun q =>
          q.1 = true ∧ q.2.ShowsFirst 0 ∧ OthersKept 0 w q.2 := by
  have run : Ends (fun _ => False) ((initial .free fun _ => none).run
      [.addRemote "1", .addVirtualRemote "Solo", .patch (.connect "Remote1" "Solo")]) fun w =>
        (remoteByName w "Solo" = some 0 ∧ disconnect.first w "Remote1" "Solo" = none) ∧
          Ends (fun _ => False) (disconnect.perform w "Remote1" "Solo") fun q => q.1 = true := by
    decide
  obtain ⟨w, ended, ⟨found, last⟩, performed⟩ := ends_total.mp run
  obtain ⟨⟨b, w'⟩, done, rfl⟩ := ends_total.mp performed
  rw [ended]
  change Ends _ (disconnect.perform w "Remote1" "Solo") _
  rw [done]
  have shows := (showsFirst_iff ⟨_, _, ended⟩ found disconnect done).mpr (by simp [last])
  exact ⟨rfl, shows⟩

/-- A remote whose action button is up is linked to a virtual remote. -/
theorem not_showsFirst :
    ¬∀ (mutex : MutexState) (w : World), w.Reachable mutex → ∀ (rName vName : QString) (n : Nat),
      remoteByName w vName = some n → ∀ (op : Relink) (w' : World),
        op.perform w rName vName = .ok (true, w') → w'.ShowsFirst n ∧ OthersKept n w w' := by
  intro all
  have run : Ends (fun _ => False) ((initial .free fun _ => none).run
      [.addRemote "1", .addVirtualRemote "Solo"]) fun w => remoteByName w "Solo" = some 0 ∧
        Ends (fun _ => False) (Relink.connect.perform w "Remote1" "Solo") fun q => q.1 = true ∧
          VirtualRemote.target q.2 (.free 0) = [0] ∧
            (q.2.get (.vRemote (.free 0)) "Action").toString = "" ∧
              (q.2.get (.remote 0) "Action").toString = "up" := by
    decide
  obtain ⟨w, ended, found, performed⟩ := ends_total.mp run
  obtain ⟨⟨b, w'⟩, done, rfl, target, shown, stored⟩ := ends_total.mp performed
  have shows := (all .free w ⟨_, _, ended⟩ "Remote1" "Solo" 0 found .connect w' done).1 "Action"
    (by decide)
  rw [target, List.head?_cons, Option.elim_some, stored] at shows
  have texts : ("" : QString) = "up" := shown.symm.trans (congrArg QVariant.toString shows)
  exact absurd texts (by decide)

end VoxPopuli
