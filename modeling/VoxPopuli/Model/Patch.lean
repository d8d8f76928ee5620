import VoxPopuli.Qt

/-! # The patch between real and virtual remotes

`Patch` keeps every link twice, by remote and by virtual element, and a third
time in its JSON object. The operations here are the bookkeeping of the class:
its mutex and the notification of the virtual elements concern the surrounding
network and are added there, around the same pieces.
-/

namespace VoxPopuli

open Rows

structure Patch where
  jsonData : QJsonObject := []
  remoteToVirtual : SortedMap QString QStringList := ∅
  virtualToRemote : SortedMap QString QStringList := ∅

namespace Patch

/-- The virtual elements a remote is linked to. -/
def virtualsOf (p : Patch) (rName : QString) : QStringList := row p.remoteToVirtual rName

/-- The remotes a virtual element is linked to. -/
def remotesOf (p : Patch) (vName : QString) : QStringList := row p.virtualToRemote vName

def addEntry (p : Patch) (rName vName : QString) : Bool × Patch :=
  match link? p.remoteToVirtual rName vName with
  | none => (false, p)
  | some remoteToVirtual =>
      let p := { p with remoteToVirtual := remoteToVirtual }
      match link? p.virtualToRemote vName rName with
      | none => (false, p)
      | some virtualToRemote => (true, { p with virtualToRemote := virtualToRemote })

theorem addEntry_old {p : Patch} {rName vName : QString} (old : vName ∈ p.virtualsOf rName) :
    p.addEntry rName vName = (false, p) := by
  rw [addEntry, link?_eq_none.mpr old]

/-- Entries are added until the first one which is there already. -/
def parseArray (p : Patch) (name : QString) : QStringList → Bool × Patch
  | [] => (true, p)
  | vName :: rest =>
      match p.addEntry name vName with
      | (false, p) => (false, p)
      | (true, p) => p.parseArray name rest

/-- The JSON array of a remote without the first value which reads as `vName`. -/
def eraseLinkJson (jsonData : QJsonObject) (rName vName : QString) : QJsonObject :=
  let a := (jsonData.toArray rName).eraseP fun v => v.toString = vName
  if !a.isEmpty then jsonData.insert rName (.array a) else jsonData.remove rName

def addLink (p : Patch) (rName vName : QString) : Bool × Patch :=
  match p.addEntry rName vName with
  | (false, p) => (false, p)
  | (true, p) =>
      let a := p.jsonData.toArray rName ++ [.string vName]
      (true, { p with jsonData := p.jsonData.insert rName (.array a) })

def removeLink (p : Patch) (rName vName : QString) : Bool × Patch :=
  match p.remoteToVirtual.find? rName with
  | none => (false, p)
  | some vNames =>
      if vName ∈ vNames then
        let p := { p with
          jsonData := eraseLinkJson p.jsonData rName vName
          remoteToVirtual := unlink p.remoteToVirtual rName vName }
        match p.virtualToRemote.find? vName with
        | none => (false, p)
        | some _ => (true, { p with virtualToRemote := unlink p.virtualToRemote vName rName })
      else (false, p)

/-- One turn of the loop of `removeRemoteLinks`. -/
def forgetRemote (p : Patch) (rName vName : QString) : Patch :=
  match p.virtualToRemote.find? vName with
  | none => p
  | some _ => { p with virtualToRemote := unlink p.virtualToRemote vName rName }

/-- What `removeRemoteLinks` does after its loop. -/
def eraseRemote (p : Patch) (rName : QString) : Patch :=
  { p with
    jsonData := p.jsonData.remove rName
    remoteToVirtual := p.remoteToVirtual.erase rName }

def removeRemoteLinks (p : Patch) (rName : QString) : Bool × Patch :=
  match p.remoteToVirtual.find? rName with
  | none => (false, p)
  | some vNames =>
      (true, (vNames.foldl (fun p vName => p.forgetRemote rName vName) p).eraseRemote rName)

/-- One turn of the loop of `removeVirtualLinks`. -/
def forgetVirtual (p : Patch) (vName rName : QString) : Patch :=
  match p.remoteToVirtual.find? rName with
  | none => p
  | some vNames =>
      if vName ∈ vNames then
        { p with
          remoteToVirtual := unlink p.remoteToVirtual rName vName
          jsonData := eraseLinkJson p.jsonData rName vName }
      else p

/-- What `removeVirtualLinks` does after its loop. -/
def eraseVirtual (p : Patch) (vName : QString) : Patch :=
  { p with virtualToRemote := p.virtualToRemote.erase vName }

def removeVirtualLinks (p : Patch) (vName : QString) : Bool × Patch :=
  match p.virtualToRemote.find? vName with
  | none => (false, p)
  | some rNames =>
      (true, (rNames.foldl (fun p rName => p.forgetVirtual vName rName) p).eraseVirtual vName)

/-- The calls which change the links. -/
inductive Call where
  | parseArray (name : QString) (value : QStringList)
  | connect (rName vName : QString)
  | disconnect (rName vName : QString)
  | disconnectRemote (rName : QString)
  | disconnectVirtual (vName : QString)

def call (p : Patch) : Call → Patch
  | .parseArray name value => (p.parseArray name value).2
  | .connect rName vName => (p.addLink rName vName).2
  | .disconnect rName vName => (p.removeLink rName vName).2
  | .disconnectRemote rName => (p.removeRemoteLinks rName).2
  | .disconnectVirtual vName => (p.removeVirtualLinks vName).2

def run (calls : List Call) (p : Patch) : Patch := calls.foldl call p

/-! ## The two maps describe the same links -/

def Consistent (p : Patch) : Prop := Converse p.remoteToVirtual p.virtualToRemote

theorem consistent_empty : Consistent {} := converse_empty

namespace Consistent

variable {p : Patch}

theorem mem_iff (h : p.Consistent) (rName vName : QString) :
    vName ∈ p.virtualsOf rName ↔ rName ∈ p.remotesOf vName :=
  Converse.mem_iff h rName vName

/-- The second half of `addEntry` cannot fail: a new pair is new on both sides. -/
theorem addEntry_new (h : p.Consistent) {rName vName : QString} (new : vName ∉ p.virtualsOf rName) :
    p.addEntry rName vName = (true, { p with
      remoteToVirtual := p.remoteToVirtual.insert rName (p.virtualsOf rName ++ [vName])
      virtualToRemote := p.virtualToRemote.insert vName (p.remotesOf vName ++ [rName]) }) := by
  unfold Patch.addEntry
  cases forward : link? p.remoteToVirtual rName vName with
  | none => exact absurd (link?_eq_none.mp forward) new
  | some m =>
      obtain ⟨-, rfl⟩ := link?_eq_some forward
      cases backward : link? p.virtualToRemote vName rName with
      | none => exact absurd ((h.mem_iff rName vName).mpr (link?_eq_none.mp backward)) new
      | some m' =>
          obtain ⟨-, rfl⟩ := link?_eq_some backward
          simp only [backward]
          rfl

theorem addEntry (h : p.Consistent) (rName vName : QString) :
    (p.addEntry rName vName).2.Consistent := by
  unfold Patch.addEntry
  cases forward : link? p.remoteToVirtual rName vName with
  | none => exact h
  | some m =>
      obtain ⟨fresh, -⟩ := link?_eq_some forward
      cases backward : link? p.virtualToRemote vName rName with
      | none => exact absurd ((h.mem_iff rName vName).mpr (link?_eq_none.mp backward)) fresh
      | some m' =>
          simp only [backward]
          exact Converse.link? h forward backward

theorem parseArray (h : p.Consistent) (name : QString) (value : QStringList) :
    (p.parseArray name value).2.Consistent := by
  induction value generalizing p with
  | nil => exact h
  | cons vName rest ih =>
      have step := h.addEntry name vName
      unfold Patch.parseArray
      split
      · rename_i p' added
        simpa [added] using step
      · rename_i p' added
        exact ih (by simpa [added] using step)

theorem addLink (h : p.Consistent) (rName vName : QString) :
    (p.addLink rName vName).2.Consistent := by
  have step := h.addEntry rName vName
  unfold Patch.addLink
  split
  · rename_i p' added
    simpa [added] using step
  · rename_i p' added
    simpa [Consistent, added] using step

theorem removeLink (h : p.Consistent) (rName vName : QString) :
    (p.removeLink rName vName).2.Consistent := by
  unfold Patch.removeLink
  cases found : p.remoteToVirtual.find? rName with
  | none => exact h
  | some vNames =>
      by_cases linked : vName ∈ vNames
      · -- The link is recorded on the other side too, so its row exists.
        have back : rName ∈ p.remotesOf vName :=
          (h.mem_iff rName vName).mp (by simpa [virtualsOf, row_of_find? found] using linked)
        have row := h.tidy'.find?_eq_some (List.ne_nil_of_mem back)
        simp only [linked, if_true, row]
        exact Converse.unlink h rName vName
      · simpa [linked] using h

end Consistent

/-- One turn of the loop of `removeRemoteLinks` unlinks the remote, whether or not
    the name has an entry. -/
theorem forgetRemote_eq {p : Patch} (tidy : Tidy p.virtualToRemote) (rName vName : QString) :
    p.forgetRemote rName vName =
      { p with virtualToRemote := unlink p.virtualToRemote vName rName } := by
  unfold forgetRemote
  cases found : p.virtualToRemote.find? vName with
  | none =>
      have absent : rName ∉ row p.virtualToRemote vName := by simp [row, found]
      simp only [unlink_of_not_mem tidy absent]
  | some rNames => rfl

theorem foldl_forgetRemote {p : Patch} (tidy : Tidy p.virtualToRemote) (rName : QString)
    (vNames : QStringList) :
    vNames.foldl (fun p vName => p.forgetRemote rName vName) p =
      { p with virtualToRemote := unlinkAll p.virtualToRemote vNames rName } := by
  induction vNames generalizing p with
  | nil => rfl
  | cons vName rest ih =>
      rw [List.foldl_cons, forgetRemote_eq tidy, ih (tidy.unlink vName rName)]
      rfl

/-- One turn of the loop of `removeVirtualLinks` does the same to the other map. -/
theorem forgetVirtual_maps {p : Patch} (tidy : Tidy p.remoteToVirtual) (vName rName : QString) :
    (p.forgetVirtual vName rName).remoteToVirtual = unlink p.remoteToVirtual rName vName ∧
      (p.forgetVirtual vName rName).virtualToRemote = p.virtualToRemote := by
  unfold forgetVirtual
  cases found : p.remoteToVirtual.find? rName with
  | none =>
      have absent : vName ∉ row p.remoteToVirtual rName := by simp [row, found]
      exact ⟨(unlink_of_not_mem tidy absent).symm, rfl⟩
  | some vNames =>
      by_cases linked : vName ∈ vNames
      · simp [linked]
      · have absent : vName ∉ row p.remoteToVirtual rName := by
          rwa [row_of_find? found]
        simp [linked, unlink_of_not_mem tidy absent]

theorem foldl_forgetVirtual_maps {p : Patch} (tidy : Tidy p.remoteToVirtual) (vName : QString)
    (rNames : QStringList) :
    (rNames.foldl (fun p rName => p.forgetVirtual vName rName) p).remoteToVirtual =
        unlinkAll p.remoteToVirtual rNames vName ∧
      (rNames.foldl (fun p rName => p.forgetVirtual vName rName) p).virtualToRemote =
        p.virtualToRemote := by
  induction rNames generalizing p with
  | nil => exact ⟨rfl, rfl⟩
  | cons rName rest ih =>
      obtain ⟨forward, backward⟩ := forgetVirtual_maps tidy vName rName
      have tail := ih (p := p.forgetVirtual vName rName) (by
        rw [forward]
        exact tidy.unlink rName vName)
      rw [forward, backward] at tail
      exact tail

namespace Consistent

variable {p : Patch}

theorem removeRemoteLinks (h : p.Consistent) (rName : QString) :
    (p.removeRemoteLinks rName).2.Consistent := by
  unfold Patch.removeRemoteLinks
  cases found : p.remoteToVirtual.find? rName with
  | none => exact h
  | some vNames =>
      have erased := Converse.erase h rName
      rw [row_of_find? found] at erased
      simpa only [Consistent, eraseRemote, foldl_forgetRemote h.tidy'] using erased

theorem removeVirtualLinks (h : p.Consistent) (vName : QString) :
    (p.removeVirtualLinks vName).2.Consistent := by
  unfold Patch.removeVirtualLinks
  cases found : p.virtualToRemote.find? vName with
  | none => exact h
  | some rNames =>
      obtain ⟨forward, backward⟩ := foldl_forgetVirtual_maps h.tidy vName rNames
      have erased := (Converse.erase (Converse.symm h) vName).symm
      rw [row_of_find? found] at erased
      simpa only [Consistent, eraseVirtual, forward, backward] using erased

/-- Step lemma: every call keeps the two maps in agreement. -/
theorem call (h : p.Consistent) (c : Call) : (p.call c).Consistent := by
  cases c with
  | parseArray name value => exact h.parseArray name value
  | connect rName vName => exact h.addLink rName vName
  | disconnect rName vName => exact h.removeLink rName vName
  | disconnectRemote rName => exact h.removeRemoteLinks rName
  | disconnectVirtual vName => exact h.removeVirtualLinks vName

theorem run (h : p.Consistent) (calls : List Call) : (Patch.run calls p).Consistent := by
  induction calls generalizing p with
  | nil => exact h
  | cons c calls ih => exact ih (h.call c)

end Consistent

/-- Whatever calls an empty patch has gone through, its two maps hold the same
    links, each of them once, and no key is left with an empty list. -/
theorem run_links_agree (calls : List Call) :
    (∀ rName vName,
      vName ∈ ((run calls {}).remoteToVirtual.find? rName).getD [] ↔
        rName ∈ ((run calls {}).virtualToRemote.find? vName).getD []) ∧
    (∀ rName vNames, (run calls {}).remoteToVirtual.find? rName = some vNames →
      vNames.Nodup ∧ vNames ≠ []) ∧
    (∀ vName rNames, (run calls {}).virtualToRemote.find? vName = some rNames →
      rNames.Nodup ∧ rNames ≠ []) := by
  have agree := consistent_empty.run calls
  refine ⟨agree.mem_iff, ?_, ?_⟩
  · intro rName vNames found
    refine ⟨row_of_find? found ▸ agree.tidy.nodup rName, ?_⟩
    rintro rfl
    exact agree.tidy.nonempty rName found
  · intro vName rNames found
    refine ⟨row_of_find? found ▸ agree.tidy'.nodup vName, ?_⟩
    rintro rfl
    exact agree.tidy'.nonempty vName found

example :
    (run [.connect "Remote1" "Group1", .parseArray "Remote2" ["Group1", "Group1"],
      .disconnectRemote "Remote1"] {}).remotesOf "Group1" = ["Remote2"] := by decide

end Patch

end VoxPopuli
