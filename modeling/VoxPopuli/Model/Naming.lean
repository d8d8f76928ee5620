import VoxPopuli.Lib.While
import VoxPopuli.Model.Elements

/-! # Names which are made

Three functions look for a number which makes a new name. Their loop has no bound; it ends
because there are only so many names and no two numbers are written the same.
-/

namespace VoxPopuli

/-- A turn of `while(keys.contains(name + nbr)) nbr++`. -/
def nbrTurn (keys : QStringList) (name : QString) : Nat → Nat ⊕ Nat :=
  While.search fun nbr => !(keys.contains (name ++ QString.ofNat nbr))

/-- A name for a child of a container, which is made of a base and the least number, from 1 on,
    for which it is new. -/
structure MadeName (o : QJsonObject) (base name : QString) (n : Nat) : Prop where
  /-- The loop ends with the number. -/
  loop : While.Yields (nbrTurn o.keys base) 1 n
  made : name = base ++ QString.ofNat n
  bound : 1 ≤ n ∧ n ≤ o.keys.length + 1
  least : ∀ m, 1 ≤ m → m < n → base ++ QString.ofNat m ∈ o.keys
  new : name ∉ o.keys
  /-- A child which is inserted replaces none. -/
  replaces : ∀ v, ∀ k ∈ o.keys, (o.insert name v).value k = o.value k

theorem exists_madeName (o : QJsonObject) (base : QString) :
    ∃ n, MadeName o base (freeName o.keys base) n := by
  obtain ⟨n, name, bound, free, least⟩ := freeName_least o.keys base
  have new : freeName o.keys base ∉ o.keys := name ▸ free
  refine ⟨n, ?_, name, bound, least, new, fun v k there => ?_⟩
  · refine While.yields_search bound.1 (by simpa using free) fun m low high => ?_
    simpa using least m low high
  · have other : k ≠ freeName o.keys base := fun same => new (same ▸ there)
    exact QJsonObject.value_insert_of_ne o other v

/-- Whatever the keys of the container are, the loops of the three functions end, and the new
    child gets the name with the least number that is no key yet. -/
theorem automatic_names (w : World) (address : QString) :
    (∃ name n, MadeName (w.json .virtualNet) "Remote" name n ∧
      VirtualNetwork.addRemote w "" =
        if (w.json .virtualNet).contains "" then pure (false, w)
        else (do
          let (_, w) ← VirtualNetwork.createSubNode w name VirtualRemote.createVirtualRemoteJSon
          pure (true, w))) ∧
    (∃ name n, MadeName (w.json .virtualNet) "Group" name n ∧
      VirtualNetwork.addGroup w "" =
        if (w.json .virtualNet).contains "" then pure (false, w)
        else (do
          let (_, w) ← VirtualNetwork.createSubNode w name VirtualGroup.createGroupJSon
          pure (true, w))) ∧
    ∃ name n, MadeName (w.json .remoteList) "Remote" name n ∧
      RemoteList.addRemote w address =
        if w.remotes.any fun r => RemoteList.macOf w r = address then pure (false, w)
        else (do
          let (_, w) ← RemoteList.createSubNode w name (RealRemote.createRealRemoteJSon address)
          pure (true, w)) := by
  obtain ⟨n, remote⟩ := exists_madeName (w.json .virtualNet) "Remote"
  obtain ⟨m, group⟩ := exists_madeName (w.json .virtualNet) "Group"
  obtain ⟨k, real⟩ := exists_madeName (w.json .remoteList) "Remote"
  refine ⟨⟨_, n, remote, ?_⟩, ⟨_, m, group, ?_⟩, ⟨_, k, real, rfl⟩⟩
  · rw [VirtualNetwork.addRemote, if_pos rfl]
  · rw [VirtualNetwork.addGroup, if_pos rfl]

/-- A gap is filled, and foreign names do not matter. -/
example : freeName ["Remote1", "Remote01", "Remote3", "Group2"] "Remote" = "Remote2" := by decide

end VoxPopuli
