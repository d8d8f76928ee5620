import VoxPopuli.Model.World

/-! # The patch on disk

The JSON of the patch is all that is stored of it. It lists the links by remote, in
the order of the remotes' names, so reading it back gives the same links; the remotes
of a virtual element come back in the order of their names.
-/

namespace VoxPopuli

open Rows

namespace Patch

/-! ## Commands of the console -/

/-- The commands of `execFunction`. -/
inductive ConsoleCall where
  | connect (rName vName : QString)
  | disconnect (rName vName : QString)
  | disconnectRemote (rName : QString)
  | disconnectVirtual (vName : QString)

def ConsoleCall.toCall : ConsoleCall → Call
  | connect rName vName => .connect rName vName
  | disconnect rName vName => .disconnect rName vName
  | disconnectRemote rName => .disconnectRemote rName
  | disconnectVirtual vName => .disconnectVirtual vName

/-- A patch after some commands. -/
def after (commands : List ConsoleCall) (p : Patch) : Patch :=
  run (commands.map ConsoleCall.toCall) p

/-! ## Loading -/

/-- The loop of `populateNode`. A patch accepts no objects, and of the other values
    only arrays have an effect. -/
def populateMembers (p : Patch) : QJsonObject → Bool × Patch
  | [] => (true, p)
  | (k, v) :: rest =>
      match v with
      | .object _ => (false, p)
      | .array a => (p.parseArray k (World.arrayTexts a)).2.populateMembers rest
      | .null | .bool _ | .double _ | .string _ => p.populateMembers rest

/-- `populateNode` of a patch without JSON. -/
def populateNode (p : Patch) (data : QJsonObject) : Bool × Patch :=
  match p.populateMembers data with
  | (true, p) => (true, { p with jsonData := data })
  | (false, p) => (false, p)

/-! ## The JSON lists the links -/

/-- A row as a JSON array. -/
def linkArray (vNames : QStringList) : QJsonValue := .array (vNames.map .string)

/-- The links by remote, as a document. -/
def document (m : SortedMap QString QStringList) : QJsonObject :=
  Assoc.mapValues linkArray m.entries

/-- The JSON is the document of the links. -/
def Persisted (p : Patch) : Prop := p.jsonData = document p.remoteToVirtual

theorem toArray_document (m : SortedMap QString QStringList) (rName : QString) :
    (document m).toArray rName = (row m rName).map .string := by
  unfold QJsonObject.toArray QJsonObject.value document row SortedMap.find?
  rw [Assoc.lookup_mapValues]
  cases Assoc.lookup rName m.entries <;> rfl

theorem insert_document (m : SortedMap QString QStringList) (rName : QString)
    (vNames : QStringList) :
    (document m).insert rName (linkArray vNames) = document (m.insert rName vNames) :=
  Assoc.insert_mapValues linkArray rName vNames m.entries

theorem remove_document (m : SortedMap QString QStringList) (rName : QString) :
    (document m).remove rName = document (m.erase rName) :=
  Assoc.erase_mapValues linkArray rName m.entries

theorem eraseP_map_string (vNames : QStringList) (vName : QString) :
    (vNames.map QJsonValue.string).eraseP (fun v => v.toString = vName) =
      (removeOne vNames vName).map .string := by
  induction vNames with
  | nil => rfl
  | cons v rest ih =>
      by_cases same : v = vName
      · simp [same, removeOne, QJsonValue.toString]
      · have text : (QJsonValue.string v).toString ≠ vName := same
        simpa [text, removeOne, same] using ih

/-- A link leaves the document as it leaves the map. -/
theorem eraseLinkJson_document (m : SortedMap QString QStringList) (rName vName : QString) :
    eraseLinkJson (document m) rName vName = document (unlink m rName vName) := by
  unfold eraseLinkJson unlink
  simp only [toArray_document, eraseP_map_string]
  generalize removeOne (row m rName) vName = rest
  cases rest with
  | nil => exact remove_document m rName
  | cons v rest => exact insert_document m rName (v :: rest)

namespace Persisted

variable {p : Patch}

theorem addLink (h : p.Persisted) (agree : p.Consistent) (rName vName : QString) :
    (p.addLink rName vName).2.Persisted := by
  unfold Patch.addLink
  by_cases old : vName ∈ p.virtualsOf rName
  · rw [addEntry_old old]
    exact h
  · have stored := insert_document p.remoteToVirtual rName (p.virtualsOf rName ++ [vName])
    rw [linkArray, List.map_append] at stored
    simp only [agree.addEntry_new old, Persisted]
    rw [h, toArray_document, ← stored]
    rfl

theorem removeLink (h : p.Persisted) (agree : p.Consistent) (rName vName : QString) :
    (p.removeLink rName vName).2.Persisted := by
  unfold Patch.removeLink
  cases found : p.remoteToVirtual.find? rName with
  | none => exact h
  | some vNames =>
      by_cases linked : vName ∈ vNames
      · have back : rName ∈ p.remotesOf vName :=
          (agree.mem_iff rName vName).mp (by simpa [virtualsOf, row_of_find? found] using linked)
        have row := agree.tidy'.find?_eq_some (List.ne_nil_of_mem back)
        simp only [linked, if_true, row, Persisted]
        rw [h, eraseLinkJson_document]
      · simpa [linked] using h

theorem removeRemoteLinks (h : p.Persisted) (agree : p.Consistent) (rName : QString) :
    (p.removeRemoteLinks rName).2.Persisted := by
  unfold Patch.removeRemoteLinks
  cases p.remoteToVirtual.find? rName with
  | none => exact h
  | some vNames =>
      simp only [Persisted, eraseRemote, foldl_forgetRemote agree.tidy']
      rw [h, remove_document]

theorem forgetVirtual (h : p.Persisted) (vName rName : QString) :
    (p.forgetVirtual vName rName).Persisted := by
  unfold Patch.forgetVirtual
  split
  · exact h
  · split
    · simp only [Persisted]
      rw [h, eraseLinkJson_document]
    · exact h

theorem removeVirtualLinks (h : p.Persisted) (vName : QString) :
    (p.removeVirtualLinks vName).2.Persisted := by
  unfold Patch.removeVirtualLinks
  cases p.virtualToRemote.find? vName with
  | none => exact h
  | some rNames =>
      have loop : ∀ (rNames : QStringList) (p : Patch), p.Persisted →
          (rNames.foldl (fun p rName => p.forgetVirtual vName rName) p).Persisted := by
        intro rNames
        induction rNames with
        | nil => exact fun p h => h
        | cons rName rest ih => exact fun p h => ih _ (h.forgetVirtual vName rName)
      exact loop rNames p h

/-- Step lemma: whether a command succeeds or not, the JSON follows the links. -/
theorem call (h : p.Persisted) (agree : p.Consistent) (c : ConsoleCall) :
    (p.call c.toCall).Persisted := by
  cases c with
  | connect rName vName => exact h.addLink agree rName vName
  | disconnect rName vName => exact h.removeLink agree rName vName
  | disconnectRemote rName => exact h.removeRemoteLinks agree rName
  | disconnectVirtual vName => exact h.removeVirtualLinks vName

/-- Run lemma. -/
theorem after (h : p.Persisted) (agree : p.Consistent) (commands : List ConsoleCall) :
    (Patch.after commands p).Persisted := by
  induction commands generalizing p with
  | nil => exact h
  | cons c commands ih => exact ih (h.call agree c) (agree.call c.toCall)

end Persisted

theorem persisted_empty : Persisted {} := rfl

/-! ## Loading the document -/

/-- A new entry is appended to a row on either side. -/
theorem Consistent.addEntry_rows {p : Patch} (agree : p.Consistent) {rName vName : QString}
    (new : vName ∉ p.virtualsOf rName) :
    ∃ p', p.addEntry rName vName = (true, p') ∧ p'.Consistent ∧
      (∀ r, p'.virtualsOf r =
        if r = rName then p.virtualsOf rName ++ [vName] else p.virtualsOf r) ∧
      ∀ v, p'.remotesOf v = if v = vName then p.remotesOf vName ++ [rName] else p.remotesOf v := by
  have added := agree.addEntry_new new
  refine ⟨_, added, ?_, ?_, ?_⟩
  · simpa only [added] using agree.addEntry rName vName
  · intro r
    by_cases same : r = rName <;> simp [virtualsOf, row, same]
  · intro v
    by_cases same : v = vName <;> simp [remotesOf, row, same]

/-- Entries which are new are all added, in their order. -/
theorem Consistent.parseArray_new {p : Patch} (agree : p.Consistent) {rName : QString}
    {vNames : QStringList} (nodup : vNames.Nodup) (new : ∀ v ∈ vNames, v ∉ p.virtualsOf rName) :
    ∃ p', p.parseArray rName vNames = (true, p') ∧ p'.Consistent ∧
      (∀ r, p'.virtualsOf r =
        if r = rName then p.virtualsOf rName ++ vNames else p.virtualsOf r) ∧
      ∀ v, p'.remotesOf v = if v ∈ vNames then p.remotesOf v ++ [rName] else p.remotesOf v := by
  induction vNames generalizing p with
  | nil => exact ⟨p, rfl, agree, by simp, by simp⟩
  | cons vName rest ih =>
      obtain ⟨fresh, nodup⟩ := List.nodup_cons.mp nodup
      obtain ⟨p₁, added, agree₁, virtuals, remotes⟩ :=
        agree.addEntry_rows (new vName List.mem_cons_self)
      obtain ⟨p', run, agree', virtuals', remotes'⟩ := ih agree₁ nodup (by
        intro v member
        rw [virtuals, if_pos rfl]
        have other : v ≠ vName := fun same => fresh (same ▸ member)
        simpa [other] using new v (List.mem_cons_of_mem _ member))
      refine ⟨p', ?_, agree', ?_, ?_⟩
      · rw [Patch.parseArray, added]
        exact run
      · intro r
        rw [virtuals', virtuals, virtuals]
        by_cases same : r = rName <;> simp [same]
      · intro v
        rw [remotes', remotes]
        by_cases same : v = vName
        · subst same
          simp [fresh]
        · simp [same]

/-- A document whose members are lists of texts, none of them empty and none with a
    text twice. -/
def ProperDocument (data : QJsonObject) : Prop :=
  ∃ m : SortedMap QString QStringList, data = document m ∧ Tidy m

theorem arrayTexts_map_string (vNames : QStringList) :
    World.arrayTexts (vNames.map .string) = vNames := by
  induction vNames with
  | nil => rfl
  | cons v rest ih => exact congrArg (v :: ·) ih

/-- The loop over the members, from a patch which has none of their keys. -/
theorem Consistent.populateMembers {p : Patch} (agree : p.Consistent)
    {es : List (QString × QStringList)} (sorted : Assoc.Sorted es)
    (nodup : ∀ e ∈ es, e.2.Nodup) (new : ∀ e ∈ es, p.virtualsOf e.1 = []) :
    ∃ p', p.populateMembers (Assoc.mapValues linkArray es) = (true, p') ∧ p'.Consistent ∧
      (∀ r, p'.virtualsOf r = p.virtualsOf r ++ (Assoc.lookup r es).getD []) ∧
      ∀ v, p'.remotesOf v = p.remotesOf v ++ holders es v := by
  induction es generalizing p with
  | nil => exact ⟨p, rfl, agree, by simp, by simp [holders]⟩
  | cons e rest ih =>
      obtain ⟨rName, vNames⟩ := e
      obtain ⟨first, sorted⟩ := List.pairwise_cons.mp sorted
      have none := new _ List.mem_cons_self
      obtain ⟨p₁, parsed, agree₁, virtuals, remotes⟩ := agree.parseArray_new
        (nodup (rName, vNames) List.mem_cons_self) (by
          change ∀ vName ∈ vNames, vName ∉ p.virtualsOf rName
          simp [none])
      obtain ⟨p', run, agree', virtuals', remotes'⟩ := ih agree₁ sorted
        (fun e member => nodup e (List.mem_cons_of_mem _ member)) (by
          intro e member
          rw [virtuals, if_neg (first e member).ne']
          exact new e (List.mem_cons_of_mem _ member))
      refine ⟨p', ?_, agree', ?_, ?_⟩
      · simp only [Assoc.mapValues_cons, linkArray, Patch.populateMembers, arrayTexts_map_string,
          parsed]
        exact run
      · intro r
        rw [virtuals', virtuals]
        by_cases same : r = rName
        · subst same
          have absent : Assoc.lookup r rest = Option.none := by
            rw [Assoc.lookup_eq_none_iff]
            exact fun e member => (first e member).ne'
          simp [absent]
        · simp [same, Assoc.lookup]
      · intro v
        rw [remotes', remotes, holders_cons]
        by_cases member : v ∈ vNames <;> simp [member]

/-- A proper document is accepted; the links come back by remote as they stand in it,
    and by virtual element in the order of the remotes. -/
theorem populateNode_document {m : SortedMap QString QStringList} (tidy : Tidy m) :
    ∃ p', Patch.populateNode {} (document m) = (true, p') ∧ p'.Consistent ∧ p'.Persisted ∧
      p'.remoteToVirtual = m ∧ ∀ v, p'.remotesOf v = holders m.entries v := by
  obtain ⟨p', run, agree, virtuals, remotes⟩ := consistent_empty.populateMembers m.sorted (by
    intro e member
    have found := (Assoc.lookup_eq_some_iff m.sorted).mpr member
    rw [← row_of_find? (m := m) found]
    exact tidy.nodup e.1) (fun _ _ => rfl)
  have restored : p'.remoteToVirtual = m := agree.tidy.ext tidy virtuals
  refine ⟨{ p' with jsonData := document m }, ?_, agree, ?_, restored, remotes⟩
  · rw [populateNode]
    unfold document
    rw [run]
  · exact congrArg document restored.symm

/-! ## The round trip -/

/-- Loading the JSON into a fresh patch gives the same two maps. -/
def Restores (p : Patch) : Prop :=
  ∃ p', populateNode {} p.jsonData = (true, p') ∧ p'.remoteToVirtual = p.remoteToVirtual ∧
    p'.virtualToRemote = p.virtualToRemote

/-- The maps of a patch come back from its JSON exactly if the remotes of every virtual
    element are listed in the order of their names. -/
theorem restores_iff (commands : List ConsoleCall) :
    Restores (after commands {}) ↔
      ∀ vName, ((after commands {}).remotesOf vName).Pairwise (· < ·) := by
  have agree := consistent_empty.run (commands.map ConsoleCall.toCall)
  have stored := persisted_empty.after consistent_empty commands
  change (after commands {}).Consistent at agree
  generalize after commands {} = p at agree stored
  obtain ⟨p', run, agree', -, restored, remotes⟩ := populateNode_document agree.tidy
  rw [← stored] at run
  have sorted : ∀ vName, (p'.remotesOf vName).Pairwise (· < ·) := fun vName =>
    (remotes vName).symm ▸ holders_sorted p.remoteToVirtual vName
  constructor
  · rintro ⟨p'', run', -, same⟩ vName
    obtain rfl : p' = p'' := congrArg Prod.snd (run.symm.trans run')
    rw [remotesOf, ← same]
    exact sorted vName
  · intro ordered
    refine ⟨p', run, restored, agree'.tidy'.ext agree.tidy' fun vName => ?_⟩
    have members : (p'.remotesOf vName).Perm (p.remotesOf vName) := by
      have nodup : (p'.remotesOf vName).Nodup := agree'.tidy'.nodup vName
      have nodup' : (p.remotesOf vName).Nodup := agree.tidy'.nodup vName
      rw [List.perm_ext_iff_of_nodup nodup nodup']
      intro rName
      rw [← agree'.mem_iff, ← agree.mem_iff, virtualsOf, restored, virtualsOf]
    apply List.Perm.eq_of_pairwise ?_ (sorted vName) (ordered vName) members
    exact fun a b _ _ below above => absurd above below.asymm

/-- A link to a later remote first: the order of the two remotes is lost. -/
theorem not_restores_later_first :
    ¬Restores (after [.connect "Remote2" "Group1", .connect "Remote1" "Group1"] {}) := by
  rintro ⟨p', run, -, same⟩
  have loaded : (populateNode {} (after [.connect "Remote2" "Group1",
      .connect "Remote1" "Group1"] {}).jsonData).2.remotesOf "Group1" =
      (["Remote1", "Remote2"] : QStringList) := by decide
  rw [run, remotesOf, same] at loaded
  exact absurd loaded (by decide)

end Patch

end VoxPopuli
