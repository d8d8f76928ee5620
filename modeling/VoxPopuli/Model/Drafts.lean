import VoxPopuli.Model.Accepted
import VoxPopuli.Model.Traces

/-! # Groups which are loaded

What a document makes of a group, without the tree around it: whether there is a global
remote, who stands at which place of the list of avatars, under which names the JSON has
something and how many child nodes there are. Of the document only the kinds of its members
matter. Loading a group follows this draft step by step. Where the draft has no next step the
group is led outside its list, or to something which has been deleted.
-/

namespace VoxPopuli

open World

variable {w w' : World}

/-- A number takes its place in the JSON of its node. -/
theorem World.json_setNumber {n : NodeRef} (sorted : Assoc.Sorted (w.json n)) (k : QString)
    (value : ℚ) : (w.setNumber n k value).2.json n = (w.json n).insert k (.double value) := by
  unfold setNumber assign
  split
  · rename_i there
    have found : (w.json n).value k = some (.double value) := by
      unfold World.get at there
      cases stored : (w.json n).value k with
      | none =>
          rw [stored] at there
          cases there
      | some v =>
          rw [stored] at there
          cases v with
          | double d => simpa using there
          | null | bool b | string s | array a | object o => cases there
    exact (Assoc.insert_of_lookup sorted found).symm
  · obtain ⟨json, same, others⟩ := mirror_frame (w.putJson n k (.double value)) n n.ancestors
    dsimp only
    rw [valueChanged, updateParentJSon, same]
    dsimp only
    rw [others _ (not_mem_ancestors _)]
    simp [putJson, setJson]

/-- Storing a number changes nothing but JSON. -/
theorem World.setNumber_frame (w : World) (n : NodeRef) (k : QString) (value : ℚ) :
    ∃ json, (w.setNumber n k value).2 = { w with json := json } := by
  obtain ⟨json, same, -⟩ := w.assign_frame n k _ (.double value)
  exact ⟨json, same⟩

namespace VirtualGroup

variable {g : Nat}

/-! ## Drafts -/

/-- What a member of a document is for a group. -/
inductive Part where
  /-- Nothing that is stored. -/
  | idle
  /-- An object which is refused without a trace. -/
  | refused
  /-- A virtual remote. -/
  | child
  /-- An object which is refused when something of it has been stored, or one with a button which
      goes down. -/
  | fatal
  | avatarsNbr (nbr : Int)

open Classical in
noncomputable def part (accepts : QString → Option Bool) (k : QString) : QJsonValue → Part
  | .object o =>
      if RefusesQuietly accepts k o then .refused
      else if VirtualRemote.Document o ∧ ∀ m ∈ o, ¬VirtualRemote.Pressing m then .child
      else .fatal
  | v =>
      if k = "avatarsNbr" then
        match (VirtualRemote.valueText v).bind QString.toInt? with
        | some nbr => .avatarsNbr nbr
        | none => .idle
      else .idle

/-- The parts of a document. -/
noncomputable def parts (accepts : QString → Option Bool) (data : QJsonObject) :
    List (QString × Part) := data.map fun m => (m.1, part accepts m.1 m.2)

structure Draft where
  globalRemote : Bool := false
  /-- The names in the list of avatars. -/
  virtualRemotes : List (Option QString) := []
  keys : Finset QString := ∅
  subnodes : Nat := 0

namespace Draft

/-- The avatar of a number at its place in the list, which is filled up to it. -/
def place {α : Type} (l : List (Option α)) (id : Int) (a : α) : List (Option α) :=
  (l ++ List.replicate (id.toNat - l.length) none).set (id.toNat - 1) (some a)

def putChild (d : Draft) (name : QString) : Draft :=
  { d with keys := insert name d.keys, subnodes := d.subnodes + 1 }

def addChild (d : Draft) (name : QString) : Option (Bool × Draft) :=
  let d := d.putChild name
  if name.head? = some ('G' : QChar) then some (true, { d with globalRemote := true })
  else
    match QString.toInt? (QString.mid name 6) with
    | none => some (false, d)
    | some id =>
        if 1 ≤ id then some (true, { d with virtualRemotes := place d.virtualRemotes id name })
        else none

def addVirtualRemotes (d : Draft) (nbr : Int) : Nat → Option Draft
  | 0 => some d
  | delta + 1 => do
      let rName : QString := ("Remote" : QString) ++ QString.ofInt (nbr - (delta + 1) + 1)
      let (_, d) ← d.addChild rName
      d.addVirtualRemotes nbr delta

def removeVirtualRemotes (d : Draft) : Nat → Option Draft
  | 0 => some d
  | delta + 1 =>
      match d.virtualRemotes.getLast? with
      | some (some name) =>
          removeVirtualRemotes { d with
            virtualRemotes := d.virtualRemotes.dropLast
            keys := d.keys.erase name
            subnodes := d.subnodes - 1 } delta
      | _ => none

def setVirtualRemotesNbr (d : Draft) (nbr : Int) : Option Draft :=
  let count := d.keys.card
  if count < 3 then some d
  else
    let delta := nbr - count + 3
    if 0 ≤ delta then d.addVirtualRemotes nbr delta.toNat else d.removeVirtualRemotes (-delta).toNat

def setAvatarsNbr (d : Draft) (nbr : Int) : Option Draft := do
  let d ← d.setVirtualRemotesNbr nbr
  some { d with keys := insert ("avatarsNbr" : QString) d.keys }

/-- A member of a document, and whether the group accepts it. -/
def member (d : Draft) (k : QString) : Part → Option (Bool × Draft)
  | .idle => some (true, d)
  | .refused => some (false, d)
  | .child => d.addChild k
  | .fatal => none
  | .avatarsNbr nbr => do
      let d ← d.setAvatarsNbr nbr
      some (true, d)

def members (d : Draft) : List (QString × Part) → Option (Bool × Draft)
  | [] => some (true, d)
  | (k, p) :: rest => do
      let (created, d) ← d.member k p
      if created then d.members rest else some (false, d)

/-- The group can be populated again with its own JSON: there is none, or there are no child
    nodes which have been deleted. -/
def Retries (d : Draft) : Prop := d.keys = ∅ ∨ d.subnodes = 0

/-- The members lead to an end, whether or not all of them are accepted. -/
def Survives : Option (Bool × Draft) → Prop
  | none => False
  | some (true, _) => True
  | some (false, d) => d.Retries

end Draft

/-- A group, as far as a document makes it. -/
def draft (w : World) (g : Nat) : Draft where
  globalRemote := (w.globalRemote g).isSome
  virtualRemotes := (w.virtualRemotes g).map (Option.map w.vRemoteName)
  keys := (w.json (.group g)).keys.toFinset
  subnodes := (w.subnodes (.group g)).length

/-! ## Groups and their drafts -/

/-- What holds of a group while it is loaded: its child nodes are its virtual remotes, an object
    in the JSON is one of them under its name, and every avatar is one of them for itself. -/
structure Loading (w : World) (g : Nat) : Prop where
  sorted : Assoc.Sorted (w.json (.group g))
  values : ∀ k v, (k, v) ∈ w.json (.group g) → v.isObject = false → k = "avatarsNbr"
  nodes : ∀ n ∈ w.subnodes (.group g), ∃ i < w.fresh, n = .vRemote (.member g i)
  named : ∀ k o, (k, .object o) ∈ w.json (.group g) → ∃ v,
    .vRemote v ∈ w.subnodes (.group g) ∧ w.vRemoteName v = k
  seats : ∀ v, (w.virtualRemotes g).count (some v) ≤ (w.subnodes (.group g)).count (.vRemote v)

namespace Loading

variable (h : Loading w g) {v : VRef}

include h

theorem avatar (there : some v ∈ w.virtualRemotes g) : .vRemote v ∈ w.subnodes (.group g) :=
  List.count_pos_iff.mp ((List.count_pos_iff.mpr there).trans_le (h.seats v))

/-- The next virtual remote is another one. -/
theorem ne_next (there : .vRemote v ∈ w.subnodes (.group g)) : v ≠ .member g w.fresh := by
  obtain ⟨i, given, same⟩ := h.nodes _ there
  cases same
  intro same
  cases same
  exact absurd given (Nat.lt_irrefl _)

/-- Everything by which the group is drafted is the same. -/
theorem congr (json : w'.json (.group g) = w.json (.group g))
    (subnodes : w'.subnodes (.group g) = w.subnodes (.group g))
    (virtualRemotes : w'.virtualRemotes g = w.virtualRemotes g)
    (names : ∀ v, .vRemote v ∈ w.subnodes (.group g) → w'.vRemoteName v = w.vRemoteName v)
    (fresh : w.fresh ≤ w'.fresh) : Loading w' g := by
  refine ⟨?_, ?_, ?_, ?_, ?_⟩
  · rw [json]
    exact h.sorted
  · rw [json]
    exact h.values
  · rw [subnodes]
    intro n there
    obtain ⟨i, given, same⟩ := h.nodes n there
    exact ⟨i, given.trans_le fresh, same⟩
  · rw [json, subnodes]
    intro k o there
    obtain ⟨v, listed, called⟩ := h.named k o there
    exact ⟨v, listed, (names v listed).trans called⟩
  · rw [subnodes, virtualRemotes]
    exact h.seats

/-- The names of the avatars are those of child nodes. -/
theorem names_congr {names : VRef → QString}
    (same : ∀ v, .vRemote v ∈ w.subnodes (.group g) → names v = w.vRemoteName v) :
    (w.virtualRemotes g).map (Option.map names) = (draft w g).virtualRemotes := by
  refine List.map_congr_left fun v? there => ?_
  cases v? with
  | none => rfl
  | some v => rw [Option.map_some, Option.map_some, same v (h.avatar there)]

end Loading

/-- The group as the draft has it. -/
structure Drafted (w : World) (g : Nat) (d : Draft) (w' : World) : Prop where
  draft : draft w' g = d
  loading : Loading w' g
  accepts : w'.accepts = w.accepts

theorem Drafted.trans {d d' : Draft} {w'' : World} (h : Drafted w g d w')
    (h' : Drafted w' g d' w'') : Drafted w g d' w'' :=
  ⟨h'.draft, h'.loading, h'.accepts.trans h.accepts⟩

theorem Drafted.refl (h : Loading w g) : Drafted w g (VirtualGroup.draft w g) w := ⟨rfl, h, rfl⟩

/-! ## Children -/

/-- A child which is refused quietly does not appear in the draft. -/
theorem Declined.drafted {name : QString} (declined : Declined w g name w') (h : Loading w g) :
    Drafted w g (draft w g) w' := by
  have untouched := declined.untouched (.inr ⟨g, rfl⟩)
  rcases declined with rfl | ⟨w₁, ⟨T, rfl⟩, rfl⟩
  · exact .refl h
  · have names : ∀ v, .vRemote v ∈ w.subnodes (.group g) →
        Function.update w.vRemoteName (.member g w.fresh) name v = w.vRemoteName v :=
      fun v there => Function.update_of_ne (h.ne_next there) _ _
    refine ⟨?_, h.congr untouched.json untouched.subnodes untouched.lists.2 names
      (Nat.le_succ w.fresh), rfl⟩
    have avatars := h.names_congr names
    rw [draft, untouched.json, untouched.subnodes, untouched.lists.1, untouched.lists.2]
    exact congrArg (fun l => { draft w g with virtualRemotes := l }) avatars

/-- The JSON of a group has got a member. -/
theorem keys_insert (o : QJsonObject) (k : QString) (v : QJsonValue) :
    (o.insert k v).keys.toFinset = insert k o.keys.toFinset := by
  ext k'
  rw [List.mem_toFinset, Finset.mem_insert, List.mem_toFinset, ← QJsonObject.contains_iff,
    ← QJsonObject.contains_iff]
  by_cases same : k' = k
  · simp [same, QJsonObject.contains]
  · simp [same, QJsonObject.contains]

theorem keys_remove (o : QJsonObject) (k : QString) :
    (o.remove k).keys.toFinset = o.keys.toFinset.erase k := by
  ext k'
  rw [List.mem_toFinset, Finset.mem_erase, List.mem_toFinset, ← QJsonObject.contains_iff,
    ← QJsonObject.contains_iff]
  by_cases same : k' = k
  · simp [same, QJsonObject.contains]
  · simp [same, QJsonObject.contains]

/-- The member of a virtual remote which has been populated is in the JSON of the group, even if
    it has not been written. -/
theorem child_json {name : QString}
    (growing : VirtualRemote.Growing (VirtualRemote.create w (.member g w.fresh) name)
      (.member g w.fresh) w')
    (listed : VirtualRemote.Listed (VirtualRemote.create w (.member g w.fresh) name)
      (.member g w.fresh) w') :
    w'.json (.group g) = w.json (.group g) ∧ (w.json (.group g)).contains name ∨
      ∃ o, w'.json (.group g) = (w.json (.group g)).insert name (.object o) := by
  have called : (VirtualRemote.create w (.member g w.fresh) name).vRemoteName
      (.member g w.fresh) = name := Function.update_self _ _ _
  rcases growing.parent with same | ⟨o, -, same⟩
  · have entry := listed.entry
    have same : w'.json (.group g) = w.json (.group g) := same
    rw [growing.name.trans called] at entry
    exact .inl ⟨same, same ▸ entry⟩
  · rw [called] at same
    exact .inr ⟨o, same⟩

/-- A virtual remote which has been populated is a child node, before it gets a place. -/
theorem child_drafts (h : Loading w g) {name : QString}
    (growing : VirtualRemote.Growing (VirtualRemote.create w (.member g w.fresh) name)
      (.member g w.fresh) w')
    (listed : VirtualRemote.Listed (VirtualRemote.create w (.member g w.fresh) name)
      (.member g w.fresh) w') :
    Drafted w g ((draft w g).putChild name) w' ∧ w'.vRemoteName (.member g w.fresh) = name ∧
      (w'.virtualRemotes g).count (some (.member g w.fresh)) <
        (w'.subnodes (.group g)).count (.vRemote (.member g w.fresh)) := by
  let v := VRef.member g w.fresh
  have own : w'.vRemoteName v = name := growing.name.trans (Function.update_self _ _ _)
  have names : ∀ v', .vRemote v' ∈ w.subnodes (.group g) → w'.vRemoteName v' = w.vRemoteName v' := by
    intro v' there
    rw [growing.elements.vRemoteName]
    exact Function.update_of_ne (h.ne_next there) _ _
  have virtualRemotes : w'.virtualRemotes = w.virtualRemotes := growing.elements.virtualRemotes
  have globalRemote : w'.globalRemote = w.globalRemote := growing.elements.globalRemote
  have fresh : w'.fresh = w.fresh + 1 := growing.elements.fresh
  have subnodes : w'.subnodes (.group g) = w.subnodes (.group g) ++ [.vRemote v] := listed.own
  have json := child_json growing listed
  refine ⟨⟨?_, ⟨?_, ?_, ?_, ?_, ?_⟩, growing.accepts⟩, own, ?_⟩
  · have keys : (w'.json (.group g)).keys.toFinset =
        insert name (w.json (.group g)).keys.toFinset := by
      rcases json with ⟨same, there⟩ | ⟨o, same⟩
      · rw [same, Finset.insert_eq_of_mem]
        exact List.mem_toFinset.mpr (QJsonObject.contains_iff.mp there)
      · rw [same, keys_insert]
    rw [draft, globalRemote, virtualRemotes, h.names_congr names, keys, subnodes,
      List.length_append, List.length_singleton]
    rfl
  · rcases json with ⟨same, -⟩ | ⟨o, same⟩
    · exact same ▸ h.sorted
    · exact same ▸ Assoc.insert_sorted _ _ h.sorted
  · intro k x there plain
    rcases json with ⟨same, -⟩ | ⟨o, same⟩
    · exact h.values k x (same ▸ there) plain
    · rcases Assoc.mem_insert (same ▸ there) with new | old
      · cases new
        cases plain
      · exact h.values k x old plain
  · rw [subnodes]
    intro n there
    rcases List.mem_append.mp there with old | new
    · obtain ⟨i, given, same⟩ := h.nodes n old
      exact ⟨i, by omega, same⟩
    · exact ⟨w.fresh, by omega, List.mem_singleton.mp new⟩
  · rw [subnodes]
    intro k o there
    have old : (k, .object o) ∈ w.json (.group g) → ∃ v', NodeRef.vRemote v' ∈
        w.subnodes (.group g) ++ [.vRemote v] ∧ w'.vRemoteName v' = k := by
      intro there
      obtain ⟨v', inside, called⟩ := h.named k o there
      exact ⟨v', List.mem_append_left _ inside, (names v' inside).trans called⟩
    rcases json with ⟨same, -⟩ | ⟨o', same⟩
    · exact old (same ▸ there)
    · rcases Assoc.mem_insert (same ▸ there) with new | there
      · cases new
        exact ⟨v, List.mem_append_right _ (List.mem_singleton_self _), own⟩
      · exact old there
  · intro v'
    rw [subnodes, virtualRemotes, List.count_append]
    exact (h.seats v').trans (Nat.le_add_right _ _)
  · rw [subnodes, virtualRemotes, List.count_append, List.count_singleton_self]
    exact Nat.lt_succ_of_le (h.seats v)

/-- What becomes of a virtual remote which is there already changes neither the child nodes nor
    the JSON of the group. -/
theorem Loading.seatGlobal (h : Loading w g) (v : VRef) :
    Drafted w g { draft w g with globalRemote := true }
      { w with globalRemote := Function.update w.globalRemote g (some v) } :=
  ⟨by simp [draft], h.congr rfl rfl rfl (fun _ _ => rfl) le_rfl, rfl⟩

/-- The last virtual remote is deleted, and still listed. -/
theorem Loading.clear (h : Loading w g) (v : VRef) :
    Drafted w g (draft w g) (w.clearJsonData (.vRemote v)) := by
  have json : (w.clearJsonData (.vRemote v)).json (.group g) = w.json (.group g) :=
    json_clearJsonData (by simp)
  have subnodes : (w.clearJsonData (.vRemote v)).subnodes (.group g) = w.subnodes (.group g) :=
    subnodes_clearJsonData (by simp)
  refine ⟨?_, h.congr json subnodes rfl (fun _ _ => rfl) le_rfl, rfl⟩
  rw [draft, json, subnodes]
  rfl

/-- Only the avatar itself is more often in the list after it has got its place. -/
theorem count_place (l : List (Option VRef)) (id : Int) (v v' : VRef) :
    (Draft.place l id v').count (some v) ≤ l.count (some v) + if v' = v then 1 else 0 := by
  have gaps : (l ++ List.replicate (id.toNat - l.length) none).count (some v) = l.count (some v) := by
    simp [List.count_append, List.count_replicate]
  rw [Draft.place, ← gaps]
  by_cases inside : id.toNat - 1 < (l ++ List.replicate (id.toNat - l.length) none).length
  · rw [List.count_set inside]
    simp only [Option.some_beq_some, beq_iff_eq]
    omega
  · rw [List.set_eq_of_length_le (not_lt.mp inside)]
    exact Nat.le_add_right _ _

/-- A virtual remote becomes the avatar of a number, which counts from 1. -/
theorem setVirtualRemote_drafted (h : Loading w g) {v : VRef}
    (unseated : (w.virtualRemotes g).count (some v) < (w.subnodes (.group g)).count (.vRemote v))
    (id : Int) :
    Ends (fun _ => ¬1 ≤ id) (setVirtualRemote w g id v) fun w' => 1 ≤ id ∧
      Drafted w g { draft w g with
        virtualRemotes := Draft.place (draft w g).virtualRemotes id (w.vRemoteName v) } w' := by
  unfold setVirtualRemote
  by_cases counted : 1 ≤ id
  · rw [if_pos counted]
    refine ⟨counted, ?_, ⟨h.sorted, h.values, h.nodes, h.named, fun v' => ?_⟩, rfl⟩
    · simp only [draft, Function.update_self, Draft.place, List.map_set, List.map_append,
        List.map_replicate, Option.map_none, Option.map_some, List.length_map]
    · dsimp only
      rw [Function.update_self]
      refine (count_place (w.virtualRemotes g) id v' v).trans ?_
      split
      · rename_i same
        subst same
        exact unseated
      · exact h.seats v'
  · rw [if_neg counted]
    exact counted

/-- A virtual remote whose document it accepts. -/
theorem createSubNode_child (h : Loading w g) {name : QString} {data : QJsonObject}
    (visible : ¬RefusesQuietly w.accepts name data) (doc : VirtualRemote.Document data)
    (calm : ∀ m ∈ data, ¬VirtualRemote.Pressing m) :
    Ends (fun f => f = .deadlock ∨ (draft w g).addChild name = none) (createSubNode w g name data)
      fun q => ∃ d, (draft w g).addChild name = some (q.1, d) ∧ Drafted w g d q.2 := by
  obtain ⟨named, solid, loud⟩ : (name = "GlobalRemote" ∨ ("Remote" : QString) <+: name) ∧
      (' ' : QChar) ∉ name ∧ ¬(VirtualRemote.storing w.accepts true).RefusedQuietly data :=
    ⟨not_not.mp fun other => visible (.inl other), fun space => visible (.inr (.inl space)),
      fun silent => visible (.inr (.inr silent))⟩
  let v := VRef.member g w.fresh
  let w₀ := VirtualRemote.create w v name
  have own : w₀.vRemoteName v = name := Function.update_self _ _ _
  have outcome := VirtualRemote.populate_outcome (VirtualRemote.fresh_create (w := w) v name) data
  have grown := VirtualRemote.populateNode_growing (VirtualRemote.growing_create w v name)
    (own.symm ▸ solid) doc calm
  rw [createSubNode, if_pos named]
  have populated := (grown.mono fun _ _ => trivial).join (grown.of_any.and outcome)
  apply (populated.mono_err fun f => .inl).bind
  rintro ⟨accepted, w₁⟩ ⟨⟨done, growing⟩, ⟨space, -⟩ | ⟨-, ⟨silent, -⟩ | ⟨-, listed⟩⟩⟩
  · exact absurd (own ▸ space) solid
  · exact absurd silent loud
  · cases done
    obtain ⟨put, called, unseated⟩ := child_drafts h growing listed
    dsimp only
    rw [Draft.addChild]
    simp only [Bool.not_true, Bool.false_eq_true, if_false]
    split
    · have seated := put.loading.seatGlobal v
      rw [put.draft] at seated
      exact ⟨_, rfl, put.trans seated⟩
    · cases parsed : QString.toInt? (QString.mid name 6) with
      | none =>
          have cleared := put.loading.clear v
          rw [put.draft] at cleared
          exact ⟨_, rfl, put.trans cleared⟩
      | some id =>
          have placed := setVirtualRemote_drafted put.loading unseated id
          rw [put.draft, called] at placed
          dsimp only
          apply (placed.mono_err fun f low => .inr (if_neg low)).bind
          rintro w₂ ⟨counted, seated⟩
          rw [if_pos counted]
          exact ⟨_, rfl, put.trans seated⟩

/-- After a document like that there is no way back: the group lists a deleted child and has JSON
    of it. -/
structure Stuck (w : World) (g : Nat) : Prop where
  json : w.json (.group g) ≠ []
  subnodes : w.subnodes (.group g) ≠ []

/-- A virtual remote which does not accept its document, but has stored something of it. -/
theorem createSubNode_fatal {name : QString} {data : QJsonObject}
    (visible : ¬RefusesQuietly w.accepts name data)
    (fatal : ¬(VirtualRemote.Document data ∧ ∀ m ∈ data, ¬VirtualRemote.Pressing m)) :
    Ends (fun _ => True) (createSubNode w g name data) fun q => q.1 = false ∧ Stuck q.2 g := by
  have outcome := createSubNode_outcome w g name data
  have refused : Ends (fun _ => True) (createSubNode w g name data) fun q => q.1 = false := by
    let v := VRef.member g w.fresh
    let w₀ := VirtualRemote.create w v name
    have own : w₀.vRemoteName v = name := Function.update_self _ _ _
    have solid : (' ' : QChar) ∉ w₀.vRemoteName v := fun space =>
      visible (.inr (.inl (own ▸ space)))
    have first : Ends (fun _ => True) (populateNode (VirtualRemote.nodeClass v) w₀ (.vRemote v) data)
        fun q => q.1 = false := by
      by_cases doc : VirtualRemote.Document data
      · have pressing : ∃ m ∈ data, VirtualRemote.Pressing m := by
          simpa [doc] using fatal
        exact (VirtualRemote.populateNode_pressing (VirtualRemote.growing_create w v name) solid doc
          pressing).mono fun _ => False.elim
      · refine (VirtualRemote.populateNode_document w₀ v data).mono fun q accepted => ?_
        exact Bool.eq_false_iff.mpr fun done => doc (accepted done)
    rw [createSubNode]
    split
    · apply first.bind
      rintro ⟨accepted, w₁⟩ done
      cases done
      exact rfl
    · exact rfl
  apply (refused.and outcome).mono
  rintro q ⟨done, ⟨quiet, -⟩ | ⟨-, subnodes, filled⟩⟩
  · exact absurd quiet visible
  · refine ⟨done, filled.json, ?_⟩
    rw [subnodes]
    simp

/-! ## Avatars -/

/-- The JSON with which an avatar is created. -/
def avatarJson : QJsonObject := VirtualRemote.createVirtualRemoteJSon.insert "remoteID" (.double (-1))

theorem document_avatarJson : VirtualRemote.Document avatarJson :=
  VirtualRemote.document_createVirtualRemoteJSon.insert "remoteID" (-1)

theorem calm_avatarJson : ∀ m ∈ avatarJson, ¬VirtualRemote.Pressing m := by
  have buttons : ∀ m ∈ avatarJson, m.1 ∈ (["Up", "Down", "Left", "Right", "Action"] : QStringList) →
      VirtualRemote.valueText m.2 ≠ some ("down" : QString) := by decide
  rintro m there ⟨text, read, button, rfl⟩
  exact buttons m there button read

/-- A document which a virtual remote accepts is not refused quietly. -/
theorem not_refusedQuietly {accepts : QString → Option Bool} {o : QJsonObject}
    (doc : VirtualRemote.Document o) : ¬(VirtualRemote.storing accepts true).RefusedQuietly o := by
  have loud : ∀ o : QJsonObject, VirtualRemote.Document o → (∃ m ∈ o, m.2.isObject) →
      ¬(VirtualRemote.storing accepts true).Quiet () o := by
    intro o
    induction o with
    | nil => rintro - ⟨m, there, -⟩; cases there
    | cons e rest ih =>
        obtain ⟨k, v⟩ := e
        rintro doc ⟨m, there, object⟩ ⟨silent, next⟩
        cases v with
        | object o =>
            obtain ⟨isEvent, plain⟩ := doc k o List.mem_cons_self
            refine silent ⟨isEvent, ?_⟩
            rintro ⟨-, ⟨k', v'⟩, there', object'⟩
            cases v' with
            | object o' => exact plain k' o' there'
            | null | bool b | string s | double d | array a => cases object'
        | null | bool b | string s | double d | array a =>
            have rest_doc : VirtualRemote.Document rest :=
              fun k o there => doc k o (List.mem_cons_of_mem _ there)
            have quiet := next.resolve_left (by simp [QJsonValue.isObject])
            rcases List.mem_cons.mp there with rfl | there
            · cases object
            · exact ih rest_doc ⟨m, there, object⟩ quiet
  exact fun quiet => loud o doc quiet.2 quiet.1

theorem solid_ofInt (n : Int) : (' ' : QChar) ∉ QString.ofInt n := by
  cases n with
  | ofNat n => exact solid_ofNat n
  | negSucc n =>
      rw [QString.ofInt, List.mem_cons, not_or]
      exact ⟨by decide, solid_ofNat _⟩


theorem visible_avatar {accepts : QString → Option Bool} {name : QString}
    (named : ("Remote" : QString) <+: name) (solid : (' ' : QChar) ∉ name) :
    ¬RefusesQuietly accepts name avatarJson := by
  rintro (other | space | quiet)
  · exact other (.inr named)
  · exact solid space
  · exact not_refusedQuietly document_avatarJson quiet

theorem addVirtualRemotes_drafted (h : Loading w g) (nbr : Int) (delta : Nat) :
    Ends (fun f => f = .deadlock ∨ (draft w g).addVirtualRemotes nbr delta = none)
      (addVirtualRemotes w g nbr delta) fun w' =>
        ∃ d, (draft w g).addVirtualRemotes nbr delta = some d ∧ Drafted w g d w' := by
  induction delta generalizing w with
  | zero => exact ⟨_, rfl, .refl h⟩
  | succ delta ih =>
      let rName : QString := ("Remote" : QString) ++ QString.ofInt (nbr - (delta + 1) + 1)
      have solid : (' ' : QChar) ∉ rName := fun space =>
        (List.mem_append.mp space).elim (by decide) (solid_ofInt _)
      have created := createSubNode_child h (visible_avatar (List.prefix_append _ _) solid)
        document_avatarJson calm_avatarJson
      rw [addVirtualRemotes, Draft.addVirtualRemotes]
      apply (created.mono_err fun f => Or.imp_right fun stuck => ?_).bind
      · rintro ⟨b, w₁⟩ ⟨d, next, drafted⟩
        have later := ih drafted.loading
        rw [drafted.draft] at later
        have whole : ((draft w g).addChild rName >>= fun q => q.2.addVirtualRemotes nbr delta) =
            d.addVirtualRemotes nbr delta := by rw [next]; rfl
        apply (later.mono_err fun f => Or.imp_right whole.trans).mono
        rintro w₂ ⟨d₂, last, more⟩
        exact ⟨d₂, whole.trans last, drafted.trans more⟩
      · rw [stuck]
        rfl

/-- The last avatar leaves the list and the child nodes alike. -/
theorem Loading.seats_dropLast (h : Loading w g) {v : VRef}
    (last : (w.virtualRemotes g).getLast? = some (some v)) (v' : VRef) :
    (w.virtualRemotes g).dropLast.count (some v') ≤
      ((w.subnodes (.group g)).erase (.vRemote v)).count (.vRemote v') := by
  have seats := h.seats v'
  rw [← List.dropLast_append_getLast? _ last, List.count_append] at seats
  rw [List.count_erase]
  by_cases same : v' = v
  · subst same
    simp only [List.count_singleton_self] at seats
    simp only [beq_self_eq_true, if_true]
    omega
  · have differ : (NodeRef.vRemote v == NodeRef.vRemote v') = false := by
      simpa using Ne.symm same
    rw [differ]
    simp only [Bool.false_eq_true, if_false]
    omega

/-- The last avatar is taken away. -/
theorem removeSubNode_drafted (h : Loading w g) {v : VRef}
    (last : (w.virtualRemotes g).getLast? = some (some v)) :
    Drafted w g { draft w g with
        virtualRemotes := (draft w g).virtualRemotes.dropLast
        keys := (draft w g).keys.erase (w.vRemoteName v)
        subnodes := (draft w g).subnodes - 1 }
      { w.removeSubNode (.group g) (.vRemote v) with
        virtualRemotes := Function.update (w.removeSubNode (.group g) (.vRemote v)).virtualRemotes g
          ((w.removeSubNode (.group g) (.vRemote v)).virtualRemotes g).dropLast } := by
  obtain ⟨json, removed, own, -⟩ := removeSubNode_frame w (.group g) (.vRemote v)
  have without : json (.group g) = (w.json (.group g)).remove (w.vRemoteName v) := own
  have listed : .vRemote v ∈ w.subnodes (.group g) := h.avatar (List.mem_of_getLast? last)
  have fewer : ∀ e ∈ json (.group g), e ∈ w.json (.group g) ∧ e.1 ≠ w.vRemoteName v := by
    intro e there
    rw [without] at there
    obtain ⟨old, other⟩ := List.mem_filter.mp there
    exact ⟨old, by simpa using other⟩
  rw [removed]
  refine ⟨?_, ⟨?_, fun k x there => h.values k x (fewer _ there).1, ?_, ?_, ?_⟩, rfl⟩
  · simp only [draft, Function.update_self, without, keys_remove, List.map_dropLast,
      List.length_erase_of_mem listed]
  · dsimp only
    exact without ▸ Assoc.erase_sorted _ h.sorted
  · dsimp only
    rw [Function.update_self]
    exact fun n there => h.nodes n (List.mem_of_mem_erase there)
  · dsimp only
    rw [Function.update_self]
    intro k o there
    obtain ⟨old, other⟩ := fewer _ there
    obtain ⟨v', inside, called⟩ := h.named k o old
    have differ : NodeRef.vRemote v' ≠ .vRemote v := by
      intro same
      cases same
      exact other called.symm
    exact ⟨v', (List.mem_erase_of_ne differ).mpr inside, called⟩
  · dsimp only
    rw [Function.update_self, Function.update_self]
    exact h.seats_dropLast last

theorem removeVirtualRemotes_drafted (h : Loading w g) (delta : Nat) :
    Ends (fun _ => (draft w g).removeVirtualRemotes delta = none) (removeVirtualRemotes w g delta)
      fun w' => ∃ d, (draft w g).removeVirtualRemotes delta = some d ∧ Drafted w g d w' := by
  induction delta generalizing w with
  | zero => exact ⟨_, rfl, .refl h⟩
  | succ delta ih =>
      have last : (draft w g).virtualRemotes.getLast? =
          (w.virtualRemotes g).getLast?.map (Option.map w.vRemoteName) := List.getLast?_map
      rw [removeVirtualRemotes, Draft.removeVirtualRemotes, last]
      cases found : (w.virtualRemotes g).getLast? with
      | none => exact rfl
      | some v? =>
          cases v? with
          | none => exact rfl
          | some v =>
              have drafted := removeSubNode_drafted h found
              have later := ih drafted.loading
              rw [drafted.draft] at later
              apply later.mono
              rintro w₂ ⟨d₂, next, more⟩
              exact ⟨d₂, next, drafted.trans more⟩

theorem setVirtualRemotesNbr_drafted (h : Loading w g) (nbr : Int) :
    Ends (fun f => f = .deadlock ∨ (draft w g).setVirtualRemotesNbr nbr = none)
      (setVirtualRemotesNbr w g nbr) fun w' =>
        ∃ d, (draft w g).setVirtualRemotesNbr nbr = some d ∧ Drafted w g d w' := by
  have count : (draft w g).keys.card = (w.json (.group g)).length :=
    (List.toFinset_card_of_nodup (QJsonObject.nodup_keys h.sorted)).trans (List.length_map _)
  rw [setVirtualRemotesNbr, Draft.setVirtualRemotesNbr, count]
  dsimp only
  split
  · exact ⟨_, rfl, .refl h⟩
  · split
    · exact addVirtualRemotes_drafted h nbr _
    · exact (removeVirtualRemotes_drafted h _).mono_err fun _ => .inr

/-- The number of avatars is stored in the JSON. -/
theorem setNumber_drafted (h : Loading w g) (nbr : Int) :
    Drafted w g { draft w g with keys := insert ("avatarsNbr" : QString) (draft w g).keys }
      (w.setNumber (.group g) "avatarsNbr" nbr).2 := by
  have written := World.json_setNumber h.sorted "avatarsNbr" nbr
  obtain ⟨json, same⟩ := w.setNumber_frame (.group g) "avatarsNbr" nbr
  rw [same] at written ⊢
  have own : json (.group g) = (w.json (.group g)).insert "avatarsNbr" (.double nbr) := written
  refine ⟨?_, ⟨?_, ?_, h.nodes, ?_, h.seats⟩, rfl⟩
  · simp only [draft, own, keys_insert]
  · dsimp only
    exact own ▸ Assoc.insert_sorted _ _ h.sorted
  · dsimp only
    rw [own]
    intro k v there plain
    rcases Assoc.mem_insert there with new | old
    · cases new
      rfl
    · exact h.values k v old plain
  · dsimp only
    rw [own]
    intro k o there
    rcases Assoc.mem_insert there with new | old
    · cases new
    · exact h.named k o old

theorem setAvatarsNbr_drafted (h : Loading w g) {text : QString} {nbr : Int}
    (read : text.toInt? = some nbr) :
    Ends (fun f => f = .deadlock ∨ (draft w g).setAvatarsNbr nbr = none)
      (setValue w g "avatarsNbr" text) fun q =>
        ∃ d, (draft w g).setAvatarsNbr nbr = some d ∧ Drafted w g d q.2 := by
  rw [setValue, if_pos rfl, read, Draft.setAvatarsNbr]
  apply ((setVirtualRemotesNbr_drafted h nbr).mono_err fun f => Or.imp_right fun stuck => ?_).bind
  · rintro w₁ ⟨d, next, drafted⟩
    have numbered := setNumber_drafted drafted.loading nbr
    rw [drafted.draft] at numbered
    exact ⟨_, by rw [next]; rfl, drafted.trans numbered⟩
  · rw [stuck]
    rfl

/-! ## Whole documents -/

/-- A value is for the group what its text is. -/
theorem part_value (accepts : QString → Option Bool) (k : QString) {v : QJsonValue}
    {text : QString} (read : VirtualRemote.valueText v = some text) (plain : v.isObject = false) :
    part accepts k v =
      if k = "avatarsNbr" then
        match text.toInt? with
        | some nbr => .avatarsNbr nbr
        | none => .idle
      else .idle := by
  cases v with
  | object o => cases plain
  | null | array a => cases read
  | bool b | string s | double d =>
      cases read
      rfl

theorem value_drafted (h : Loading w g) (k : QString) {v : QJsonValue} {text : QString}
    (read : VirtualRemote.valueText v = some text) (plain : v.isObject = false) :
    Ends (fun f => f = .deadlock ∨ (draft w g).member k (part w.accepts k v) = none)
      (setValue w g k text >>= fun q => pure (true, q.2)) fun q =>
        ∃ d, (draft w g).member k (part w.accepts k v) = some (q.1, d) ∧ Drafted w g d q.2 := by
  rw [part_value w.accepts k read plain]
  split
  · rename_i number
    subst number
    cases parsed : text.toInt? with
    | none =>
        rw [setValue, if_pos rfl, parsed]
        exact ⟨_, rfl, .refl h⟩
    | some nbr =>
        dsimp only [Draft.member]
        apply ((setAvatarsNbr_drafted h parsed).mono_err fun f => Or.imp_right fun stuck => ?_).bind
        · rintro q ⟨d, next, drafted⟩
          exact ⟨d, by rw [next]; rfl, drafted⟩
        · rw [stuck]
          rfl
  · rename_i other
    rw [setValue, if_neg other]
    exact ⟨_, rfl, .refl h⟩

/-- A member of a document does to the group what its part does to the draft. -/
theorem member_drafted (h : Loading w g) (k : QString) (v : QJsonValue) :
    Ends (fun f => f = .deadlock ∨ (draft w g).member k (part w.accepts k v) = none)
      (populateMember (nodeClass g) w (k, v)) fun q =>
        (∃ d, (draft w g).member k (part w.accepts k v) = some (q.1, d) ∧ Drafted w g d q.2) ∨
          (draft w g).member k (part w.accepts k v) = none ∧ q.1 = false ∧ Stuck q.2 g := by
  have same : Drafted w g (draft w g) w := .refl h
  cases v with
  | object o =>
      dsimp only [part]
      split
      · rename_i quiet
        apply ((refuses quiet).mono_err fun _ => False.elim).mono
        rintro ⟨b, w₁⟩ ⟨done, declined⟩
        cases done
        exact .inl ⟨_, rfl, declined.drafted h⟩
      · rename_i visible
        split
        · rename_i accepted
          exact (createSubNode_child h visible accepted.1 accepted.2).mono fun _ => .inl
        · rename_i fatal
          have stuck := createSubNode_fatal (g := g) visible fatal
          exact (stuck.mono_err fun _ _ => .inr rfl).mono fun q done => .inr ⟨rfl, done⟩
  | null | array a =>
      refine .inl ⟨draft w g, ?_, same⟩
      simp [part, VirtualRemote.valueText, Draft.member]
  | bool b => exact (value_drafted h k (v := .bool b) rfl rfl).mono fun _ => .inl
  | string s => exact (value_drafted h k (v := .string s) rfl rfl).mono fun _ => .inl
  | double d => exact (value_drafted h k (v := .double d) rfl rfl).mono fun _ => .inl

/-- With a deleted child node in its list the group is not populated again. -/
theorem Stuck.repopulate (stuck : Stuck w g) (depth : Nat) :
    World.repopulate (nodeClass g) (.group g) depth w = .error .useAfterFree := by
  have filled : ¬(w.jsonOf (.group g)).isEmpty := fun empty => stuck.json (List.isEmpty_iff.mp empty)
  cases depth <;> rw [World.repopulate, if_neg filled, if_pos stuck.subnodes] <;> rfl

/-- Without child nodes there is at most the number of avatars in the JSON. -/
theorem Loading.number (h : Loading w g) (bare : w.subnodes (.group g) = [])
    (filled : w.json (.group g) ≠ []) :
    ∃ v : QJsonValue, w.json (.group g) = [(("avatarsNbr" : QString), v)] ∧ v.isObject = false := by
  have numbers : ∀ m ∈ w.json (.group g), m.1 = "avatarsNbr" ∧ m.2.isObject = false := by
    rintro ⟨k, v⟩ there
    cases v with
    | object o =>
        obtain ⟨v', listed, -⟩ := h.named k o there
        rw [bare] at listed
        cases listed
    | null | bool b | string s | double d | array a => exact ⟨h.values k _ there rfl, rfl⟩
  have sorted := h.sorted
  revert numbers sorted filled
  generalize w.json (.group g) = o
  intro filled numbers sorted
  match o with
  | [] => exact absurd rfl filled
  | [(k, v)] =>
      obtain ⟨key, plain⟩ := numbers (k, v) List.mem_cons_self
      cases key
      exact ⟨v, rfl, plain⟩
  | m :: m' :: rest =>
      have below := (List.pairwise_cons.mp sorted).1 m' List.mem_cons_self
      have first := (numbers m List.mem_cons_self).1
      have second := (numbers m' (List.mem_cons_of_mem _ List.mem_cons_self)).1
      rw [first, second] at below
      exact absurd below (lt_irrefl _)

/-- A group with nothing but a number in its JSON takes that number. -/
theorem populateMember_number {v : QJsonValue}
    (json : w.json (.group g) = [(("avatarsNbr" : QString), v)]) (plain : v.isObject = false) :
    Ends (fun _ => False) (populateMember (nodeClass g) w ("avatarsNbr", v)) fun q =>
      q.1 = true ∧ (q.2.json (.group g)).length = 1 := by
  have value : ∀ text, Ends (fun _ => False) (setValue w g "avatarsNbr" text >>= fun q =>
      pure (true, q.2)) fun q => q.1 = true ∧ (q.2.json (.group g)).length = 1 := by
    intro text
    rw [setValue, if_pos rfl]
    cases text.toInt? with
    | none => exact ⟨rfl, congrArg List.length json⟩
    | some nbr =>
        have few : setVirtualRemotesNbr w g nbr = .ok w := by
          rw [setVirtualRemotesNbr, json]
          rfl
        have sorted : Assoc.Sorted (w.json (.group g)) := by
          rw [json]
          exact List.pairwise_singleton _ _
        have written := World.json_setNumber sorted "avatarsNbr" nbr
        rw [json] at written
        dsimp only
        rw [few]
        exact ⟨rfl, congrArg List.length written⟩
  cases v with
  | object o => cases plain
  | null | array a => exact ⟨rfl, congrArg List.length json⟩
  | bool b => exact value _
  | string s => exact value _
  | double d => exact value _

/-- Where the draft allows it, populating the group again does no harm. -/
theorem repopulate_retries (h : Loading w g) (retries : (draft w g).Retries) :
    Ends (fun _ => False) (World.repopulate (nodeClass g) (.group g) stackDepth w) fun _ => True := by
  have own : w.jsonOf (.group g) = w.json (.group g) := rfl
  rw [stackDepth, World.repopulate, own]
  split
  · trivial
  rename_i some
  have filled : w.json (.group g) ≠ [] := fun empty => some (List.isEmpty_iff.mpr empty)
  have bare : w.subnodes (.group g) = [] := by
    rcases retries with empty | bare
    · rw [draft, List.toFinset_eq_empty_iff, QJsonObject.keys, List.map_eq_nil_iff] at empty
      exact absurd empty filled
    · exact List.length_eq_zero_iff.mp bare
  obtain ⟨v, json, plain⟩ := h.number bare filled
  rw [if_neg (not_not.mpr bare), json, List.length_singleton, populateOwn, own, json]
  have once : ∀ refused, Ends (fun _ => False) (populateMembers (nodeClass g) refused w
      [(("avatarsNbr" : QString), v)]) fun q => q.1 = true ∧ (q.2.json (.group g)).length = 1 := by
    intro refused
    rw [populateMembers_cons]
    apply (populateMember_number json plain).bind
    rintro ⟨created, w₁⟩ ⟨done, single⟩
    cases done
    exact ⟨rfl, single⟩
  refine Ends.bind (M := fun _ => True) ?_ ?_
  · apply (once _).bind
    rintro ⟨created, w₁⟩ ⟨done, single⟩
    cases done
    have ended : (w₁.jsonOf (.group g)).length ≤ 0 + 1 := single.le
    dsimp only
    rw [if_pos rfl, populateOwn, if_pos ended]
    trivial
  · rintro ⟨populated, w₂⟩ -
    trivial

/-- Where the draft does not allow it, nothing is populated again. -/
theorem stuck_of_not_retries (never : ¬(draft w g).Retries) : Stuck w g := by
  obtain ⟨keys, subnodes⟩ := not_or.mp never
  refine ⟨fun empty => keys ?_, fun empty => subnodes ?_⟩
  · rw [draft, empty]
    rfl
  · rw [draft, empty]
    rfl

/-- The loop follows the draft to its end, and survives exactly if the draft does. -/
theorem members_drafted (h : Loading w g) (data : QJsonObject) :
    Ends (fun f => f = .deadlock ∨ ¬Draft.Survives ((draft w g).members (parts w.accepts data)))
      (populateMembers (nodeClass g) (World.repopulate (nodeClass g) (.group g) stackDepth) w data)
      fun q => Draft.Survives ((draft w g).members (parts w.accepts data)) ∧
        ∃ d, (draft w g).members (parts w.accepts data) = some (q.1, d) ∧
          (q.1 = true → Drafted w g d q.2) := by
  induction data generalizing w with
  | nil => exact ⟨trivial, _, rfl, fun _ => .refl h⟩
  | cons m rest ih =>
      obtain ⟨k, v⟩ := m
      have unfolded : (draft w g).members (parts w.accepts ((k, v) :: rest)) =
          ((draft w g).member k (part w.accepts k v) >>= fun q =>
            if q.1 then q.2.members (parts w.accepts rest) else some (false, q.2)) := rfl
      have never : (draft w g).member k (part w.accepts k v) = none →
          ¬Draft.Survives ((draft w g).members (parts w.accepts ((k, v) :: rest))) := by
        intro stuck survives
        rw [unfolded, stuck] at survives
        exact survives
      rw [populateMembers_cons]
      apply ((member_drafted h k v).mono_err fun f => Or.imp_right never).bind
      rintro ⟨created, w₁⟩ (⟨d, next, drafted⟩ | ⟨none, done, stuck⟩)
      · rw [next, Option.bind_eq_bind, Option.bind_some] at unfolded
        rw [unfolded]
        cases created with
        | true =>
            have later := ih drafted.loading
            rw [drafted.draft, drafted.accepts] at later
            apply later.mono
            rintro q ⟨survives, d', last, more⟩
            exact ⟨survives, d', last, fun done => drafted.trans (more done)⟩
        | false =>
            by_cases retries : (draft w₁ g).Retries
            · apply ((repopulate_retries drafted.loading retries).mono_err fun _ => False.elim).bind
              exact fun w₂ _ => ⟨drafted.draft ▸ retries, d, rfl, fun contra =>
                absurd contra Bool.false_ne_true⟩
            · simp only [Bool.false_eq_true, if_false, (stuck_of_not_retries retries).repopulate]
              exact .inr (drafted.draft ▸ retries)
      · cases done
        simp only [Bool.false_eq_true, if_false, stuck.repopulate]
        exact .inr (never none)

end VirtualGroup

end VoxPopuli
