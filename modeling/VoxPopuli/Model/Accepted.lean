import VoxPopuli.Model.Refusals

/-! # Documents which are accepted

Whether a virtual remote accepts a document depends on the objects of the document alone: they
must be events. Populating it with such a document fails only where the mutex of the patch is
held or a button goes down, whose message is read from a buffer which has been freed.
-/

namespace VoxPopuli

open World

variable {w w' : World}

/-! ## Nodes in general -/

namespace World

/-- Every object of a document is accepted. -/
def Accepted (accepts : QString → QJsonObject → Prop) (data : QJsonObject) : Prop :=
  ∀ k o, (k, .object o) ∈ data → accepts k o

section

variable {c : NodeClass} {n : NodeRef} {accepts : QString → QJsonObject → Prop}
    {refused : World → Except Fault World} {data : QJsonObject}

/-- Storing a value which is no object leaves a document as acceptable as it is. -/
theorem Accepted.insert_value (all : Accepted accepts data) (k : QString) {v : QJsonValue}
    (plain : v.isObject = false) : Accepted accepts (data.insert k v) := by
  intro k' o' there
  rcases Assoc.mem_insert there with same | old
  · cases same
    cases plain
  · exact all k' o' old

theorem Accepted.insert_object (all : Accepted accepts data) {k : QString} {o : QJsonObject}
    (first : accepts k o) : Accepted accepts (data.insert k (.object o)) := by
  intro k' o' there
  rcases Assoc.mem_insert there with same | old
  · cases same
    exact first
  · exact all k' o' old

variable (only : ∀ w k o, Ends (fun _ => True) (c.createSubNode w k o) fun q =>
  q.1 = true → accepts k o)

include only

/-- The loop only reaches the end of a document of which every object is accepted. -/
theorem populateMembers_accepted : Ends (fun _ => True) (populateMembers c refused w data) fun q =>
    q.1 = true → Accepted accepts data := by
  induction data generalizing w with
  | nil => exact fun _ => nofun
  | cons m rest ih =>
      obtain ⟨k, v⟩ := m
      have first : Ends (fun _ => True) (populateMember c w (k, v)) fun q =>
          q.1 = true → ∀ o, v = .object o → accepts k o := by
        cases v with
        | object o =>
            refine (only w k o).mono fun q accepted created o' same => ?_
            cases same
            exact accepted created
        | null | array a | bool b | string s | double d => exact ends_whenever.mpr fun _ _ _ => nofun
      rw [populateMembers_cons]
      apply first.bind
      rintro ⟨created, w₁⟩ accepted
      cases created with
      | true =>
          refine ih.mono fun q all populated k' o there => ?_
          rcases List.mem_cons.mp there with same | there
          · cases same
            exact accepted rfl o rfl
          · exact all populated k' o there
      | false =>
          have again : Ends (fun _ => True) (refused w₁) fun _ => True :=
            ends_whenever.mpr fun _ _ => trivial
          exact again.bind fun _ _ contra => absurd contra Bool.false_ne_true

theorem populateNode_accepted : Ends (fun _ => True) (populateNode c w n data) fun q =>
    q.1 = true → Accepted accepts data := by
  rw [populateNode]
  split
  · exact fun contra => absurd contra Bool.false_ne_true
  · apply (populateMembers_accepted only).bind
    rintro ⟨populated, w₁⟩ accepted
    cases populated with
    | true => exact accepted
    | false => exact fun contra => absurd contra Bool.false_ne_true

end

end World

/-! ## Events and virtual remotes -/

theorem World.mirror_accepts (n : NodeRef) (ancestors : List NodeRef) :
    (w.mirror n ancestors).accepts = w.accepts := by
  obtain ⟨json, same, -⟩ := mirror_frame w n ancestors
  rw [same]

namespace VirtualRemote

variable {v : VRef} {w₀ : World}

/-- The scope in which a virtual remote is populated. -/
def scope (v : VRef) : Scope where
  nodes n := n = .vRemote v ∨ (∃ b, n = .event v b) ∨ ∃ r, n = .remote r
  driven := Set.univ

/-- A virtual remote while it is populated: what it and its events have stored is acceptable,
    and of its parent nothing changes but the member under its name. -/
structure Growing (w₀ : World) (v : VRef) (w : World) : Prop where
  elements : SameElements w₀ w
  accepts : w.accepts = w₀.accepts
  events : ∀ b, Plain (w.json (.event v b))
  document : Document (w.json (.vRemote v))
  others : ∀ v' ≠ v, w.json (.vRemote v') = w₀.json (.vRemote v') ∧
    ∀ b, w.json (.event v' b) = w₀.json (.event v' b)
  parent : w.json (parent v) = w₀.json (parent v) ∨ ∃ o, Document o ∧
    w.json (parent v) = (w₀.json (parent v)).insert (w₀.vRemoteName v) (.object o)

theorem parent_ne (v : VRef) : parent v ≠ .vRemote v ∧ (∀ b, parent v ≠ .event v b) := by
  cases v <;> simp [parent]

theorem json_mirror_parent (v : VRef) : (w.updateParentJSon (.vRemote v)).json (parent v) =
    (w.json (parent v)).insert (w.vRemoteName v) (.object (w.json (.vRemote v))) := by
  have chain : w.updateParentJSon (.vRemote v) = (w.putJson (parent v) (w.vRemoteName v)
      (.object (w.json (.vRemote v)))).mirror (parent v) (parent v).ancestors := by
    cases v <;> rfl
  obtain ⟨json, same, others⟩ := mirror_frame (w.putJson (parent v) (w.vRemoteName v)
    (.object (w.json (.vRemote v)))) (parent v) (parent v).ancestors
  rw [chain, same]
  dsimp only
  rw [others _ (not_mem_ancestors (parent v))]
  simp [putJson, setJson]

theorem json_mirror_own (v v' : VRef) :
    (w.updateParentJSon (.vRemote v)).json (.vRemote v') = w.json (.vRemote v') ∧
      ∀ b, (w.updateParentJSon (.vRemote v)).json (.event v' b) = w.json (.event v' b) := by
  obtain ⟨json, same, others⟩ := mirror_frame w (.vRemote v) v.ancestors
  have chain : w.updateParentJSon (.vRemote v) = { w with json := json } := same
  rw [chain]
  refine ⟨others _ ?_, fun b => others _ ?_⟩
  all_goals cases v <;> simp [VRef.ancestors]

/-- The nodes whose JSON matters for a virtual remote: virtual remotes and events, and its
    parent. -/
def Concerns (v : VRef) : NodeRef → Prop
  | .vRemote _ | .event _ _ => True
  | n => n = parent v

theorem concerns_parent (v : VRef) : Concerns v (parent v) := by
  cases v <;> exact rfl

/-- A virtual remote which has just been made. -/
theorem growing_create (w : World) (v : VRef) (name : QString) :
    Growing (create w v name) v (create w v name) := by
  refine ⟨rfl, rfl, fun b => ?_, ?_, fun _ _ => ⟨rfl, fun _ => rfl⟩, .inl rfl⟩
  · simp [create, Plain]
  · simp [create, Document]

namespace Growing

variable (h : Growing w₀ v w)

include h

theorem name : w.vRemoteName v = w₀.vRemoteName v := by rw [h.elements.vRemoteName]

theorem congr (elements : SameElements w w') (accepts : w'.accepts = w.accepts)
    (json : ∀ n, Concerns v n → w'.json n = w.json n) : Growing w₀ v w' := by
  have own : ∀ v', w'.json (.vRemote v') = w.json (.vRemote v') := fun v' => json (.vRemote v') trivial
  have events : ∀ v' b, w'.json (.event v' b) = w.json (.event v' b) :=
    fun v' b => json (.event v' b) trivial
  refine ⟨h.elements.trans elements, accepts.trans h.accepts, fun b => ?_, ?_, fun v' other => ?_, ?_⟩
  · rw [events]
    exact h.events b
  · rw [own]
    exact h.document
  · obtain ⟨same, same'⟩ := h.others v' other
    exact ⟨(own v').trans same, fun b => (events v' b).trans (same' b)⟩
  · rw [json _ (concerns_parent v)]
    exact h.parent

/-- Remotes, their list and the roots are apart from it. -/
theorem apart (elements : SameElements w w') (accepts : w'.accepts = w.accepts)
    (json : ∀ n, n ≠ .network → n ≠ .remoteList → (∀ r, n ≠ .remote r) → w'.json n = w.json n) :
    Growing w₀ v w' := by
  refine h.congr elements accepts fun n concerns => json n ?_ ?_ fun r => ?_
  all_goals
    rintro rfl
    cases v <;> cases concerns

/-- Another document in the virtual remote. -/
theorem setJson {o : QJsonObject} (doc : Document o) : Growing w₀ v (w.setJson (.vRemote v) o) := by
  refine ⟨h.elements, h.accepts, fun b => ?_, ?_, fun v' other => ?_, ?_⟩
  · simpa [World.setJson] using h.events b
  · simpa [World.setJson] using doc
  · simpa [World.setJson, other] using h.others v' other
  · simpa [World.setJson, (parent_ne v).1] using h.parent

theorem setEvent (b : Button) {o : QJsonObject} (plain : Plain o) :
    Growing w₀ v (w.setJson (.event v b) o) := by
  refine ⟨h.elements, h.accepts, fun b' => ?_, ?_, fun v' other => ?_, ?_⟩
  · by_cases same : b' = b
    · simpa [World.setJson, same] using plain
    · simpa [World.setJson, same] using h.events b'
  · simpa [World.setJson] using h.document
  · simpa [World.setJson, other] using h.others v' other
  · simpa [World.setJson, (parent_ne v).2 b] using h.parent

/-- The JSON of the virtual remote goes up into its parent's. -/
theorem mirror : Growing w₀ v (w.updateParentJSon (.vRemote v)) := by
  have kept : ∀ v', _ := json_mirror_own (w := w) v
  have accepts : (w.updateParentJSon (.vRemote v)).accepts = w.accepts := mirror_accepts _ _
  refine ⟨h.elements.trans (mirror_elements w _ _), accepts.trans h.accepts, fun b => ?_, ?_,
    fun v' other => ?_, .inr ⟨_, h.document, ?_⟩⟩
  · rw [(kept v).2]
    exact h.events b
  · rw [(kept v).1]
    exact h.document
  · obtain ⟨own, events⟩ := h.others v' other
    exact ⟨(kept v').1.trans own, fun b => ((kept v').2 b).trans (events b)⟩
  · rw [json_mirror_parent, h.name]
    rcases h.parent with same | ⟨o, -, same⟩
    · rw [same]
    · rw [same]
      exact Assoc.insert_insert _ _ _ _

/-- The JSON of an event goes up, through the virtual remote. -/
theorem mirrorEvent (b : Button) : Growing w₀ v (w.updateParentJSon (.event v b)) := by
  have chain : w.updateParentJSon (.event v b) = (w.putJson (.vRemote v) b.nodeName
      (.object (w.json (.event v b)))).updateParentJSon (.vRemote v) := rfl
  have put : Growing w₀ v (w.putJson (.vRemote v) b.nodeName (.object (w.json (.event v b)))) :=
    h.setJson (Accepted.insert_object h.document ⟨by fin_cases b <;> decide, h.events b⟩)
  rw [chain]
  exact put.mirror

/-- What a virtual remote writes and the remotes which it drives do. -/
theorem act (act : Act (scope v) w w') : Growing w₀ v w' := by
  cases act with
  | @put n k x inside writable =>
      rcases inside with rfl | ⟨b, rfl⟩ | ⟨r, rfl⟩
      · have plain : x.isObject = false := by
          rcases writable with ⟨-, d, rfl⟩ | ⟨-, s, rfl⟩ <;> rfl
        exact h.setJson (Accepted.insert_value h.document k plain)
      · have plain : Plain ((w.json (.event v b)).insert k x) := by
          intro k' o there
          rcases Assoc.mem_insert there with same | old
          · cases same
            rcases writable with contra | ⟨a, contra⟩ <;> cases contra
          · exact h.events b k' o old
        exact h.setEvent b plain
      · refine h.apart rfl rfl fun n _ _ other => ?_
        simp [putJson, World.setJson, other r]
  | @mirror n inside =>
      rcases inside with rfl | ⟨b, rfl⟩ | ⟨r, rfl⟩
      · exact h.mirror
      · exact h.mirrorEvent b
      · obtain ⟨json, same, others⟩ := mirror_frame w (.remote r) (NodeRef.remote r).ancestors
        refine h.apart (mirror_elements w _ _) (mirror_accepts _ _) fun n root list _ => ?_
        rw [updateParentJSon, same]
        exact others n (by simp [NodeRef.ancestors, root, list])
  | @drop r r' driven gone found =>
      obtain ⟨json, removed, -, others⟩ := removeSubNode_frame w .remoteList (.remote r')
      refine h.apart rfl rfl fun n root list _ => ?_
      rw [RemoteList.drop, removed]
      exact others n (by simp [NodeRef.ancestors, root, list])
  | aside same => exact h.congr same.elements same.accepts fun n _ => congrFun same.json n

theorem acts (acts : Acts (scope v) w w') : Growing w₀ v w' :=
  acts.invariant h fun _ _ here act => here.act act

/-- An event which has been populated. -/
theorem adoptEvent (b : Button) {o : QJsonObject} (plain : Plain o) :
    Growing w₀ v (w.adopt (.event v b) o) := by
  let w₁ := w.setJson (.event v b) o
  have stored : Growing w₀ v w₁ := h.setEvent b plain
  have put : Growing w₀ v (w₁.putJson (.vRemote v) b.nodeName (.object (w₁.json (.event v b)))) :=
    stored.setJson (Accepted.insert_object stored.document
      ⟨by fin_cases b <;> decide, stored.events b⟩)
  have listed : Growing w₀ v ((w₁.putJson (.vRemote v) b.nodeName
      (.object (w₁.json (.event v b)))).setSubnodes (.vRemote v)
        (w.subnodes (.vRemote v) ++ [.event v b])) := put.congr rfl rfl fun _ _ => rfl
  exact listed.mirror

/-- The virtual remote has been populated. -/
theorem adopt {o : QJsonObject} (doc : Document o) : Growing w₀ v (w.adopt (.vRemote v) o) := by
  let w₁ := w.setJson (.vRemote v) o
  have stored : Growing w₀ v w₁ := h.setJson doc
  let w₂ := w₁.putJson (VirtualRemote.parent v) (w₁.vRemoteName v) (.object (w₁.json (.vRemote v)))
  have put : Growing w₀ v w₂ := by
    have apart := parent_ne v
    have kept : ∀ n, n ≠ VirtualRemote.parent v → w₂.json n = w₁.json n := fun n other =>
      Function.update_of_ne other _ _
    refine ⟨stored.elements, stored.accepts, fun b => ?_, ?_, fun v' other => ?_,
      .inr ⟨_, stored.document, ?_⟩⟩
    · rw [kept _ (apart.2 b).symm]
      exact stored.events b
    · rw [kept _ apart.1.symm]
      exact stored.document
    · obtain ⟨own, events⟩ := stored.others v' other
      have outside : NodeRef.vRemote v' ≠ VirtualRemote.parent v ∧
          ∀ b, NodeRef.event v' b ≠ VirtualRemote.parent v := by
        cases v <;> simp [VirtualRemote.parent]
      exact ⟨(kept _ outside.1).trans own, fun b => (kept _ (outside.2 b)).trans (events b)⟩
    · have written : w₂.json (VirtualRemote.parent v) = (w₁.json (VirtualRemote.parent v)).insert
          (w₁.vRemoteName v) (.object (w₁.json (.vRemote v))) := Function.update_self _ _ _
      rw [written, stored.name]
      rcases stored.parent with same | ⟨o', -, same⟩
      · rw [same]
      · rw [same]
        exact Assoc.insert_insert _ _ _ _
  obtain ⟨json, same, others⟩ := mirror_frame (w₂.setSubnodes (VirtualRemote.parent v)
    (w.subnodes (VirtualRemote.parent v) ++ [.vRemote v])) (VirtualRemote.parent v)
      (VirtualRemote.parent v).ancestors
  have chain : w.adopt (.vRemote v) o = (w₂.setSubnodes (VirtualRemote.parent v)
      (w.subnodes (VirtualRemote.parent v) ++ [.vRemote v])).mirror (VirtualRemote.parent v)
        (VirtualRemote.parent v).ancestors := by
    cases v <;> rfl
  rw [chain, same]
  refine put.congr rfl rfl fun n concerns => others n ?_
  cases v <;> rintro above <;> simp [VirtualRemote.parent, NodeRef.ancestors] at above
  · subst above
    cases concerns
  · rcases above with rfl | rfl <;> cases concerns

end Growing

/-- Looking for the remotes fails only where the mutex is held. -/
theorem deadlock_patchedRemotes (w : World) (v : VRef) :
    Ends (· = .deadlock) (patchedRemotes w v) fun _ => True := by
  have lookup : ∀ name, Ends (· = .deadlock) (PatchNode.remoteList w name) fun _ => True := by
    intro name
    rw [PatchNode.remoteList, World.lock]
    cases w.mutex with
    | noop => trivial
    | free => trivial
    | held => exact rfl
  cases v with
  | free n => exact lookup _
  | member g n =>
      rw [patchedRemotes]
      split
      · exact lookup _
      · trivial

theorem deadlock_fastTrigger (w : World) (v : VRef) {e : FTriggerEvent} (known : e = .led ∨ e.toNat < 5)
    (data : HexData) : Ends (· = .deadlock) (fastTrigger w v e data) fun _ => True := by
  rw [fastTrigger]
  split
  · have sent : Ends (· = .deadlock) (sendFastTrigger w v data) fun _ => True :=
      (deadlock_patchedRemotes w v).bind fun _ _ => trivial
    exact sent.bind fun _ _ => trivial
  · rename_i other
    rw [dif_pos (known.resolve_left other)]
    trivial

theorem deadlock_updateVirtualRemote (w : World) (v : VRef) :
    Ends (· = .deadlock) (updateVirtualRemote w v) fun _ => True :=
  (deadlock_patchedRemotes w v).bind fun _ _ => trivial

/-- A button goes down. -/
def Presses (k text : QString) : Prop :=
  k ∈ (["Up", "Down", "Left", "Right", "Action"] : QStringList) ∧ text = "down"

theorem setValue_presses {k text : QString} (presses : Presses k text) :
    setValue w v k text = .error .useAfterFree := by
  rw [setValue, if_pos presses.1, if_pos presses.2]
  rfl

theorem deadlock_setValue (w : World) (v : VRef) {k text : QString} (calm : ¬Presses k text) :
    Ends (· = .deadlock) (setValue w v k text) fun _ => True := by
  rw [setValue]
  split
  · rename_i button
    have known : (FTriggerEvent.eventID k).toNat < 5 := by
      simp only [List.mem_cons, List.not_mem_nil, or_false] at button
      rcases button with rfl | rfl | rfl | rfl | rfl <;> decide
    rw [if_neg fun down => calm ⟨button, down⟩]
    split
    · trivial
    · exact deadlock_fastTrigger w v (.inr known) _
  · split
    · split
      · trivial
      · exact deadlock_fastTrigger w v (.inl rfl) _
    · split
      · exact (deadlock_patchedRemotes w v).bind fun _ _ => trivial
      · split
        · split
          · trivial
          · exact (deadlock_updateVirtualRemote _ v).bind fun _ _ => trivial
        · trivial

end VirtualRemote

/-- An event accepts a document without objects. -/
theorem Event.populateNode_growing {w₀ : World} {v : VRef} (b : Button)
    (h : VirtualRemote.Growing w₀ v w) {o : QJsonObject} (plain : Plain o) :
    Ends (fun _ => False) (populateNode (nodeClass v b) w (.event v b) o) fun q =>
      q.1 = true ∧ VirtualRemote.Growing w₀ v q.2 := by
  have inside : .event v b ∈ (VirtualRemote.scope v).nodes := .inr (.inl ⟨b, rfl⟩)
  have members : Ends (fun _ => False) (populateMembers (nodeClass v b)
      (repopulate (nodeClass v b) (.event v b) stackDepth) w o) fun q =>
      q.1 = true ∧ VirtualRemote.Growing w₀ v q.2 := by
    apply populateMembers_ends h
    · exact fun k o' member => absurd member (plain k o')
    · exact fun w₁ k l here => here.acts (Acts.foldl l (fun w d _ => acts_addEvent inside d k) w₁)
    · exact fun w₁ k s here => here
  apply (populateNode_ends (n := .event v b) (nodeName_solid b) members).mono
  rintro ⟨created, w₂⟩ ⟨done, w₁, here, rfl⟩
  exact ⟨done, here.adoptEvent b plain⟩

theorem Event.populateNode_plain (w : World) (v : VRef) (b : Button) (o : QJsonObject) :
    Ends (fun _ => True) (populateNode (nodeClass v b) w (.event v b) o) fun q =>
      q.1 = true → Plain o :=
  populateNode_accepted fun _ _ _ contra => absurd contra Bool.false_ne_true

namespace VirtualRemote

variable {v : VRef} {w₀ : World} {data : QJsonObject}

/-- A virtual remote only accepts a document whose objects are events. -/
theorem populateNode_document (w : World) (v : VRef) (data : QJsonObject) :
    Ends (fun _ => True) (populateNode (nodeClass v) w (.vRemote v) data) fun q =>
      q.1 = true → Document data := by
  refine populateNode_accepted fun w k o => ?_
  dsimp only [nodeClass, createSubNode]
  cases Button.ofNodeName? k with
  | none => exact fun contra => absurd contra Bool.false_ne_true
  | some b => exact (Event.populateNode_plain w v b o).mono fun q plain done => ⟨rfl, plain done⟩

/-- A member of a document with which a button goes down. -/
def Pressing (m : QString × QJsonValue) : Prop := ∃ text, valueText m.2 = some text ∧ Presses m.1 text

/-- One member of a document: an event, or a value other than a button which goes down. -/
theorem populateMember_growing (h : Growing w₀ v w) {m : QString × QJsonValue}
    (event : ∀ o, m.2 = .object o → (Button.ofNodeName? m.1).isSome ∧ Plain o) (calm : ¬Pressing m) :
    Ends (· = .deadlock) (populateMember (nodeClass v) w m) fun q => q.1 = true ∧ Growing w₀ v q.2 := by
  obtain ⟨k, x⟩ := m
  have value : ∀ text, valueText x = some text →
      Ends (· = .deadlock) (setValue w v k text >>= fun q => pure (true, q.2)) fun q =>
        q.1 = true ∧ Growing w₀ v q.2 := by
    intro text read
    have inside : .vRemote v ∈ (scope v).nodes := .inl rfl
    have drives : ∀ r ∈ target w v, (scope v).Drives r := fun r _ => ⟨.inr (.inr ⟨r, rfl⟩), trivial⟩
    have acts : Ends (fun _ => True) (setValue w v k text) fun q => Acts (scope v) w q.2 :=
      acts_setValue inside fun _ => drives
    have done := (deadlock_setValue w v fun presses => calm ⟨text, read, presses⟩).join acts
    exact done.bind fun q acts => ⟨rfl, h.acts acts⟩
  cases x with
  | object o =>
      obtain ⟨isEvent, plain⟩ := event o rfl
      obtain ⟨b, found⟩ := Option.isSome_iff_exists.mp isEvent
      have created : populateMember (nodeClass v) w (k, .object o) =
          World.populateNode (Event.nodeClass v b) w (.event v b) o := by
        simp [populateMember, nodeClass, createSubNode, found]
      rw [created]
      exact (Event.populateNode_growing b h plain).mono_err fun _ => False.elim
  | null | array a => exact ⟨rfl, h⟩
  | bool b => exact value _ rfl
  | string s => exact value _ rfl
  | double d => exact value _ rfl

/-- A virtual remote accepts a document whose objects are events and whose buttons are not down. -/
theorem populateNode_growing (h : Growing w₀ v w) (solid : (' ' : QChar) ∉ w.vRemoteName v)
    (doc : Document data) (calm : ∀ m ∈ data, ¬Pressing m) :
    Ends (· = .deadlock) (populateNode (nodeClass v) w (.vRemote v) data) fun q =>
      q.1 = true ∧ Growing w₀ v q.2 := by
  have members : Ends (· = .deadlock) (populateMembers (nodeClass v)
      (repopulate (nodeClass v) (.vRemote v) stackDepth) w data) fun q =>
      q.1 = true ∧ Growing w₀ v q.2 := by
    refine populateMembers_each h fun m there w₁ here => ?_
    refine populateMember_growing here (fun o same => doc m.1 o ?_) (calm m there)
    rw [← same]
    exact there
  apply (populateNode_ends (n := .vRemote v) solid members).mono
  rintro ⟨created, w₂⟩ ⟨done, w₁, here, rfl⟩
  exact ⟨done, here.adopt doc⟩

/-- Such a document with a button which is down is not survived. -/
theorem populateNode_pressing (h : Growing w₀ v w) (solid : (' ' : QChar) ∉ w.vRemoteName v)
    (doc : Document data) (pressing : ∃ m ∈ data, Pressing m) :
    Ends (fun _ => True) (populateNode (nodeClass v) w (.vRemote v) data) fun _ => False := by
  have members : ∀ data : QJsonObject, Document data → (∃ m ∈ data, Pressing m) → ∀ w₁,
      Growing w₀ v w₁ → Ends (fun _ => True) (populateMembers (nodeClass v)
        (repopulate (nodeClass v) (.vRemote v) stackDepth) w₁ data) fun _ => False := by
    intro data doc pressing
    induction data with
    | nil =>
        obtain ⟨m, there, -⟩ := pressing
        cases there
    | cons m rest ih =>
        intro w₁ here
        rw [populateMembers_cons]
        by_cases calm : Pressing m
        · obtain ⟨k, x⟩ := m
          obtain ⟨text, read, presses⟩ := calm
          have stops : populateMember (nodeClass v) w₁ (k, x) = .error .useAfterFree := by
            have stopped : setValue w₁ v k text = .error .useAfterFree := setValue_presses presses
            cases x with
            | null | array a | object o => cases read
            | bool b | string s | double d =>
                cases read
                simp only [populateMember, nodeClass, stopped]
                rfl
          rw [stops]
          trivial
        · have rest_doc : Document rest := fun k o there => doc k o (List.mem_cons_of_mem m there)
          obtain ⟨m', there, presses⟩ := pressing
          have there' : m' ∈ rest := (List.mem_cons.mp there).resolve_left fun same =>
            calm (same ▸ presses)
          have event : ∀ o, m.2 = .object o → (Button.ofNodeName? m.1).isSome ∧ Plain o := by
            intro o same
            exact doc m.1 o (same ▸ List.mem_cons_self)
          apply (populateMember_growing here event calm).of_any.bind
          rintro ⟨created, w₂⟩ ⟨done, later⟩
          cases done
          exact ih rest_doc ⟨m', there', presses⟩ w₂ later
  have named : (' ' : QChar) ∉ w.nameOf (.vRemote v) := solid
  rw [World.populateNode, if_neg named]
  exact (members data doc pressing w h).bind fun _ => False.elim

end VirtualRemote

end VoxPopuli
