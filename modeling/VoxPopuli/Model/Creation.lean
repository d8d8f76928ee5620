import VoxPopuli.Model.WellFormed

/-! # The creation of elements

New elements are populated from documents which the program builds itself. All their
members are accepted, so a new element ends up with the document as its JSON, under
its name in its parent, and whatever is there already keeps its place.
-/

namespace VoxPopuli

open World

variable {F : Footprint} {w w' : World}

/-! ## Populating a node -/

namespace World

theorem mem_build {members : List (QString × QJsonValue)} {e : QString × QJsonValue}
    (h : e ∈ QJsonObject.build members) : e ∈ members := by
  have step : ∀ (l : List (QString × QJsonValue)) (o : QJsonObject),
      e ∈ l.foldl (fun o m => o.insert m.1 m.2) o → e ∈ o ∨ e ∈ l := by
    intro l
    induction l with
    | nil => exact fun o inside => .inl inside
    | cons x l ih =>
        intro o inside
        rcases ih _ inside with old | rest
        · rcases Assoc.mem_insert old with rfl | old
          · exact .inr List.mem_cons_self
          · exact .inl old
        · exact .inr (List.mem_cons_of_mem x rest)
  simpa using step members [] h

/-- What `populateNode` does with one member, and whether it goes on. -/
def populateMember (c : NodeClass) (w : World) (m : QString × QJsonValue) :
    Except Fault (Bool × World) :=
  match m.2 with
  | .object o => c.createSubNode w m.1 o
  | .array a => do
      let w ← c.parseArray w m.1 (arrayTexts a)
      pure (true, w)
  | .bool b => do
      let (_, w) ← c.setValue w m.1 (if b then "true" else "false")
      pure (true, w)
  | .string s => do
      let (_, w) ← c.setValue w m.1 s
      pure (true, w)
  | .double d => do
      let (_, w) ← c.setValue w m.1 (QString.ofDouble d)
      pure (true, w)
  | .null => pure (true, w)

theorem populateMembers_cons (c : NodeClass) (refused : World → Except Fault World) (w : World)
    (m : QString × QJsonValue) (rest : QJsonObject) :
    populateMembers c refused w (m :: rest) = (do
      let (created, w) ← populateMember c w m
      if created then populateMembers c refused w rest
      else do
        let w ← refused w
        pure (false, w)) := by
  obtain ⟨k, v⟩ := m
  cases v with
  | object o => rfl
  | array a => simp [populateMembers, populateMember]
  | bool b => simp [populateMembers, populateMember]
  | string s => simp [populateMembers, populateMember]
  | double d => simp [populateMembers, populateMember]
  | null => rfl

/-- What the class does with a member is what becomes of it. -/
theorem populateMember_ends {err : Fault → Prop} {I : World → Prop} {c : NodeClass}
    {m : QString × QJsonValue} (start : I w)
    (object : ∀ o, Ends err (c.createSubNode w m.1 o) fun q => I q.2)
    (array : ∀ l, Ends err (c.parseArray w m.1 l) I)
    (value : ∀ s, Ends err (c.setValue w m.1 s) fun q => I q.2) :
    Ends err (populateMember c w m) fun q => I q.2 := by
  obtain ⟨k, v⟩ := m
  cases v with
  | null => exact start
  | bool b => exact (value _).bind fun q inv => inv
  | string s => exact (value _).bind fun q inv => inv
  | double d => exact (value _).bind fun q inv => inv
  | array a => exact (array _).bind fun w' inv => inv
  | object o => exact object o

section

variable {err : Fault → Prop} {I : World → Prop} {c : NodeClass} {n : NodeRef}
    (members : ∀ w m, I w → Ends err (populateMember c w m) fun q => I q.2)

include members

/-- What every member keeps is kept by the loop. -/
theorem populateMembers_keeps {refused : World → Except Fault World} {data : QJsonObject}
    (again : ∀ w, I w → Ends err (refused w) I) (start : I w) :
    Ends err (populateMembers c refused w data) fun q => I q.2 := by
  induction data generalizing w with
  | nil => exact start
  | cons m rest ih =>
      rw [populateMembers_cons]
      apply (members w m start).bind
      rintro ⟨created, w₁⟩ later
      cases created with
      | true => exact ih later
      | false => exact (again w₁ later).bind fun w₂ last => last

/-- What every member keeps is kept by the loop over the node's own JSON. -/
theorem populateOwn_keeps (overflow : err .stackOverflow) {refused : World → Except Fault World}
    (again : ∀ w, I w → Ends err (refused w) I) (turns i : Nat) (start : I w) :
    Ends err (populateOwn c refused n turns i w) fun q => I q.2 := by
  induction turns generalizing i w with
  | zero =>
      rw [populateOwn]
      split
      · exact start
      · exact overflow
  | succ turns ih =>
      rw [populateOwn]
      split
      · exact start
      · apply (populateMembers_keeps members again start).bind
        rintro ⟨created, w₁⟩ later
        cases created with
        | true => exact ih (i + 1) later
        | false => exact later

variable (adopts : ∀ w data, I w → I (w.adopt n data)) (overflow : err .stackOverflow)
    (deleted : err .useAfterFree)

include adopts overflow deleted

theorem repopulate_keeps (depth : Nat) (start : I w) : Ends err (repopulate c n depth w) I := by
  induction depth generalizing w with
  | zero =>
      rw [repopulate]
      split_ifs
      · exact start
      · exact deleted
      · exact overflow
  | succ depth ih =>
      rw [repopulate]
      split_ifs
      · exact start
      · exact deleted
      · apply (populateOwn_keeps members overflow (fun w₁ later => ih later) _ 0 start).bind
        rintro ⟨populated, w₁⟩ later
        cases populated with
        | true => exact adopts w₁ _ later
        | false => exact later

/-- What the members and the adoption of a node keep is kept by populating it. -/
theorem populateNode_keeps {data : QJsonObject} (start : I w) :
    Ends err (populateNode c w n data) fun q => I q.2 := by
  rw [populateNode]
  split
  · exact start
  · have again := fun w₁ => repopulate_keeps (w := w₁) members adopts overflow deleted stackDepth
    apply (populateMembers_keeps members again start).bind
    rintro ⟨populated, w₁⟩ later
    cases populated with
    | true => exact adopts w₁ data later
    | false => exact later

end

/-- When every member of the document is accepted the loop reaches its end. -/
theorem populateMembers_each {err : Fault → Prop} {I : World → Prop} {c : NodeClass}
    {refused : World → Except Fault World} {data : QJsonObject} (start : I w)
    (members : ∀ m ∈ data, ∀ w, I w → Ends err (populateMember c w m) fun p => p.1 = true ∧ I p.2) :
    Ends err (populateMembers c refused w data) fun p => p.1 = true ∧ I p.2 := by
  induction data generalizing w with
  | nil => exact ⟨rfl, start⟩
  | cons m rest ih =>
      rw [populateMembers_cons]
      apply (members m List.mem_cons_self w start).bind
      rintro ⟨created, w'⟩ ⟨accepted, inv⟩
      cases accepted
      exact ih inv fun m' member => members m' (List.mem_cons_of_mem m member)

/-- When every child is accepted the loop reaches the end of the document. -/
theorem populateMembers_ends {err : Fault → Prop} {I : World → Prop} {c : NodeClass}
    {refused : World → Except Fault World} {data : QJsonObject} (start : I w)
    (object : ∀ k o, (k, .object o) ∈ data → ∀ w, I w →
      Ends err (c.createSubNode w k o) fun p => p.1 = true ∧ I p.2)
    (array : ∀ w k l, I w → Ends err (c.parseArray w k l) I)
    (value : ∀ w k s, I w → Ends err (c.setValue w k s) fun p => I p.2) :
    Ends err (populateMembers c refused w data) fun p => p.1 = true ∧ I p.2 := by
  apply populateMembers_each start
  rintro ⟨k, v⟩ member w inv
  cases v with
  | null => exact ⟨rfl, inv⟩
  | bool b => exact (value w k _ inv).bind fun p inv => ⟨rfl, inv⟩
  | string s => exact (value w k _ inv).bind fun p inv => ⟨rfl, inv⟩
  | double d => exact (value w k _ inv).bind fun p inv => ⟨rfl, inv⟩
  | array a => exact (array w k _ inv).bind fun w' inv => ⟨rfl, inv⟩
  | object o => exact object k o member w inv

theorem populateNode_ends {err : Fault → Prop} {I : World → Prop} {c : NodeClass} {n : NodeRef}
    {data : QJsonObject} (solid : (' ' : QChar) ∉ w.nameOf n)
    (members : Ends err (populateMembers c (repopulate c n stackDepth) w data) fun q =>
      q.1 = true ∧ I q.2) :
    Ends err (populateNode c w n data) fun q =>
      q.1 = true ∧ ∃ w', I w' ∧ q.2 = w'.adopt n data := by
  unfold populateNode
  rw [if_neg solid]
  apply members.bind
  rintro ⟨populated, w'⟩ ⟨done, inv⟩
  cases done
  exact ⟨rfl, w', inv, rfl⟩

theorem populateNode_refused {c : NodeClass} {n : NodeRef} {data : QJsonObject}
    (space : (' ' : QChar) ∈ w.nameOf n) : populateNode c w n data = .ok (false, w) :=
  if_pos space

theorem keeps_addSubNode {p n : NodeRef} (writes : Writes F w p (w.nameOf n))
    (mirrors : Mirrors F p) : Keeps F w (w.addSubNode p n) := by
  have put : Keeps F w (w.putJson p (w.nameOf n) (.object (w.jsonOf n))) := keeps_putJson writes _
  have listed : Keeps F (w.putJson p (w.nameOf n) (.object (w.jsonOf n)))
      ((w.putJson p (w.nameOf n) (.object (w.jsonOf n))).setSubnodes p (w.subnodes p ++ [n])) :=
    keeps_of_same rfl rfl rfl rfl rfl
  exact (put.trans listed).trans (keeps_updateParentJSon mirrors)

theorem keeps_rewrite {v : VRef} (edited : v ∈ F.edited) (rewritten : v ∈ F.rewritten)
    (o : QJsonObject) : Keeps F w (w.setJson (.vRemote v) o) := by
  refine keeps_setJson (fun v' same => ?_) (by simp) (by simp) (by simp) (by simp) o
  cases same
  exact ⟨edited, rewritten⟩

end World

/-- A document without objects. -/
def Plain (o : QJsonObject) : Prop := ∀ k o', (k, .object o') ∉ o

namespace Event

theorem plain_createEventJSon : Plain createEventJSon := by
  intro k o' member
  simp [createEventJSon] at member

theorem nodeName_solid (b : Button) : (' ' : QChar) ∉ b.nodeName := by
  fin_cases b <;> decide

theorem keeps_adopt {v : VRef} (notified : v ∈ F.notified) (b : Button) (o : QJsonObject) :
    Keeps F w (w.adopt (.event v b) o) := by
  obtain ⟨name, name'⟩ := nodeName_ne b
  have stored : Keeps F w (w.setJson (.event v b) o) :=
    keeps_setJson (by simp) (by simp) (by simp) (by simp) (by simp) o
  exact stored.trans (keeps_addSubNode (p := .vRemote v) ⟨fun same => absurd same name, name'⟩ notified)

theorem populate_ends {v : VRef} (notified : v ∈ F.notified) (edited : v ∈ F.edited) (b : Button)
    {o : QJsonObject} (plain : Plain o) :
    Ends w.MayFail (populateNode (nodeClass v b) w (.event v b) o) fun q =>
      q.1 = true ∧ Keeps F w q.2 := by
  have members : Ends w.MayFail (populateMembers (nodeClass v b)
      (repopulate (nodeClass v b) (.event v b) stackDepth) w o) fun q =>
      q.1 = true ∧ Keeps F w q.2 := by
    apply populateMembers_ends (Keeps.refl F w)
    · exact fun k o' member => absurd member (plain k o')
    · intro w₁ k l kept
      exact kept.trans (Keeps.foldl l (fun w d _ => keeps_addEvent notified edited b d k) w₁)
    · exact fun w₁ k s kept => kept
  apply (populateNode_ends (n := .event v b) (nodeName_solid b) members).mono
  rintro ⟨created, w₂⟩ ⟨done, w₁, kept, rfl⟩
  exact ⟨done, kept.trans (keeps_adopt notified b o)⟩

end Event

namespace VirtualRemote

/-- The parent of a virtual remote. -/
def parent : VRef → NodeRef
  | .free _ => .virtualNet
  | .member g _ => .group g

theorem adopt_eq (w : World) (v : VRef) (data : QJsonObject) : w.adopt (.vRemote v) data =
    (w.setJson (.vRemote v) data).addSubNode (parent v) (.vRemote v) := by
  cases v <;> rfl

/-- The objects of a document are events. -/
def Document (data : QJsonObject) : Prop :=
  ∀ k o, (k, .object o) ∈ data → (Button.ofNodeName? k).isSome ∧ Plain o

theorem document_createVirtualRemoteJSon : Document createVirtualRemoteJSon := by
  intro k o member
  have listed := mem_build member
  simp only [List.mem_cons, Prod.mk.injEq, reduceCtorEq, and_false, false_or, List.not_mem_nil,
    or_false, QJsonValue.object.injEq] at listed
  rcases listed with ⟨rfl, rfl⟩ | ⟨rfl, rfl⟩ | ⟨rfl, rfl⟩ | ⟨rfl, rfl⟩ | ⟨rfl, rfl⟩
  all_goals exact ⟨by decide, Event.plain_createEventJSon⟩

theorem Document.insert {data : QJsonObject} (doc : Document data) (k : QString) (d : ℚ) :
    Document (data.insert k (.double d)) := by
  intro k' o member
  rcases Assoc.mem_insert member with same | old
  · cases same
  · exact doc k' o old

theorem keeps_adopt {v : VRef} (notified : v ∈ F.notified) (edited : v ∈ F.edited)
    (rewritten : v ∈ F.rewritten) (data : QJsonObject) : Keeps F w (w.adopt (.vRemote v) data) := by
  have replaced : Keeps F w (w.setJson (.vRemote v) data) := keeps_rewrite edited rewritten data
  rw [adopt_eq]
  refine replaced.trans ?_
  cases v with
  | free n => exact keeps_addSubNode (p := .virtualNet) trivial trivial
  | member g n => exact keeps_addSubNode (p := .group g) (.inr (.inr ⟨n, notified, rfl⟩)) trivial

theorem populate_ends {v : VRef} (notified : v ∈ F.notified) (edited : v ∈ F.edited)
    (rewritten : v ∈ F.rewritten) {data : QJsonObject} (doc : Document data)
    (solid : (' ' : QChar) ∉ w.vRemoteName v) :
    Ends w.MayFail (populateNode (nodeClass v) w (.vRemote v) data) fun q =>
      q.1 = true ∧ Keeps F w q.2 ∧ q.2.json (.vRemote v) = data ∧
        (q.2.json (parent v)).contains (w.vRemoteName v) := by
  have members : Ends w.MayFail (populateMembers (nodeClass v)
      (repopulate (nodeClass v) (.vRemote v) stackDepth) w data) fun q =>
      q.1 = true ∧ Keeps F w q.2 := by
    apply populateMembers_ends (Keeps.refl F w)
    · intro k o member w₁ kept
      obtain ⟨isEvent, plain⟩ := doc k o member
      obtain ⟨b, found⟩ := Option.isSome_iff_exists.mp isEvent
      have created : (nodeClass v).createSubNode w₁ k o =
          populateNode (Event.nodeClass v b) w₁ (.event v b) o := by
        simp [nodeClass, createSubNode, found]
      rw [created]
      apply (kept.ends (Event.populate_ends notified edited b plain)).mono
      exact fun q done => ⟨done.1, kept.trans done.2⟩
    · exact fun w₁ k l kept => kept
    · exact fun w₁ k s kept => (kept.ends (keeps_setValue notified edited k s)).mono
        fun q more => kept.trans more
  apply (populateNode_ends (n := .vRemote v) solid members).mono
  rintro ⟨created, w₂⟩ ⟨done, w₁, kept, rfl⟩
  have replaced : Keeps F w₁ (w₁.setJson (.vRemote v) data) := keeps_rewrite edited rewritten data
  have name : (w₁.setJson (.vRemote v) data).nameOf (.vRemote v) = w.vRemoteName v := by
    simp only [nameOf, (kept.trans replaced).roster]
  refine ⟨done, kept.trans (keeps_adopt notified edited rewritten data), ?_, ?_⟩
  all_goals rw [adopt_eq]
  · cases v <;> simp [addSubNode, updateParentJSon, mirror, parent, NodeRef.ancestors, putJson, setJson]
  · rw [← name]
    have inserted : ∀ w : World, ∀ p k x l, (((w.putJson p k x).setSubnodes p l).json p).contains k := by
      intro w p k x l
      simp [putJson, setJson, QJsonObject.contains]
    cases v with
    | free n =>
        exact (keeps_updateParentJSon (F := F) (n := .virtualNet) trivial).netKeys _
          (inserted _ _ _ _ _)
    | member g n =>
        exact (keeps_updateParentJSon (F := F) (n := .group g) trivial).groupKeys _ _
          (inserted _ _ _ _ _)

end VirtualRemote

/-! ## New references -/

/-- A reference which has not been given to a virtual remote. -/
def VRef.New (w : World) (v : VRef) : Prop := v = .free w.fresh ∨ ∃ g, v = .member g w.fresh

theorem VRef.New.ne_free {v : VRef} (new : v.New w) {n : Nat} (old : n < w.fresh) :
    VRef.free n ≠ v := by
  rintro rfl
  rcases new with same | ⟨g, same⟩
  · cases same
    omega
  · cases same

theorem VRef.New.ne_member {v : VRef} (new : v.New w) {g n : Nat} (old : n < w.fresh) :
    VRef.member g n ≠ v := by
  rintro rfl
  rcases new with same | ⟨g', same⟩
  · cases same
  · cases same
    omega

namespace World

theorem Registered.create_vRemote (h : w.Registered) {v : VRef} (new : v.New w) (name : QString) :
    (VirtualRemote.create w v name).Registered := by
  refine h.fewer rfl (fun g => .refl _) (.refl _) (.refl _) (Nat.le_succ _) ?_ ?_
  · intro n element
    obtain ⟨g, -, rfl⟩ | ⟨m, inside, rfl⟩ := element.node
    · rfl
    · exact Function.update_of_ne (new.ne_free (h.vRemotesOld m inside)) _ _
  · exact fun n _ there => there

theorem GroupOk.create_vRemote {g global : Nat} {avatars : List Nat}
    (ok : w.GroupOk g global avatars) {v : VRef} (new : v.New w) (name : QString) :
    (VirtualRemote.create w v name).GroupOk g global avatars := by
  refine ok.congr rfl rfl ?_ (Nat.le_succ _) rfl ?_
  · exact fun n old => Function.update_of_ne (new.ne_member old) _ _
  · exact fun n old => if_neg (new.ne_member old)

theorem SameLinks.create_vRemote (v : VRef) (name : QString) :
    SameLinks w (VirtualRemote.create w v name) :=
  ⟨rfl, rfl, rfl, fun _ _ => rfl, fun _ _ => rfl, fun _ _ => rfl⟩

end World

end VoxPopuli
