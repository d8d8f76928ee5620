import VoxPopuli.Model.Creation
import VoxPopuli.Model.Deeds

/-! # What a refused child leaves

A child registers itself in its parent while it is populated: it copies its JSON upwards
with every value it stores, and when a member of its document is refused after that, it is
populated once more with what it has and listed among the children. So a refused child
leaves no trace exactly when nothing had been stored before the first member was refused.
-/

namespace VoxPopuli

open World

variable {w w' : World}

namespace World

/-- What is stored of a document, as far as it can be seen in the document: which members
    store something, where this may depend on the members before. -/
structure Storing where
  Seen : Type
  none : Seen
  see : Seen → QString × QJsonValue → Seen
  Stores : Seen → QString × QJsonValue → Prop

/-- Nothing is stored by the members up to the first object. -/
def Storing.Quiet (s : Storing) : s.Seen → QJsonObject → Prop
  | _, [] => True
  | seen, m :: rest => ¬s.Stores seen m ∧ (m.2.isObject ∨ s.Quiet (s.see seen m) rest)

/-- A document is refused, and nothing is stored before. -/
def Storing.RefusedQuietly (s : Storing) (data : QJsonObject) : Prop :=
  s.Quiet s.none data ∧ ∃ m ∈ data, m.2.isObject

section

variable {c : NodeClass} {n : NodeRef} {s : Storing} {S : s.Seen → World → Prop}
    {R L : World → Prop} {refused : World → Except Fault World} {data : QJsonObject}

/-- How the members of a class take a node from one stage to another: from `S` to `R` without
    storing anything, which never fails, and to `L` otherwise. -/
structure Stages (c : NodeClass) (s : Storing) (S : s.Seen → World → Prop) (R L : World → Prop) :
    Prop where
  value : ∀ w seen m, S seen w → ¬s.Stores seen m → m.2.isObject = false →
    Ends (fun _ => False) (populateMember c w m) fun q => q.1 = true ∧ S (s.see seen m) q.2
  object : ∀ w seen m, S seen w → ¬s.Stores seen m → m.2.isObject = true →
    Ends (fun _ => False) (populateMember c w m) fun q => q.1 = false ∧ R q.2
  loud : ∀ w seen m, S seen w → s.Stores seen m →
    Ends (fun _ => True) (populateMember c w m) fun q => L q.2
  stays : ∀ w m, L w → Ends (fun _ => True) (populateMember c w m) fun q => L q.2

/-- The loop ends populated, or with what is done when a child is refused. -/
theorem populateMembers_stays
    (stays : ∀ w m, L w → Ends (fun _ => True) (populateMember c w m) fun q => L q.2) (start : L w) :
    Ends (fun _ => True) (populateMembers c refused w data) fun q =>
      q.1 = true ∧ L q.2 ∨ q.1 = false ∧ ∃ w₁, L w₁ ∧ refused w₁ = .ok q.2 := by
  induction data generalizing w with
  | nil => exact .inl ⟨rfl, start⟩
  | cons m rest ih =>
      rw [populateMembers_cons]
      apply (stays w m start).bind
      rintro ⟨created, w₁⟩ later
      cases created with
      | true => exact ih later
      | false =>
          apply (ends_whenever.mpr fun w₂ result => result :
            Ends (fun _ => True) (refused w₁) fun w₂ => refused w₁ = .ok w₂).bind
          exact fun w₂ result => .inr ⟨rfl, w₁, later, result⟩

/-- The loop ends populated unless the document is refused quietly; if it is not populated,
    the node has stored something or the document is refused quietly. -/
theorem Stages.members (stages : Stages c s S R L) {seen : s.Seen} (start : S seen w) :
    Ends (fun _ => True) (populateMembers c refused w data) fun q =>
      q.1 = true ∧ ¬(s.Quiet seen data ∧ ∃ m ∈ data, m.2.isObject) ∧ ((∃ seen, S seen q.2) ∨ L q.2) ∨
        q.1 = false ∧ ∃ w₁, refused w₁ = .ok q.2 ∧
          (s.Quiet seen data ∧ (∃ m ∈ data, m.2.isObject) ∧ R w₁ ∨
            ¬s.Quiet seen data ∧ L w₁) := by
  induction data generalizing w seen with
  | nil => exact .inl ⟨rfl, by simp, .inl ⟨seen, start⟩⟩
  | cons m rest ih =>
      rw [populateMembers_cons]
      have refusing : ∀ w₁, Ends (fun _ => True) (refused w₁) fun w₂ => refused w₁ = .ok w₂ :=
        fun w₁ => ends_whenever.mpr fun w₂ result => result
      by_cases storing : s.Stores seen m
      · have loud : ¬s.Quiet seen (m :: rest) := fun quiet => quiet.1 storing
        apply (stages.loud w seen m start storing).bind
        rintro ⟨created, w₁⟩ later
        cases created with
        | true =>
            apply (populateMembers_stays stages.stays later).mono
            rintro q (⟨done, last⟩ | ⟨done, w₂, last, result⟩)
            · exact .inl ⟨done, fun quiet => loud quiet.1, .inr last⟩
            · exact .inr ⟨done, w₂, result, .inr ⟨loud, last⟩⟩
        | false =>
            apply (refusing w₁).bind
            exact fun w₂ result => .inr ⟨rfl, w₁, result, .inr ⟨loud, later⟩⟩
      · cases object : m.2.isObject with
        | true =>
            apply (stages.object w seen m start storing object).of_any.bind
            rintro ⟨created, w₁⟩ ⟨done, later⟩
            cases done
            apply (refusing w₁).bind
            exact fun w₂ result => .inr ⟨rfl, w₁, result,
              .inl ⟨⟨storing, .inl object⟩, ⟨m, List.mem_cons_self, object⟩, later⟩⟩
        | false =>
            have rest_quiet : s.Quiet seen (m :: rest) ↔ s.Quiet (s.see seen m) rest := by
              refine ⟨fun quiet => quiet.2.resolve_left (by simp [object]), fun quiet => ?_⟩
              exact ⟨storing, .inr quiet⟩
            have rest_object : (∃ m' ∈ m :: rest, m'.2.isObject) ↔ ∃ m' ∈ rest, m'.2.isObject := by
              simp [object]
            rw [rest_quiet, rest_object]
            apply (stages.value w seen m start storing object).of_any.bind
            rintro ⟨created, w₁⟩ ⟨done, later⟩
            cases done
            exact ih later

/-- Up to the first object nothing is stored, and nothing fails. -/
theorem Stages.refusesMembers (stages : Stages c s S R L) (again : ∀ w, R w → refused w = .ok w)
    {seen : s.Seen} (start : S seen w) (quiet : s.Quiet seen data) (some : ∃ m ∈ data, m.2.isObject) :
    Ends (fun _ => False) (populateMembers c refused w data) fun q => q.1 = false ∧ R q.2 := by
  induction data generalizing w seen with
  | nil =>
      obtain ⟨m, there, -⟩ := some
      cases there
  | cons m rest ih =>
      obtain ⟨silent, next⟩ := quiet
      rw [populateMembers_cons]
      cases object : m.2.isObject with
      | true =>
          apply (stages.object w seen m start silent object).bind
          rintro ⟨created, w₁⟩ ⟨done, later⟩
          cases done
          simp only [Bool.false_eq_true, if_false, again w₁ later]
          exact ⟨rfl, later⟩
      | false =>
          apply (stages.value w seen m start silent object).bind
          rintro ⟨created, w₁⟩ ⟨done, later⟩
          cases done
          refine ih later (next.resolve_left (by simp [object])) ?_
          simpa [object] using some

/-- What every member keeps there is at the end of the loop over the node's own JSON, or where
    a child is refused. -/
theorem populateOwn_stays
    (stays : ∀ w m, L w → Ends (fun _ => True) (populateMember c w m) fun q => L q.2)
    (turns i : Nat) (start : L w) :
    Ends (fun _ => True) (populateOwn c refused n turns i w) fun q =>
      q.1 = true ∧ L q.2 ∨ q.1 = false ∧ ∃ w₁, L w₁ ∧ refused w₁ = .ok q.2 := by
  induction turns generalizing i w with
  | zero =>
      rw [populateOwn]
      split
      · exact .inl ⟨rfl, start⟩
      · trivial
  | succ turns ih =>
      rw [populateOwn]
      split
      · exact .inl ⟨rfl, start⟩
      · apply (populateMembers_stays stays start).bind
        rintro ⟨created, w₁⟩ (⟨done, later⟩ | ⟨done, again⟩)
        · cases done
          exact ih (i + 1) later
        · cases done
          exact .inr ⟨rfl, again⟩

/-- A node which has stored something is listed by its parent in the end, whether or not it
    can be populated with what it has. -/
theorem repopulate_listed {T : World → Prop} (filled : ∀ w, L w → ¬(w.jsonOf n).isEmpty)
    (stays : ∀ w m, L w → Ends (fun _ => True) (populateMember c w m) fun q => L q.2)
    (adopts : ∀ w o, L w → T (w.adopt n o)) (depth : Nat) (start : L w) :
    Ends (fun _ => True) (repopulate c n depth w) T := by
  induction depth generalizing w with
  | zero =>
      rw [repopulate, if_neg (filled w start)]
      split <;> trivial
  | succ depth ih =>
      rw [repopulate, if_neg (filled w start)]
      split
      · trivial
      · apply (populateOwn_stays stays _ 0 start).bind
        rintro ⟨populated, w₁⟩ (⟨done, later⟩ | ⟨done, w₂, later, result⟩)
        · cases done
          exact adopts w₁ _ later
        · cases done
          exact (ih later).of_ok result

/-- A document which is refused quietly leaves the node without JSON, and nothing fails. -/
theorem Stages.refuses (stages : Stages c s S R L) (start : S s.none w)
    (bare : ∀ w, R w → (w.jsonOf n).isEmpty) (solid : (' ' : QChar) ∉ w.nameOf n)
    (quiet : s.RefusedQuietly data) :
    Ends (fun _ => False) (populateNode c w n data) fun q => q.1 = false ∧ R q.2 := by
  have again : ∀ w, R w → repopulate c n stackDepth w = .ok w := by
    intro w₁ later
    rw [stackDepth, repopulate, if_pos (bare w₁ later)]
    rfl
  rw [populateNode, if_neg solid]
  apply (stages.refusesMembers again start quiet.1 quiet.2).bind
  rintro ⟨populated, w₁⟩ ⟨done, later⟩
  cases done
  exact ⟨rfl, later⟩

/-- A node without a blank in its name is refused quietly or listed in the end. -/
theorem Stages.node {T : World → Prop} (stages : Stages c s S R L) (start : S s.none w)
    (bare : ∀ w, R w → (w.jsonOf n).isEmpty) (filled : ∀ w, L w → ¬(w.jsonOf n).isEmpty)
    (adopts : ∀ w o, (∃ seen, S seen w) ∨ L w → T (w.adopt n o)) :
    Ends (fun _ => True) (populateNode c w n data) fun q =>
      (' ' : QChar) ∈ w.nameOf n ∧ q.1 = false ∧ q.2 = w ∨
        (' ' : QChar) ∉ w.nameOf n ∧
          (s.RefusedQuietly data ∧ q.1 = false ∧ R q.2 ∨ ¬s.RefusedQuietly data ∧ T q.2) := by
  by_cases solid : (' ' : QChar) ∈ w.nameOf n
  · rw [populateNode_refused solid]
    exact .inl ⟨solid, rfl, rfl⟩
  by_cases quiet : s.RefusedQuietly data
  · apply (stages.refuses start bare solid quiet).of_any.mono
    exact fun q done => .inr ⟨solid, .inl ⟨quiet, done⟩⟩
  · rw [populateNode, if_neg solid]
    apply (stages.members start).bind
    rintro ⟨populated, w₁⟩
      (⟨done, -, later⟩ | ⟨done, w₂, result, ⟨silent, object, -⟩ | ⟨-, later⟩⟩)
    · cases done
      exact .inr ⟨solid, .inr ⟨quiet, adopts w₁ data later⟩⟩
    · exact absurd ⟨silent, object⟩ quiet
    · cases done
      have last := repopulate_listed filled stages.stays (fun w o here => adopts w o (.inr here))
        stackDepth later
      exact .inr ⟨solid, .inr ⟨quiet, last.of_ok result⟩⟩

end


/-! ## What the acts on the tree leave alone -/

/-- All nodes, and all remotes. -/
def everything : Scope := ⟨Set.univ, Set.univ⟩

theorem insert_ne_nil (o : QJsonObject) (k : QString) (v : QJsonValue) : o.insert k v ≠ [] := by
  intro empty
  have found := QJsonObject.value_insert_self o k v
  rw [empty] at found
  cases found

theorem putJson_filled {n p : NodeRef} (k : QString) (v : QJsonValue) (filled : w.json n ≠ []) :
    (w.putJson p k v).json n ≠ [] := by
  by_cases same : n = p
  · subst same
    simpa [putJson, setJson] using insert_ne_nil (w.json n) k v
  · simpa [putJson, setJson, same] using filled

theorem mirror_filled {n : NodeRef} (m : NodeRef) (ancestors : List NodeRef)
    (filled : w.json n ≠ []) : (w.mirror m ancestors).json n ≠ [] := by
  induction ancestors generalizing w m with
  | nil => exact filled
  | cons p rest ih => exact ih p (putJson_filled _ _ filled)

/-- After `setString` or `setNumber` there is something in the JSON. -/
theorem assign_filled (n : NodeRef) (k : QString) (same : QJsonValue → Bool) (v : QJsonValue) :
    (w.assign n k same v).2.json n ≠ [] := by
  unfold assign
  split
  · rename_i there
    intro empty
    rw [get, empty] at there
    cases there
  · refine mirror_filled _ _ ?_
    simpa [putJson, setJson] using insert_ne_nil _ k v

theorem mirror_subnodes (n : NodeRef) (ancestors : List NodeRef) :
    (w.mirror n ancestors).subnodes = w.subnodes := by
  obtain ⟨json, same, -⟩ := mirror_frame w n ancestors
  rw [same]

theorem assign_subnodes (n : NodeRef) (k : QString) (same : QJsonValue → Bool) (v : QJsonValue) :
    (w.assign n k same v).2.subnodes = w.subnodes := by
  unfold assign
  split
  · rfl
  · exact mirror_subnodes _ _

theorem addSubNode_subnodes (p n : NodeRef) :
    (w.addSubNode p n).subnodes = Function.update w.subnodes p (w.subnodes p ++ [n]) :=
  mirror_subnodes p p.ancestors

/-- Remotes are only dropped from their own list. -/
theorem Acts.subnodes {S : Scope} {p : NodeRef} (acts : Acts S w w') (other : p ≠ .remoteList) :
    w'.subnodes p = w.subnodes p := by
  refine acts.invariant (P := fun w' => w'.subnodes p = w.subnodes p) rfl fun w₁ w₂ same act => ?_
  rw [← same]
  cases act with
  | put inside writable => rfl
  | mirror inside => rw [updateParentJSon, mirror_subnodes]
  | @drop r r' driven gone found =>
      obtain ⟨json, removed, -⟩ := removeSubNode_frame w₁ .remoteList (.remote r')
      rw [RemoteList.drop, removed]
      exact Function.update_of_ne other _ _
  | aside same => rw [same.subnodes]

/-- Some JSON has been stored in a node, and the children of some others are as before. -/
structure Filled (n : NodeRef) (P : NodeRef → Prop) (w w' : World) : Prop where
  json : w'.json n ≠ []
  children : ∀ p, P p → w'.subnodes p = w.subnodes p

/-- The nodes which have virtual remotes as children. -/
def Holder (p : NodeRef) : Prop := p = .virtualNet ∨ ∃ g, p = .group g

theorem Holder.ne {p : NodeRef} (holder : Holder p) : p ≠ .remoteList ∧ ∀ v, p ≠ .vRemote v := by
  rcases holder with rfl | ⟨g, rfl⟩ <;> simp

/-- Nothing but the triggers of events has changed. -/
def OnlyTriggers (w w' : World) : Prop := ∃ T, w' = { w with triggers := T }

/-- A node which has JSON keeps some. -/
theorem Acts.filled {S : Scope} {n : NodeRef} (acts : Acts S w w') (other : n ≠ .remoteList)
    (filled : w.json n ≠ []) : w'.json n ≠ [] := by
  refine acts.invariant (P := fun w' => w'.json n ≠ []) filled fun w₁ w₂ filled act => ?_
  cases act with
  | put inside writable => exact putJson_filled _ _ filled
  | mirror inside => exact mirror_filled _ _ filled
  | @drop r r' driven gone found =>
      refine mirror_filled .remoteList (NodeRef.remoteList).ancestors ?_
      simpa [setSubnodes, setJson, other] using filled
  | aside same =>
      rw [same.json]
      exact filled

theorem Filled.acts {S : Scope} {n : NodeRef} {P : NodeRef → Prop} {w₀ : World}
    (h : Filled n P w₀ w) (acts : Acts S w w') (node : n ≠ .remoteList)
    (others : ∀ p, P p → p ≠ .remoteList) : Filled n P w₀ w' :=
  ⟨acts.filled node h.json, fun p here => (acts.subnodes (others p here)).trans (h.children p here)⟩

end World

/-! ## Events -/

namespace Event

/-- A text of a trigger which has been looked at before is stored, as are the texts of the
    trigger "any" and every definition which is accepted. -/
def storing (accepts : QString → Option Bool) : Storing where
  Seen := QStringList
  none := []
  see seen m :=
    match m.2 with
    | .array a => if arrayTexts a = [] then seen else m.1 :: seen
    | _ => seen
  Stores seen m :=
    match m.2 with
    | .array a =>
        arrayTexts a ≠ [] ∧ (m.1 = "any" ∨ m.1 ∈ seen ∨ 2 ≤ (arrayTexts a).length ∨
          ∃ t ∈ arrayTexts a, (accepts t).isSome)
    | _ => False

variable {v : VRef} {b : Button} {name : QString}

/-- A trigger which is there already, or an accepted definition, gives the event some JSON. -/
theorem addEvent_filled (d : QString)
    (stored : name = "any" ∨ ((w.triggers v b).find? name).isSome ∨ (w.accepts d).isSome) :
    (addEvent w v b d name).2.json (.event v b) ≠ [] := by
  have read : ∀ w : World, (readArray w (.event v b) name).2.json (.event v b) ≠ [] := by
    intro w
    rw [readArray]
    dsimp only
    split
    · rename_i there
      intro empty
      rw [empty] at there
      cases there
    · simpa [putJson, setJson] using insert_ne_nil _ name .null
  have set : ∀ (w : World) t, (setTrigger w v b name t).json = w.json := by
    intro w t
    unfold setTrigger
    split <;> rfl
  have put : ∀ (w : World) o,
      ((w.putJson (.event v b) name o).valueChanged (.event v b)).json (.event v b) ≠ [] := by
    intro w o
    refine mirror_filled _ _ ?_
    simpa [putJson, setJson] using insert_ne_nil _ name o
  unfold addEvent
  cases looked : eventByTrigger w v b name with
  | mk found w₁ =>
      cases found with
      | some t =>
          simp only [Option.isSome_some, if_true]
          split
          · exact put _ _
          · rw [set]
            exact read w₁
      | none =>
          -- There is no such trigger, so the definition must be accepted.
          obtain ⟨other, new, same⟩ : name ≠ "any" ∧ (w.triggers v b).find? name = none ∧ w₁ = w := by
            unfold eventByTrigger at looked
            split at looked
            · cases looked
            · split at looked
              · cases looked
                exact ⟨‹_›, ‹_›, rfl⟩
              · cases looked
          subst same
          have accepted : (w₁.accepts d).isSome :=
            (stored.resolve_left other).resolve_left (by simp [new])
          obtain ⟨hasCallback, found⟩ := Option.isSome_iff_exists.mp accepted
          simp only [Option.isSome_none, Bool.false_eq_true, if_false, found, EventTrigger.addEvent,
            if_true]
          exact put _ _

/-- A refused definition of a new trigger only registers the trigger. -/
theorem addEvent_quiet (other : name ≠ "any") (new : (w.triggers v b).find? name = none)
    {d : QString} (refused : w.accepts d = none) :
    ∃ T, (addEvent w v b d name).2 = { w with triggers := T } ∧
      ∀ k, (T v b).find? k = none ↔ k ≠ name ∧ (w.triggers v b).find? k = none := by
  have looked : eventByTrigger w v b name = (none, w) := by
    rw [eventByTrigger, if_neg other, new]
  have added : EventTrigger.addEvent ∅ (w.accepts d) d = (false, SortedMap.erase ∅ d) := by
    rw [refused]
    rfl
  rw [addEvent, looked]
  simp only [Option.isSome_none, Option.getD_none, Bool.false_eq_true, if_false, added]
  rw [setTrigger, if_neg other]
  refine ⟨_, rfl, fun k => ?_⟩
  simp only [Function.update_self]
  by_cases same : k = name
  · subst same
    simp
  · simp [same]

/-- Nothing is stored in the event so far; the triggers in the list are there. -/
structure Idle (w : World) (v : VRef) (b : Button) (seen : QStringList) (w' : World) : Prop where
  only : OnlyTriggers w w'
  seen : ∀ k, (w'.triggers v b).find? k = none ↔ k ∉ seen

theorem acts_parseArray (k : QString) (texts : QStringList) :
    Acts everything w (texts.foldl (fun w d => (addEvent w v b d k).2) w) :=
  Acts.foldl texts (fun _ d _ => acts_addEvent (Set.mem_univ _) d k) w

/-- A member of an event takes no JSON away. -/
theorem filled_member {n : NodeRef} {w₀ : World} (other : n ≠ .remoteList)
    (filled : Filled n Holder w₀ w) (m : QString × QJsonValue) :
    Ends (fun _ => True) (populateMember (nodeClass v b) w m) fun q => Filled n Holder w₀ q.2 :=
  populateMember_ends filled (fun _ => filled)
    (fun l => filled.acts (acts_parseArray m.1 l) other fun _ holder => holder.ne.1) fun _ => filled

/-- The texts of an array which is not stored. -/
theorem idle_array {seen : QStringList} (h : Idle w v b seen w') {k : QString} {a : QJsonArray}
    (quiet : ¬(storing w.accepts).Stores seen (k, .array a)) :
    Idle w v b ((storing w.accepts).see seen (k, .array a))
      ((arrayTexts a).foldl (fun w d => (addEvent w v b d k).2) w') := by
  obtain ⟨⟨T, rfl⟩, idle⟩ := h
  have silent : ¬(arrayTexts a ≠ [] ∧ (k = "any" ∨ k ∈ seen ∨ 2 ≤ (arrayTexts a).length ∨
    ∃ t ∈ arrayTexts a, (w.accepts t).isSome)) := quiet
  have see : (storing w.accepts).see seen (k, .array a) =
      if arrayTexts a = [] then seen else k :: seen := rfl
  rw [see]
  cases texts : arrayTexts a with
  | nil => exact ⟨⟨T, rfl⟩, idle⟩
  | cons t rest =>
      rw [texts] at silent
      simp only [ne_eq, reduceCtorEq, not_false_eq_true, true_and, not_or, not_exists, not_and,
        List.length_cons, List.mem_cons] at silent
      obtain ⟨other, new, short, refused⟩ := silent
      have last : rest = [] := List.length_eq_zero_iff.mp (by omega)
      subst last
      have unread : w.accepts t = none := by simpa using refused t (.inl rfl)
      obtain ⟨T', same, registered⟩ := addEvent_quiet (w := { w with triggers := T }) other
        ((idle k).mpr new) unread
      rw [List.foldl_cons, List.foldl_nil, same, if_neg (List.cons_ne_nil t [])]
      refine ⟨⟨T', rfl⟩, fun k' => (registered k').trans ?_⟩
      rw [List.mem_cons, not_or]
      exact and_congr_right fun _ => idle k'

/-- The texts of an array of which one is stored. -/
theorem filled_array {seen : QStringList} (h : Idle w v b seen w') {k : QString} {a : QJsonArray}
    (stored : (storing w.accepts).Stores seen (k, .array a)) :
    Filled (.event v b) Holder w
      ((arrayTexts a).foldl (fun w d => (addEvent w v b d k).2) w') := by
  obtain ⟨⟨T, rfl⟩, idle⟩ := h
  have some : arrayTexts a ≠ [] ∧ (k = "any" ∨ k ∈ seen ∨ 2 ≤ (arrayTexts a).length ∨
    ∃ t ∈ arrayTexts a, (w.accepts t).isSome) := stored
  -- A text which fills the event is followed by others, which leave it filled.
  have fills : ∀ (w₁ : World) t rest, w₁.subnodes = w.subnodes → (k = "any" ∨
      ((w₁.triggers v b).find? k).isSome ∨ (w₁.accepts t).isSome) → Filled (.event v b) Holder w
        ((t :: rest).foldl (fun w d => (addEvent w v b d k).2) w₁) := by
    intro w₁ t rest same loud
    have first : Filled (.event v b) Holder w (addEvent w₁ v b t k).2 := by
      have acts : Acts everything w₁ (addEvent w₁ v b t k).2 := acts_addEvent (Set.mem_univ _) t k
      exact ⟨addEvent_filled t loud,
        fun p holder => (acts.subnodes holder.ne.1).trans (congrFun same p)⟩
    exact first.acts (acts_parseArray k rest) (by simp) fun p holder => holder.ne.1
  cases texts : arrayTexts a with
  | nil => exact absurd texts some.1
  | cons t rest =>
      by_cases loud : k = "any" ∨ k ∈ seen ∨ (w.accepts t).isSome
      · refine fills _ t rest rfl (loud.imp_right (Or.imp_left fun member => ?_))
        exact Option.isSome_iff_ne_none.mpr fun absent => (idle k).mp absent member
      · obtain ⟨other, new, refused⟩ : k ≠ "any" ∧ k ∉ seen ∧ w.accepts t = none := by
          simpa [not_or] using loud
        obtain ⟨T', same, registered⟩ := addEvent_quiet (w := { w with triggers := T }) other
          ((idle k).mpr new) refused
        rw [List.foldl_cons, same]
        cases rest with
        | nil => simp [texts, other, new, refused] at some
        | cons t₂ rest =>
            refine fills _ t₂ rest rfl (.inr (.inl (Option.isSome_iff_ne_none.mpr fun absent => ?_)))
            exact ((registered k).mp absent).1 rfl

theorem stages : Stages (nodeClass v b) (storing w.accepts) (Idle w v b) (OnlyTriggers w)
    (Filled (.event v b) Holder w) where
  value := by
    rintro w₁ seen ⟨k, m⟩ idle quiet object
    cases m with
    | object o => cases object
    | null | bool b | string s | double d => exact ⟨rfl, idle⟩
    | array a => exact ⟨rfl, idle_array idle quiet⟩
  object := by
    rintro w₁ seen ⟨k, m⟩ idle quiet object
    cases m with
    | object o => exact ⟨rfl, idle.only⟩
    | null | bool b | string s | double d | array a => cases object
  loud := by
    rintro w₁ seen ⟨k, m⟩ idle stored
    cases m with
    | array a => exact filled_array idle stored
    | object o | null | bool b | string s | double d => exact stored.elim
  stays := fun w₁ m filled => filled_member (by simp) filled m

theorem filled_adopt {w₀ : World} (same : ∀ p, Holder p → w.subnodes p = w₀.subnodes p)
    (o : QJsonObject) : Filled (.vRemote v) Holder w₀ (w.adopt (.event v b) o) := by
  have adopt_eq : w.adopt (.event v b) o =
      (w.setJson (.event v b) o).addSubNode (.vRemote v) (.event v b) := rfl
  rw [adopt_eq]
  refine ⟨mirror_filled _ _ ?_, fun p holder => ?_⟩
  · rw [json_setSubnodes]
    simpa [putJson, setJson] using insert_ne_nil _ _ _
  · rw [addSubNode_subnodes]
    exact (Function.update_of_ne (holder.ne.2 v) _ _).trans (same p holder)

theorem idle_refl (new : w.triggers v b = ∅) : Idle w v b [] w := by
  refine ⟨⟨w.triggers, rfl⟩, fun k => ?_⟩
  simp [new]

theorem bare_of_onlyTriggers (bare : w.json (.event v b) = []) (only : OnlyTriggers w w') :
    (w'.jsonOf (.event v b)).isEmpty := by
  obtain ⟨T, rfl⟩ := only
  exact List.isEmpty_iff.mpr bare

/-- A new event refuses a document which stores nothing before its first object. -/
theorem refuses (bare : w.json (.event v b) = []) (new : w.triggers v b = ∅) {o : QJsonObject}
    (quiet : (storing w.accepts).RefusedQuietly o) :
    Ends (fun _ => False) (populateNode (nodeClass v b) w (.event v b) o) fun q =>
      q.1 = false ∧ OnlyTriggers w q.2 :=
  stages.refuses (n := .event v b) (idle_refl new) (fun _ => bare_of_onlyTriggers bare)
    (nodeName_solid b) quiet

/-- An event of a new virtual remote is refused quietly, or the remote has stored it. -/
theorem populate_outcome (bare : w.json (.event v b) = []) (new : w.triggers v b = ∅)
    (o : QJsonObject) :
    Ends (fun _ => True) (populateNode (nodeClass v b) w (.event v b) o) fun q =>
      (storing w.accepts).RefusedQuietly o ∧ q.1 = false ∧ OnlyTriggers w q.2 ∨
        ¬(storing w.accepts).RefusedQuietly o ∧ Filled (.vRemote v) Holder w q.2 := by
  apply (stages.node (T := Filled (.vRemote v) Holder w) (idle_refl new)
    (fun _ => bare_of_onlyTriggers bare) ?_ ?_).mono
  · rintro q (⟨space, -⟩ | ⟨-, outcome⟩)
    · exact absurd space (nodeName_solid b)
    · exact outcome
  · exact fun w₁ filled empty => filled.json (List.isEmpty_iff.mp empty)
  · rintro w₁ o' (⟨seen, ⟨T, rfl⟩, -⟩ | filled)
    · have same : ∀ p, Holder p → ({ w with triggers := T } : World).subnodes p = w.subnodes p :=
        fun _ _ => rfl
      exact filled_adopt same o'
    · exact filled_adopt filled.children o'

end Event

/-! ## Virtual remotes -/

namespace VirtualRemote

/-- The values which a virtual remote stores. Where a button goes down the buffer of its message
    is freed before it is read. -/
def StoresValue (member : Bool) (k text : QString) : Prop :=
  k ∈ (["Up", "Down", "Left", "Right", "Action"] : QStringList) ∧ (text = "up" ∨ text = "down") ∨
    k = "LED" ∧ (text.toInt?).isSome ∨ k = "State" ∨
      k = "remoteID" ∧ member = true ∧ (text.toInt?).isSome

/-- The text as which a value reaches `setValue`. -/
def valueText : QJsonValue → Option QString
  | .bool b => some (if b then "true" else "false")
  | .string s => some s
  | .double d => some (QString.ofDouble d)
  | _ => none

/-- An event is stored unless it is refused quietly. -/
def storing (accepts : QString → Option Bool) (member : Bool) : Storing where
  Seen := Unit
  none := ()
  see _ _ := ()
  Stores _ m :=
    match m.2 with
    | .object o =>
        (Button.ofNodeName? m.1).isSome ∧ ¬(Event.storing accepts).RefusedQuietly o
    | v => ∃ text, valueText v = some text ∧ StoresValue member m.1 text

variable {v : VRef}

/-- A value which is not stored changes nothing. -/
theorem setValue_quiet {k text : QString} (quiet : ¬StoresValue v.isMember k text) :
    Ends (fun _ => False) (setValue w v k text) fun q => q.2 = w := by
  simp only [StoresValue, not_or, not_and] at quiet
  obtain ⟨buttons, led, state, remoteID⟩ := quiet
  rw [setValue]
  split
  · rename_i button
    obtain ⟨up, down⟩ := buttons button
    rw [if_neg down, if_pos up]
    rfl
  · split
    · rename_i name
      have unread : text.toInt? = none := Option.not_isSome_iff_eq_none.mp (led name)
      rw [unread]
      rfl
    · split
      · rename_i own
        have unread : text.toInt? = none := Option.not_isSome_iff_eq_none.mp (remoteID own.1 own.2)
        rw [unread]
        rfl
      · rfl

/-- A value which is stored is in the JSON. -/
theorem setValue_stored {k text : QString} (stores : StoresValue v.isMember k text) :
    Ends (fun _ => True) (setValue w v k text) fun q => q.2.json (.vRemote v) ≠ [] := by
  have triggered : ∀ e data, Ends (fun _ => True) (fastTrigger w v e data) fun q =>
      q.2.json (.vRemote v) ≠ [] := by
    intro e data
    rw [fastTrigger]
    split
    · exact Ends.bind (M := fun _ => True) (ends_whenever.mpr fun _ _ => trivial)
        fun w' _ => assign_filled _ _ _ _
    · split
      · exact assign_filled _ _ _ _
      · trivial
  rw [setValue]
  split
  · rename_i button
    have known : text = "up" ∨ text = "down" := by
      rcases stores with ⟨-, known⟩ | ⟨rfl, -⟩ | rfl | ⟨rfl, -⟩
      · exact known
      · exact absurd button (by decide)
      · exact absurd button (by decide)
      · exact absurd button (by decide)
    split
    · trivial
    · rename_i noDown
      rw [if_neg (not_not.mpr (known.resolve_right noDown))]
      exact triggered _ _
  · rename_i noButton
    split
    · rename_i led
      split
      · rename_i unread
        subst led
        rcases stores with ⟨button, -⟩ | ⟨-, number⟩ | state | ⟨remoteID, -⟩
        · exact absurd button noButton
        · rw [unread] at number
          cases number
        · exact absurd state (by decide)
        · exact absurd remoteID (by decide)
      · exact triggered _ _
    · rename_i noLed
      split
      · exact Ends.bind (M := fun _ => True) (ends_whenever.mpr fun _ _ => trivial)
          fun p _ => assign_filled _ _ _ _
      · rename_i noState
        obtain ⟨remoteID, member, number⟩ := ((stores.resolve_left fun here => noButton here.1).resolve_left
          fun here => noLed here.1).resolve_left noState
        obtain ⟨n, read⟩ := Option.isSome_iff_exists.mp number
        rw [if_pos ⟨remoteID, member⟩, read]
        have updated := acts_updateVirtualRemote (S := everything) (v := v)
          (w := (w.setNumber (.vRemote v) k (Byte.ofInt n).val).2) (Set.mem_univ _)
        apply updated.bind
        exact fun w' acts => acts.filled (by simp) (assign_filled _ _ _ _)

theorem changes_setValue (k text : QString) :
    Ends (fun _ => True) (setValue w v k text) fun q => Acts everything w q.2 :=
  acts_setValue (Set.mem_univ _) fun _ _ _ => ⟨Set.mem_univ _, Set.mem_univ _⟩

theorem filled_member {w₀ : World} (filled : Filled (.vRemote v) Holder w₀ w)
    (m : QString × QJsonValue) : Ends (fun _ => True) (populateMember (nodeClass v) w m) fun q =>
      Filled (.vRemote v) Holder w₀ q.2 := by
  refine populateMember_ends filled (fun o => ?_) (fun l => filled) fun text => ?_
  · dsimp only [nodeClass, createSubNode]
    split
    · exact filled
    · rename_i b found
      apply populateNode_keeps (I := Filled (.vRemote v) Holder w₀) ?_ ?_ trivial trivial filled
      · exact fun w₁ m' here => Event.filled_member (by simp) here m'
      · exact fun w₁ o' here => Event.filled_adopt here.children o'
  · exact (changes_setValue m.1 text).mono fun q acts =>
      filled.acts acts (by simp) fun p holder => holder.ne.1

/-- A virtual remote without JSON whose events are new. -/
structure Fresh (w : World) (v : VRef) : Prop where
  json : w.json (.vRemote v) = []
  events : ∀ b, w.json (.event v b) = []
  triggers : ∀ b, w.triggers v b = ∅

theorem stages (fresh : Fresh w v) :
    Stages (nodeClass v) (storing w.accepts v.isMember) (fun _ w' => w' = w) (OnlyTriggers w)
      (Filled (.vRemote v) Holder w) where
  value := by
    rintro w₁ seen ⟨k, m⟩ rfl quiet object
    have value : ∀ text, valueText m = some text → ¬StoresValue v.isMember k text →
        Ends (fun _ => False) (setValue w₁ v k text >>= fun q => pure (true, q.2))
          fun q => q.1 = true ∧ q.2 = w₁ := by
      intro text _ quiet
      exact (setValue_quiet quiet).bind fun q same => ⟨rfl, same⟩
    cases m with
    | object o => cases object
    | null => exact ⟨rfl, rfl⟩
    | array a => exact ⟨rfl, rfl⟩
    | bool b => exact value _ rfl fun stores => quiet ⟨_, rfl, stores⟩
    | string s => exact value _ rfl fun stores => quiet ⟨_, rfl, stores⟩
    | double d => exact value _ rfl fun stores => quiet ⟨_, rfl, stores⟩
  object := by
    rintro w₁ seen ⟨k, m⟩ rfl quiet object
    cases m with
    | null | bool b | string s | double d | array a => cases object
    | object o =>
        rw [populateMember]
        dsimp only [nodeClass, createSubNode]
        split
        · exact ⟨rfl, w₁.triggers, rfl⟩
        · rename_i b found
          have silent : (Event.storing w₁.accepts).RefusedQuietly o := by
            by_contra stores
            exact quiet ⟨by rw [found]; rfl, stores⟩
          exact Event.refuses (fresh.events b) (fresh.triggers b) silent
  loud := by
    rintro w₁ seen ⟨k, m⟩ rfl stored
    have value : ∀ text, (∃ text', valueText m = some text' ∧ StoresValue v.isMember k text') →
        valueText m = some text →
        Ends (fun _ => True) (setValue w₁ v k text >>= fun q => pure (true, q.2))
          fun q => Filled (.vRemote v) Holder w₁ q.2 := by
      rintro text ⟨text', read', stores⟩ read
      cases read.symm.trans read'
      apply ((setValue_stored stores).and (changes_setValue k text)).bind
      exact fun q done => ⟨done.1, fun p holder => done.2.subnodes holder.ne.1⟩
    cases m with
    | null | array a =>
        obtain ⟨text, read, -⟩ := stored
        cases read
    | bool b => exact value _ stored rfl
    | string s => exact value _ stored rfl
    | double d => exact value _ stored rfl
    | object o =>
        obtain ⟨isEvent, loud⟩ := stored
        obtain ⟨b, found⟩ := Option.isSome_iff_exists.mp isEvent
        rw [populateMember]
        dsimp only [nodeClass, createSubNode]
        rw [found]
        apply (Event.populate_outcome (fresh.events b) (fresh.triggers b) o).mono
        rintro q (⟨quiet, -⟩ | ⟨-, filled⟩)
        · exact absurd quiet loud
        · exact filled
  stays := fun w₁ m filled => filled_member filled m

/-- The virtual remote is listed by its parent, and nothing else is by any holder. -/
structure Listed (w : World) (v : VRef) (w' : World) : Prop where
  own : w'.subnodes (parent v) = w.subnodes (parent v) ++ [.vRemote v]
  others : ∀ p, Holder p → p ≠ parent v → w'.subnodes p = w.subnodes p
  entry : (w'.json (parent v)).contains (w'.vRemoteName v)

theorem Listed.json (h : Listed w v w') : w'.json (parent v) ≠ [] := by
  intro empty
  have entry := h.entry
  rw [empty] at entry
  cases entry

theorem holder_parent (v : VRef) : Holder (parent v) := by
  cases v with
  | free n => exact .inl rfl
  | member g n => exact .inr ⟨g, rfl⟩

theorem listed_adopt {w₀ : World} (same : ∀ p, Holder p → w.subnodes p = w₀.subnodes p)
    (o : QJsonObject) : Listed w₀ v (w.adopt (.vRemote v) o) := by
  rw [adopt_eq]
  refine ⟨?_, fun p holder other => ?_, ?_⟩
  · rw [addSubNode_subnodes, Function.update_self]
    exact congrArg (· ++ _) (same _ (holder_parent v))
  · rw [addSubNode_subnodes]
    exact (Function.update_of_ne other _ _).trans (same p holder)
  · obtain ⟨json, listed, own, -⟩ :=
      addSubNode_frame (w.setJson (.vRemote v) o) (parent v) (.vRemote v)
    rw [listed]
    dsimp only
    rw [own]
    exact Option.isSome_iff_exists.mpr ⟨_, QJsonObject.value_insert_self _ _ _⟩

theorem bare_of_onlyTriggers (fresh : Fresh w v) (only : OnlyTriggers w w') :
    (w'.jsonOf (.vRemote v)).isEmpty := by
  obtain ⟨T, rfl⟩ := only
  exact List.isEmpty_iff.mpr fresh.json

/-- A new virtual remote refuses a document which stores nothing before its first object. -/
theorem refuses (fresh : Fresh w v) (solid : (' ' : QChar) ∉ w.vRemoteName v) {data : QJsonObject}
    (quiet : (storing w.accepts v.isMember).RefusedQuietly data) :
    Ends (fun _ => False) (populateNode (nodeClass v) w (.vRemote v) data) fun q =>
      q.1 = false ∧ OnlyTriggers w q.2 :=
  (stages fresh).refuses (n := .vRemote v) (rfl : w = w) (fun _ => bare_of_onlyTriggers fresh) solid
    quiet

/-- A new virtual remote whose name has no blank is refused quietly or listed in the end. -/
theorem populate_outcome (fresh : Fresh w v) (data : QJsonObject) :
    Ends (fun _ => True) (populateNode (nodeClass v) w (.vRemote v) data) fun q =>
      (' ' : QChar) ∈ w.vRemoteName v ∧ q.1 = false ∧ q.2 = w ∨
        (' ' : QChar) ∉ w.vRemoteName v ∧
          ((storing w.accepts v.isMember).RefusedQuietly data ∧ q.1 = false ∧ OnlyTriggers w q.2 ∨
            ¬(storing w.accepts v.isMember).RefusedQuietly data ∧ Listed w v q.2) := by
  apply (stages fresh).node (T := Listed w v) (rfl : w = w) (fun _ => bare_of_onlyTriggers fresh)
  · exact fun w₁ filled empty => filled.json (List.isEmpty_iff.mp empty)
  · rintro w₁ o (⟨seen, rfl⟩ | filled)
    · exact listed_adopt (fun _ _ => rfl) o
    · exact listed_adopt filled.children o

end VirtualRemote

end VoxPopuli
