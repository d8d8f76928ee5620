import VoxPopuli.Model.Drafts

/-! # Loading a group safely

A group which the virtual network creates from a document uses its list of avatars and its
global remote while it is loaded, and with every button and every change of the patch after
that. Whether this stays inside the list, off null pointers and off deleted objects can be seen
in the draft of the document.
-/

namespace VoxPopuli

open World

variable {w w' : World} {g : Nat}

namespace VirtualGroup

/-! ## Groups in use -/

/-- There is a global remote, and no gap in the list of avatars. -/
def Seated (w : World) (g : Nat) : Prop :=
  (w.globalRemote g).isSome ∧ none ∉ w.virtualRemotes g

theorem Seated.congr (seated : Seated w g) (globalRemote : w'.globalRemote g = w.globalRemote g)
    (virtualRemotes : w'.virtualRemotes g = w.virtualRemotes g) : Seated w' g := by
  rw [Seated, globalRemote, virtualRemotes]
  exact seated

theorem updated (v : VRef) :
    Ends (· = .deadlock) (VirtualRemote.updateVirtualRemote w v) (Acts everything w) :=
  (VirtualRemote.deadlock_updateVirtualRemote w v).join
    (VirtualRemote.acts_updateVirtualRemote trivial)

theorem updateVirtualRemotes_seated (seated : Seated w g) :
    Ends (· = .deadlock) (updateVirtualRemotes w g) fun _ => True := by
  obtain ⟨v, found⟩ := Option.isSome_iff_exists.mp seated.1
  rw [updateVirtualRemotes, found]
  apply (updated v).bind
  intro w₁ done
  rw [done.elements.virtualRemotes]
  let I : List (Option VRef) → World → Prop := fun rest _ => none ∉ rest
  refine (Ends.foldlM (I := I) seated.2 ?_).mono fun _ _ => trivial
  intro r rest w₂ full
  have taken : r ≠ none := fun gap => full (gap ▸ List.mem_cons_self)
  obtain ⟨v, rfl⟩ := Option.ne_none_iff_exists'.mp taken
  exact (updated v).mono fun _ _ gap => full (List.mem_cons_of_mem _ gap)

/-- A gap is met by the loop over the avatars. -/
theorem foldlM_gap {l : List (Option VRef)} (gap : none ∈ l) (w : World) :
    Ends (fun _ => True) (l.foldlM (fun w r =>
      match r with
      | none => throw .nullPointer
      | some v => VirtualRemote.updateVirtualRemote w v) w) fun _ => False := by
  induction l generalizing w with
  | nil => cases gap
  | cons r rest ih =>
      rw [List.foldlM_cons]
      cases r with
      | none => trivial
      | some v =>
          have later : none ∈ rest := (List.mem_cons.mp gap).resolve_left (by simp)
          exact (updated v).of_any.bind fun w₁ _ => ih later w₁

theorem updateVirtualRemotes_unseated (unseated : ¬Seated w g) :
    Ends (fun _ => True) (updateVirtualRemotes w g) fun _ => False := by
  rw [updateVirtualRemotes]
  cases found : w.globalRemote g with
  | none => trivial
  | some v =>
      have gap : none ∈ w.virtualRemotes g := by
        by_contra full
        exact unseated ⟨by rw [found]; rfl, full⟩
      apply (updated v).of_any.bind
      intro w₁ done
      rw [done.elements.virtualRemotes]
      exact foldlM_gap gap w₁

theorem refreshSlaves_elements (w : World) (g : Nat) : SameElements w (refreshSlaves w g) :=
  (acts_refreshSlaves (S := everything) trivial).elements

theorem updateFromPatch_seated (seated : Seated w g) :
    Ends (· = .deadlock) (updateFromPatch w g) fun _ => True := by
  have same := refreshSlaves_elements w g
  exact updateVirtualRemotes_seated
    (seated.congr (congrFun same.globalRemote g) (congrFun same.virtualRemotes g))

theorem updateFromPatch_unseated (unseated : ¬Seated w g) :
    Ends (fun _ => True) (updateFromPatch w g) fun _ => False := by
  have same := refreshSlaves_elements w g
  refine updateVirtualRemotes_unseated fun seated => unseated ?_
  exact seated.congr (congrFun same.globalRemote g).symm (congrFun same.virtualRemotes g).symm

theorem fastTrigger_seated (seated : Seated w g) (rName : QString) {e : FTriggerEvent}
    (button : e.toNat < 5) (data : HexData) :
    Ends (· = .deadlock) (fastTrigger w g rName e data) fun _ => True := by
  have triggered : ∀ (w : World) v, Ends (· = .deadlock) (VirtualRemote.fastTrigger w v e data)
      fun q => Acts everything w q.2 := by
    intro w v
    have inside : .vRemote v ∈ everything.nodes := trivial
    have drives : ∀ r, everything.Drives r := fun _ => ⟨trivial, trivial⟩
    exact (VirtualRemote.deadlock_fastTrigger w v (.inr button) data).join
      (VirtualRemote.acts_fastTrigger inside (fun _ r _ => drives r) data)
  rw [fastTrigger]
  split
  · trivial
  · rename_i id found
    have avatars : Ends (· = .deadlock) ((w.virtualRemotes g).foldlM (triggerAvatar id e data) w)
        fun w' => w'.globalRemote = w.globalRemote := by
      let I : List (Option VRef) → World → Prop :=
        fun rest w' => none ∉ rest ∧ w'.globalRemote = w.globalRemote
      refine (Ends.foldlM (I := I) ⟨seated.2, rfl⟩ ?_).mono fun _ done => done.2
      rintro r rest w₁ ⟨full, same⟩
      have taken : r ≠ none := fun gap => full (gap ▸ List.mem_cons_self)
      have later : none ∉ rest := fun gap => full (List.mem_cons_of_mem _ gap)
      obtain ⟨v, rfl⟩ := Option.ne_none_iff_exists'.mp taken
      rw [triggerAvatar]
      split
      · exact (triggered w₁ v).bind fun q done => ⟨later, done.elements.globalRemote.trans same⟩
      · exact ⟨later, same⟩
    apply avatars.bind
    intro w₁ same
    obtain ⟨v, there⟩ := Option.isSome_iff_exists.mp seated.1
    rw [same, there]
    exact (triggered w₁ v).bind fun _ _ => trivial

/-- What may come later: a button of a remote, a change of the links, and whatever leaves the
    avatars and the global remote of the group alone. -/
inductive Later (g : Nat) (w w' : World) : Prop
  | button {rName : QString} {e : FTriggerEvent} {data : HexData} (button : e.toNat < 5)
      (run : fastTrigger w g rName e data = .ok w')
  | update (run : updateFromPatch w g = .ok w')
  | aside (globalRemote : w'.globalRemote g = w.globalRemote g)
      (virtualRemotes : w'.virtualRemotes g = w.virtualRemotes g)

theorem Seated.later (seated : Seated w g) (later : Later g w w') : Seated w' g := by
  have members : ∀ v, Member w g v → .vRemote v ∈ everything.nodes := fun _ _ => trivial
  have inside : .group g ∈ everything.nodes := trivial
  have kept : Acts everything w w' → Seated w' g := fun acts =>
    seated.congr (congrFun acts.elements.globalRemote g) (congrFun acts.elements.virtualRemotes g)
  cases later with
  | @button rName e data button run =>
      have drives : ∀ r, everything.Drives r := fun _ => ⟨trivial, trivial⟩
      exact kept ((acts_fastTrigger members (fun _ r _ => drives r) rName data).of_ok run)
  | update run => exact kept ((acts_updateFromPatch members inside).of_ok run)
  | aside globalRemote virtualRemotes => exact seated.congr globalRemote virtualRemotes

theorem Seated.run (seated : Seated w g) (run : Relation.ReflTransGen (Later g) w w') :
    Seated w' g := by
  induction run with
  | refl => exact seated
  | tail _ later ih => exact ih.later later


/-- A group which has all of its virtual remotes can be used from then on. -/
theorem Seated.lasting (seated : Seated w g) (later : Relation.ReflTransGen (Later g) w w') :
    Ends (· = .deadlock) (updateFromPatch w' g) (fun _ => True) ∧
      ∀ rName (e : FTriggerEvent) data, e.toNat < 5 →
        Ends (· = .deadlock) (fastTrigger w' g rName e data) fun _ => True :=
  ⟨updateFromPatch_seated (seated.run later), fun rName _ data button =>
    fastTrigger_seated (seated.run later) rName button data⟩

/-! ## Whole documents -/

/-- The document leads neither outside the list of avatars nor to a null pointer or something
    which has been deleted. -/
def SafeDocument (accepts : QString → Option Bool) (data : QJsonObject) : Prop :=
  match ({} : Draft).members (parts accepts data) with
  | none => False
  | some (true, d) => d.globalRemote = true ∧ none ∉ d.virtualRemotes
  | some (false, d) => d.Retries

/-- A new group has nothing yet. -/
theorem loading_create (w : World) (name : QString) :
    Loading (create w w.fresh name) w.fresh := by
  have json : (create w w.fresh name).json (.group w.fresh) = [] := Function.update_self _ _ _
  have subnodes : (create w w.fresh name).subnodes (.group w.fresh) = [] :=
    Function.update_self _ _ _
  have avatars : (create w w.fresh name).virtualRemotes w.fresh = [] := Function.update_self _ _ _
  refine ⟨?_, ?_, ?_, ?_, ?_⟩
  · exact json ▸ .nil
  · simp [json]
  · simp [subnodes]
  · simp [json]
  · simp [avatars]

theorem draft_create (w : World) (name : QString) :
    draft (create w w.fresh name) w.fresh = {} := by
  simp [draft, create, QJsonObject.keys]

/-- Populating a new group: a safe document leaves every avatar and the global remote in their
    places if it is accepted; another one is not survived, or leaves a gap. -/
theorem populateNode_drafted (h : Loading w g) (new : draft w g = {})
    (solid : (' ' : QChar) ∉ w.groupName g) (data : QJsonObject) :
    (SafeDocument w.accepts data → Ends (· = .deadlock)
      (populateNode (nodeClass g) w (.group g) data) fun q => q.1 = true → Seated q.2 g) ∧
    (¬SafeDocument w.accepts data → Ends (fun _ => True)
      (populateNode (nodeClass g) w (.group g) data) fun q => q.1 = true ∧ ¬Seated q.2 g) := by
  have named : w.nameOf (.group g) = w.groupName g := rfl
  have members := members_drafted h data
  rw [populateNode, named, if_neg solid, SafeDocument]
  rw [new] at members
  -- The lists are not touched when the group is listed by the virtual network.
  have adopted : ∀ w₁ : World, Seated (w₁.adopt (.group g) data) g ↔
      (draft w₁ g).globalRemote = true ∧ none ∉ (draft w₁ g).virtualRemotes := by
    intro w₁
    obtain ⟨json, same, -⟩ :=
      addSubNode_frame (w₁.setJson (.group g) data) .virtualNet (.group g)
    have adopt_eq : w₁.adopt (.group g) data =
        (w₁.setJson (.group g) data).addSubNode .virtualNet (.group g) := rfl
    rw [adopt_eq, same]
    simp [Seated, draft, setJson]
  cases run : ({} : Draft).members (parts w.accepts data) with
  | none =>
      rw [run] at members
      refine ⟨False.elim, fun _ => ?_⟩
      apply members.of_any.bind
      rintro q ⟨contra, -⟩
      exact contra.elim
  | some q =>
      obtain ⟨accepted, d⟩ := q
      rw [run] at members
      cases accepted with
      | true =>
          refine ⟨fun safe => ?_, fun never => ?_⟩
          · apply (members.mono_err fun f => (Or.resolve_right · (not_not.mpr trivial))).bind
            rintro ⟨populated, w₁⟩ ⟨-, d', same, drafted⟩
            cases same
            exact fun _ => (adopted w₁).mpr ((drafted rfl).draft ▸ safe)
          · apply members.of_any.bind
            rintro ⟨populated, w₁⟩ ⟨-, d', same, drafted⟩
            cases same
            exact ⟨rfl, fun seated => never ((drafted rfl).draft ▸ (adopted w₁).mp seated)⟩
      | false =>
          refine ⟨fun safe => ?_, fun never => ?_⟩
          · apply (members.mono_err fun f => (Or.resolve_right · (not_not.mpr safe))).bind
            rintro ⟨populated, w₁⟩ ⟨-, d', same, -⟩
            cases same
            exact fun contra => absurd contra Bool.false_ne_true
          · apply members.of_any.bind
            rintro q ⟨survives, -⟩
            exact absurd survives never

end VirtualGroup

/-! ## The mutex

Whatever becomes of a document, only a mutex which was held before can stop its loading. -/

/-- What may change where any virtual remote is populated. -/
def anywhere : Footprint := ⟨Set.univ, Set.univ, Set.univ, Set.univ, Set.univ⟩

theorem Event.keeps_populateNode (w : World) (v : VRef) (b : Button) (o : QJsonObject) :
    Ends w.MayFail (populateNode (nodeClass v b) w (.event v b) o) fun q =>
      Keeps anywhere w q.2 := by
  have events : v ∈ anywhere.notified := trivial
  apply populateNode_keeps (I := Keeps anywhere w) ?_ ?_ (mayFail_of_ne (by decide))
    (mayFail_of_ne (by decide)) (.refl _ w)
  · intro w₁ m kept
    refine populateMember_ends kept (fun o => kept) (fun l => ?_) fun text => kept
    exact kept.trans (Keeps.foldl l (fun w d _ => keeps_addEvent events events b d m.1) w₁)
  · exact fun w₁ o kept => kept.trans (keeps_adopt events b o)

theorem VirtualRemote.keeps_populateNode (w : World) (v : VRef) (data : QJsonObject) :
    Ends w.MayFail (populateNode (nodeClass v) w (.vRemote v) data) fun q =>
      Keeps anywhere w q.2 := by
  have remotes : v ∈ anywhere.notified := trivial
  apply populateNode_keeps (I := Keeps anywhere w) ?_ ?_ (mayFail_of_ne (by decide))
    (mayFail_of_ne (by decide)) (.refl _ w)
  · intro w₁ m kept
    refine populateMember_ends kept (fun o => ?_) (fun l => kept) fun text => ?_
    · dsimp only [nodeClass, createSubNode]
      split
      · exact kept
      · rename_i b found
        exact (kept.ends (Event.keeps_populateNode w₁ v b o)).mono fun q => kept.trans
    · exact (kept.ends (keeps_setValue remotes remotes m.1 text)).mono fun q => kept.trans
  · exact fun w₁ o kept => kept.trans (keeps_adopt remotes remotes remotes o)

namespace VirtualGroup

theorem mayFail_congr {α : Type} {x : Except Fault α} {post : α → Prop}
    (same : w'.mutex = w.mutex) (h : Ends w'.MayFail x post) : Ends w.MayFail x post :=
  h.mono_err fun _ failed deadlock => same ▸ failed deadlock

theorem mutex_createSubNode (w : World) (g : Nat) (name : QString) (data : QJsonObject) :
    Ends w.MayFail (createSubNode w g name data) fun q => q.2.mutex = w.mutex := by
  let v := VRef.member g w.fresh
  have populated := VirtualRemote.keeps_populateNode (VirtualRemote.create w v name) v data
  rw [createSubNode]
  split
  · apply populated.bind
    rintro ⟨accepted, w₁⟩ kept
    have created : w₁.mutex = (VirtualRemote.create w v name).mutex :=
      congrArg Roster.mutex kept.roster
    have same : w₁.mutex = w.mutex := created
    dsimp only
    split
    · exact same
    · split
      · exact same
      · split
        · exact same
        · unfold setVirtualRemote
          split
          · exact same
          · exact mayFail_of_ne (by decide)
  · rfl

theorem mutex_addVirtualRemotes (nbr : Int) (delta : Nat) (w : World) :
    Ends w.MayFail (addVirtualRemotes w g nbr delta) fun w' => w'.mutex = w.mutex := by
  induction delta generalizing w with
  | zero => rfl
  | succ delta ih =>
      rw [addVirtualRemotes]
      apply (mutex_createSubNode w g _ _).bind
      exact fun q same => (mayFail_congr same (ih q.2)).mono fun w' later => later.trans same

theorem mutex_removeVirtualRemotes (delta : Nat) (w : World) :
    Ends w.MayFail (removeVirtualRemotes w g delta) fun w' => w'.mutex = w.mutex := by
  induction delta generalizing w with
  | zero => rfl
  | succ delta ih =>
      rw [removeVirtualRemotes]
      split
      · exact mayFail_of_ne (by decide)
      · exact mayFail_of_ne (by decide)
      · rename_i v last
        have same : (w.removeSubNode (.group g) (.vRemote v)).mutex = w.mutex := by
          obtain ⟨json, removed, -⟩ := removeSubNode_frame w (.group g) (.vRemote v)
          rw [removed]
        have rest := ih { w.removeSubNode (.group g) (.vRemote v) with
          virtualRemotes := Function.update (w.removeSubNode (.group g) (.vRemote v)).virtualRemotes g
            ((w.removeSubNode (.group g) (.vRemote v)).virtualRemotes g).dropLast }
        exact (mayFail_congr same rest).mono fun w' later => later.trans same

theorem mutex_setValue (w : World) (k text : QString) :
    Ends w.MayFail (setValue w g k text) fun q => q.2.mutex = w.mutex := by
  rw [setValue]
  split
  · split
    · rfl
    · rename_i nbr read
      have resized : Ends w.MayFail (setVirtualRemotesNbr w g nbr) fun w' => w'.mutex = w.mutex := by
        rw [setVirtualRemotesNbr]
        split
        · rfl
        · dsimp only
          split
          · exact mutex_addVirtualRemotes nbr _ w
          · exact mutex_removeVirtualRemotes _ w
      apply resized.bind
      intro w' same
      obtain ⟨json, stored⟩ := w'.setNumber_frame (.group g) k nbr
      exact (congrArg (·.mutex) stored).trans same
  · rfl

theorem mutex_populateNode (w : World) (g : Nat) (data : QJsonObject) :
    Ends w.MayFail (populateNode (nodeClass g) w (.group g) data) fun q =>
      q.2.mutex = w.mutex := by
  apply populateNode_keeps (I := fun w' => w'.mutex = w.mutex) ?_ ?_ (mayFail_of_ne (by decide))
    (mayFail_of_ne (by decide)) rfl
  · intro w₁ m same
    refine populateMember_ends (I := fun w' => w'.mutex = w.mutex) same (fun o => ?_)
      (fun l => same) fun text => ?_
    · exact (mayFail_congr same (mutex_createSubNode w₁ g m.1 o)).mono fun q later => later.trans same
    · exact (mayFail_congr same (mutex_setValue w₁ m.1 text)).mono fun q later => later.trans same
  · intro w₁ o same
    obtain ⟨json, listed, -⟩ := addSubNode_frame (w₁.setJson (.group g) o) .virtualNet (.group g)
    have adopt_eq : w₁.adopt (.group g) o =
        (w₁.setJson (.group g) o).addSubNode .virtualNet (.group g) := rfl
    rw [adopt_eq, listed]
    exact same

end VirtualGroup

namespace VirtualNetwork

/-- Loading a group fails in whatever way, but it deadlocks only if the mutex was held. -/
theorem mayFail_createSubNode (w : World) (name : QString) {data : QJsonObject}
    (group : data.contains "GlobalRemote") :
    Ends w.MayFail (createSubNode w name data) fun _ => True := by
  have populated := VirtualGroup.mutex_populateNode (VirtualGroup.create w w.fresh name) w.fresh data
  rw [createSubNode, if_pos group]
  apply populated.bind
  rintro ⟨accepted, w₁⟩ same
  have same : w₁.mutex = w.mutex := same
  cases accepted with
  | false => trivial
  | true =>
      have updated := VirtualGroup.keeps_updateFromPatch (F := anywhere) (g := w.fresh)
        (w := { w₁ with vGroups := w₁.vGroups ++ [w.fresh] }) (fun _ _ => trivial) trivial
      exact (VirtualGroup.mayFail_congr same updated).bind fun w₂ _ => trivial

theorem createSubNode_group (w : World) (name : QString) {data : QJsonObject}
    (group : data.contains "GlobalRemote") :
    createSubNode w name data = (do
      let q ← World.populateNode (VirtualGroup.nodeClass w.fresh)
        (VirtualGroup.create w w.fresh name) (.group w.fresh) data
      if !q.1 then pure (false, q.2.clearJsonData (.group w.fresh))
      else do
        let w' ← VirtualGroup.updateFromPatch { q.2 with vGroups := q.2.vGroups ++ [w.fresh] } w.fresh
        pure (true, w')) := if_pos group

/-- A group is not even populated under a name with a blank. -/
theorem createSubNode_blank {name : QString} {data : QJsonObject}
    (group : data.contains "GlobalRemote") (space : (' ' : QChar) ∈ name) :
    createSubNode w name data =
      .ok (false, (VirtualGroup.create w w.fresh name).clearJsonData (.group w.fresh)) := by
  have own : (VirtualGroup.create w w.fresh name).nameOf (.group w.fresh) = name :=
    Function.update_self _ _ _
  rw [createSubNode_group w name group, populateNode_refused (own.symm ▸ space)]
  rfl

/-- A safe document leaves a group with all of its virtual remotes, if it is accepted. -/
theorem createSubNode_keeps {name : QString} {data : QJsonObject}
    (group : data.contains "GlobalRemote") (solid : (' ' : QChar) ∉ name)
    (safe : VirtualGroup.SafeDocument w.accepts data) :
    Ends (· = .deadlock) (createSubNode w name data) fun q =>
      q.1 = true → VirtualGroup.Seated q.2 w.fresh := by
  have own : (VirtualGroup.create w w.fresh name).groupName w.fresh = name :=
    Function.update_self _ _ _
  have populated := (VirtualGroup.populateNode_drafted (VirtualGroup.loading_create w name)
    (VirtualGroup.draft_create w name) (own.symm ▸ solid) data).1 safe
  rw [createSubNode_group w name group]
  apply populated.bind
  rintro ⟨accepted, w₁⟩ seated
  cases accepted with
  | false => exact fun contra => absurd contra Bool.false_ne_true
  | true =>
      have listed : VirtualGroup.Seated { w₁ with vGroups := w₁.vGroups ++ [w.fresh] } w.fresh :=
        seated rfl
      have kept : Ends (fun _ => True) (VirtualGroup.updateFromPatch
          { w₁ with vGroups := w₁.vGroups ++ [w.fresh] } w.fresh) fun w₂ =>
            VirtualGroup.Seated w₂ w.fresh :=
        ends_whenever.mpr fun w₂ run => listed.later (.update run)
      exact ((VirtualGroup.updateFromPatch_seated listed).join kept).bind fun w₂ inPlace _ => inPlace

/-- Any other document stops the program, when it is read or when the group is updated. -/
theorem createSubNode_spoils {name : QString} {data : QJsonObject}
    (group : data.contains "GlobalRemote") (solid : (' ' : QChar) ∉ name)
    (doc : ¬VirtualGroup.SafeDocument w.accepts data) :
    Ends (fun _ => True) (createSubNode w name data) fun _ => False := by
  have own : (VirtualGroup.create w w.fresh name).groupName w.fresh = name :=
    Function.update_self _ _ _
  have populated := (VirtualGroup.populateNode_drafted (VirtualGroup.loading_create w name)
    (VirtualGroup.draft_create w name) (own.symm ▸ solid) data).2 doc
  rw [createSubNode_group w name group]
  apply populated.bind
  rintro ⟨accepted, w₁⟩ ⟨done, unseated⟩
  cases done
  apply Ends.bind (VirtualGroup.updateFromPatch_unseated
    (w := { w₁ with vGroups := w₁.vGroups ++ [w.fresh] }) unseated)
  exact fun _ contra => contra.elim

/-- Loading a group, and using it after that, stays inside the list of avatars, off null pointers
    and off what has been deleted. It may wait for the mutex of the patch. -/
def LoadsSafely (w : World) (name : QString) (data : QJsonObject) : Prop :=
  Ends (· = .deadlock) (createSubNode w name data) fun q => q.1 = true →
    ∀ w', Relation.ReflTransGen (VirtualGroup.Later w.fresh) q.2 w' →
      Ends (· = .deadlock) (VirtualGroup.updateFromPatch w' w.fresh) (fun _ => True) ∧
      ∀ rName (e : FTriggerEvent) data, e.toNat < 5 →
        Ends (· = .deadlock) (VirtualGroup.fastTrigger w' w.fresh rName e data) fun _ => True

/-- A group whose document is safe is loaded safely, and unless the mutex is held no other one
    is. -/
theorem loadsSafely_iff (w : World) (name : QString) (data : QJsonObject)
    (group : data.contains "GlobalRemote") :
    ((' ' : QChar) ∈ name ∨ VirtualGroup.SafeDocument w.accepts data → LoadsSafely w name data) ∧
    (w.mutex ≠ .held → LoadsSafely w name data →
      (' ' : QChar) ∈ name ∨ VirtualGroup.SafeDocument w.accepts data) := by
  by_cases space : (' ' : QChar) ∈ name
  · refine ⟨fun _ => ?_, fun _ _ => .inl space⟩
    rw [LoadsSafely, createSubNode_blank group space]
    exact fun contra => absurd contra Bool.false_ne_true
  rw [or_iff_right space]
  refine ⟨fun safe => ?_, fun idle loads => ?_⟩
  · exact (createSubNode_keeps group space safe).mono fun q seated done w' later =>
      (seated done).lasting later
  · by_contra doc
    cases result : createSubNode w name data with
    | ok q => exact (createSubNode_spoils group space doc).of_ok result
    | error f =>
        exact idle ((mayFail_createSubNode w name group).of_error result (loads.of_error result))

/-- A global remote and the first avatar. -/
def soloGroup : QJsonObject := [("GlobalRemote", .object []), ("Remote1", .object [])]

theorem loadsSafely_solo : LoadsSafely (World.initial .free fun _ => none) "Group1" soloGroup := by
  have safely := loadsSafely_iff (World.initial .free fun _ => none) "Group1" soloGroup rfl
  refine safely.1 (.inr ?_)
  have kind : ∀ k : QString, (k = "GlobalRemote" ∨ ("Remote" : QString) <+: k) →
      (' ' : QChar) ∉ k → VirtualGroup.part (fun _ => none) k (.object []) = .child := by
    intro k named solid
    have loud : ¬VirtualGroup.RefusesQuietly (fun _ => none) k [] := by
      rintro (other | space | ⟨-, m, there, -⟩)
      · exact other named
      · exact solid space
      · cases there
    simp [VirtualGroup.part, loud, VirtualRemote.Document]
  have parts : VirtualGroup.parts (fun _ => none) soloGroup =
      ([("GlobalRemote", .child), ("Remote1", .child)] :
        List (QString × VirtualGroup.Part)) := by
    simp only [VirtualGroup.parts, soloGroup, List.map_cons, List.map_nil]
    rw [kind _ (.inl rfl) (by decide), kind _ (.inr (by decide)) (by decide)]
  rw [VirtualGroup.SafeDocument, World.initial, parts]
  exact ⟨rfl, by decide⟩

/-- The second avatar stands behind a gap. -/
def gapGroup : QJsonObject := [("GlobalRemote", .object []), ("Remote2", .object [])]

/-- The gap is met when the group is loaded. -/
theorem not_loadsSafely : ¬∀ w name data, World.Reachable .free w →
    data.contains "GlobalRemote" → LoadsSafely w name data := by
  have start : World.Reachable .free (World.initial .free fun _ => none) := ⟨_, [], rfl⟩
  have result : createSubNode (World.initial .free fun _ => none) "Group1" gapGroup =
      .error .nullPointer := rfl
  have stopped : ¬LoadsSafely (World.initial .free fun _ => none) "Group1" gapGroup := by
    rw [LoadsSafely, result]
    exact nofun
  simp only [not_forall]
  exact ⟨_, "Group1", gapGroup, start, rfl, stopped⟩

end VirtualNetwork

end VoxPopuli
