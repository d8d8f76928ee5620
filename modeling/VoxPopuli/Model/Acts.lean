import VoxPopuli.Model.Frame

/-! # What the functions do to the tree

A notification or a command is a chain of small acts: a member is written into the JSON of
a node, the JSON is copied upwards, a remote is dropped whose counterpart on the radio is
gone, or something changes which is not in the tree. What these acts keep is kept by all
the functions which only go along the tree; there is one lemma for each of them.
-/

namespace VoxPopuli

namespace World

/-- The counterpart of a real remote is not on the radio, so that looking for it drops the
    first remote which has its address. -/
structure Gone (w : World) (r : Nat) : Prop where
  isReal : w.isReal r = true
  unlinked : w.remoteLink r = none
  silent : ∀ x ∈ w.xbeeRemotes, intToHexStr x.addr ≠ RemoteList.macOf w r

structure Scope where
  /-- Nodes into which members may be written, and which may be copied upwards. -/
  nodes : Set NodeRef
  /-- Remotes which may be looked for on the radio. -/
  driven : Set Nat

/-- A member which may be written into the JSON of a node. -/
def Writable : NodeRef → QString → QJsonValue → Prop
  | .remote _, k, v =>
      (k ∈ (["LED1", "LED2", "LED3"] : List QString) ∧ ∃ d, v = .double d) ∨
        ((k ∈ (["State", "osc", "ipPort"] : List QString) ∨ k ∈ Remote.buttonNames) ∧
          ∃ s, v = .string s)
  | .vRemote _, k, v =>
      (k ∈ (["LED", "remoteID"] : List QString) ∧ ∃ d, v = .double d) ∨
        ((k = "State" ∨ k ∈ Remote.buttonNames) ∧ ∃ s, v = .string s)
  | .group _, k, v => k ∈ (["avatarsNbr", "slavesNbr"] : List QString) ∧ ∃ d, v = .double d
  | .event _ _, _, v => v = .null ∨ ∃ a, v = .array a
  | _, _, _ => False

/-- The virtual elements and their names stay, whatever becomes of the patch. -/
def SameElements (w w' : World) : Prop :=
  { w'.toRoster with patch := w.patch, mutex := w.mutex } = w.toRoster

/-- Nothing of the tree changes, and no counterpart leaves the radio. -/
structure SameTree (w w' : World) : Prop where
  json : w'.json = w.json
  subnodes : w'.subnodes = w.subnodes
  remotes : w'.remotes = w.remotes
  remoteName : w'.remoteName = w.remoteName
  isReal : w'.isReal = w.isReal
  freshRemote : w'.freshRemote = w.freshRemote
  accepts : w'.accepts = w.accepts
  elements : SameElements w w'
  linked : ∀ r, w'.remoteLink r = none → w.remoteLink r = none
  heard : ∀ x ∈ w.xbeeRemotes, ∃ x' ∈ w'.xbeeRemotes, x'.addr = x.addr

inductive Act (S : Scope) (w : World) : World → Prop
  | put {n : NodeRef} {k : QString} {v : QJsonValue} (inside : n ∈ S.nodes)
      (writable : Writable n k v) : Act S w (w.putJson n k v)
  | mirror {n : NodeRef} (inside : n ∈ S.nodes) : Act S w (w.updateParentJSon n)
  | drop {r r' : Nat} (driven : r ∈ S.driven) (gone : w.Gone r)
      (found : w.remotes.find? (fun r' => RemoteList.macOf w r' = RemoteList.macOf w r) = some r') :
      Act S w (RemoteList.drop w r')
  | aside {w' : World} (same : SameTree w w') : Act S w w'

/-- One act after the other. -/
def Acts (S : Scope) : World → World → Prop := Relation.ReflTransGen (Act S)

variable {S : Scope} {w w' w'' : World}

namespace Acts

theorem refl (S : Scope) (w : World) : Acts S w w := Relation.ReflTransGen.refl

theorem trans (h : Acts S w w') (h' : Acts S w' w'') : Acts S w w'' := Relation.ReflTransGen.trans h h'

theorem of_act (act : Act S w w') : Acts S w w' := Relation.ReflTransGen.single act

theorem aside (same : SameTree w w') : Acts S w w' := of_act (.aside same)

/-- What every act keeps. -/
theorem invariant {P : World → Prop} (h : Acts S w w') (start : P w)
    (keeps : ∀ w w', P w → Act S w w' → P w') : P w' := by
  induction h with
  | refl => exact start
  | tail _ act ih => exact keeps _ _ ih act

theorem foldl {ι : Type} {f : World → ι → World} (l : List ι)
    (step : ∀ w i, i ∈ l → Acts S w (f w i)) (w : World) : Acts S w (l.foldl f w) := by
  induction l generalizing w with
  | nil => exact refl S w
  | cons i l ih =>
      have first := step w i List.mem_cons_self
      exact first.trans (ih (fun w j member => step w j (List.mem_cons_of_mem i member)) (f w i))

theorem foldlM {ι : Type} {f : World → ι → Except Fault World} {l : List ι}
    (step : ∀ w', Acts S w w' → ∀ i ∈ l, Ends (fun _ => True) (f w' i) (Acts S w')) :
    Ends (fun _ => True) (l.foldlM f w) (Acts S w) := by
  have start : Acts S w w ∧ ∀ i ∈ l, i ∈ l := ⟨refl S w, fun _ member => member⟩
  apply (Ends.foldlM (I := fun rest w' => Acts S w w' ∧ ∀ i ∈ rest, i ∈ l) start ?_).mono
  · exact fun w' done => done.1
  · intro i rest w' done
    apply (step w' done.1 i (done.2 i List.mem_cons_self)).mono
    exact fun w'' more =>
      ⟨done.1.trans more, fun j member => done.2 j (List.mem_cons_of_mem i member)⟩

end Acts

theorem SameElements.trans (h : SameElements w w') (h' : SameElements w' w'') : SameElements w w'' := by
  have patched : ∀ (r : Roster) p m, ({ r with patch := p, mutex := m } : Roster) = w'.toRoster →
      ∀ p' m', ({ r with patch := p', mutex := m' } : Roster) =
        { w'.toRoster with patch := p', mutex := m' } := by
    intro r p m same p' m'
    exact congrArg (fun r : Roster => { r with patch := p', mutex := m' }) same
  exact (patched w''.toRoster _ _ h' w.patch w.mutex).trans h

namespace SameElements

variable (same : SameElements w w')

include same

theorem project {α : Type} (f : Roster → α) :
    f { w'.toRoster with patch := w.patch, mutex := w.mutex } = f w.toRoster :=
  congrArg f same

theorem vRemotes : w'.vRemotes = w.vRemotes := same.project Roster.vRemotes

theorem vGroups : w'.vGroups = w.vGroups := same.project Roster.vGroups

theorem vRemoteName : w'.vRemoteName = w.vRemoteName :=
  same.project Roster.vRemoteName

theorem groupName : w'.groupName = w.groupName := same.project Roster.groupName

theorem globalRemote : w'.globalRemote = w.globalRemote :=
  same.project Roster.globalRemote

theorem virtualRemotes : w'.virtualRemotes = w.virtualRemotes :=
  same.project Roster.virtualRemotes

theorem fresh : w'.fresh = w.fresh := same.project Roster.fresh

theorem member {g : Nat} {v : VRef} : VirtualGroup.Member w' g v ↔ VirtualGroup.Member w g v := by
  unfold VirtualGroup.Member
  rw [same.globalRemote, same.virtualRemotes]

end SameElements

theorem mirror_elements (w : World) (n : NodeRef) (ancestors : List NodeRef) :
    SameElements w (w.mirror n ancestors) := by
  obtain ⟨json, same, -⟩ := mirror_frame w n ancestors
  rw [same]
  rfl

theorem Act.elements (act : Act S w w') : SameElements w w' := by
  cases act with
  | put inside writable => rfl
  | mirror inside => exact mirror_elements w _ _
  | drop driven gone found => rfl
  | aside same => exact same.elements

theorem Act.remotes (act : Act S w w') : w'.remotes.Sublist w.remotes := by
  cases act with
  | put inside writable => exact .refl _
  | mirror inside =>
      obtain ⟨json, same, -⟩ := mirror_frame w _ _
      rw [updateParentJSon, same]
  | drop driven gone found => exact List.erase_sublist
  | aside same => exact same.remotes ▸ .refl _

theorem Act.accepts (act : Act S w w') : w'.accepts = w.accepts := by
  cases act with
  | put inside writable => rfl
  | mirror inside =>
      obtain ⟨json, same, -⟩ := mirror_frame w _ _
      rw [updateParentJSon, same]
  | drop driven gone found => rfl
  | aside same => exact same.accepts

namespace Acts

theorem elements (h : Acts S w w') : SameElements w w' :=
  h.invariant (P := SameElements w) rfl fun _ _ same act => same.trans act.elements

theorem accepts (h : Acts S w w') : w'.accepts = w.accepts :=
  h.invariant (P := fun w' => w'.accepts = w.accepts) rfl
    fun _ _ same act => act.accepts.trans same

theorem remotes (h : Acts S w w') : w'.remotes.Sublist w.remotes :=
  h.invariant (P := fun w' => w'.remotes.Sublist w.remotes) (.refl _)
    fun _ _ fewer act => act.remotes.trans fewer

end Acts

/-! ## JSON -/

theorem acts_assign {n : NodeRef} {name : QString} {v : QJsonValue} (inside : n ∈ S.nodes)
    (writable : Writable n name v) (same : QJsonValue → Bool) :
    Acts S w (w.assign n name same v).2 := by
  unfold assign
  split
  · exact .refl S w
  · exact (Acts.of_act (.put inside writable)).trans (.of_act (.mirror inside))

theorem acts_observe (o : Observation) : Acts S w (w.observe o) :=
  .aside ⟨rfl, rfl, rfl, rfl, rfl, rfl, rfl, rfl, fun _ => id, fun x listed => ⟨x, listed, rfl⟩⟩

/-- A remote of the radio which is modified keeps its address. -/
theorem heard_modify {l : List XBeeRemote} {f : XBeeRemote → XBeeRemote} (i : Nat)
    (same : ∀ x, (f x).addr = x.addr) {x : XBeeRemote} (listed : x ∈ l) :
    ∃ x' ∈ l.modify i f, x'.addr = x.addr := by
  obtain ⟨j, found⟩ := List.mem_iff_getElem?.mp listed
  refine ⟨if i = j then f x else x, List.mem_iff_getElem?.mpr ⟨j, ?_⟩, ?_⟩
  · rw [List.getElem?_modify, found]
    split <;> rfl
  · split
    · exact same x
    · rfl

end World

open World

variable {S : Scope} {w : World}

/-! ## Remotes -/

namespace RealRemote

theorem acts_remote {r : Nat} (driven : r ∈ S.driven) (real : w.isReal r = true) :
    Acts S w (remote w r).2 := by
  unfold remote
  split
  · exact .refl S w
  · rename_i unlinked
    split
    · rename_i i found
      refine .aside ⟨rfl, rfl, rfl, rfl, rfl, rfl, rfl, rfl, fun r' still => ?_,
        fun x listed => ⟨x, listed, rfl⟩⟩
      by_cases other : r' = r
      · rwa [other]
      · dsimp only at still
        rwa [Function.update_of_ne other] at still
    · rename_i silent
      have gone : w.Gone r := by
        refine ⟨real, unlinked, fun x listed => ?_⟩
        rw [List.findIdx?_eq_none_iff] at silent
        simpa using silent x listed
      unfold RemoteList.removeRemote
      split
      · exact .refl S w
      · rename_i r' found
        exact .of_act (.drop driven gone found)

theorem acts_safeSendMsg {r : Nat} (driven : r ∈ S.driven) (real : w.isReal r = true)
    (key : StdString) (type : XBEE_MSG_TYPE) (data : HexData) :
    Acts S w (safeSendMsg w r key type data) := by
  have reached : Acts S w (remote w r).2 := acts_remote driven real
  unfold safeSendMsg
  split
  · rename_i w' found
    rwa [found] at reached
  · rename_i i w' found
    rw [found] at reached
    refine reached.trans (.aside ⟨rfl, rfl, rfl, rfl, rfl, rfl, rfl, rfl, fun _ => id, ?_⟩)
    exact fun x listed => heard_modify i (f := fun x => x.safeSendMsg key type data)
      (fun _ => rfl) listed

theorem acts_sendLed {r : Nat} (driven : r ∈ S.driven) (real : w.isReal r = true)
    (e : FTriggerEvent) (v : HexData) : Acts S w (sendLed w r e v) := by
  cases e with
  | led | led1 | led2 | led3 => exact acts_safeSendMsg driven real _ _ _
  | up | down | right | left | action => exact .refl S w

theorem acts_sendState {r : Nat} (driven : r ∈ S.driven) (real : w.isReal r = true)
    (value : QString) : Acts S w (sendState w r value) := by
  unfold sendState
  split
  · exact acts_safeSendMsg driven real _ _ _
  · split
    · exact acts_safeSendMsg driven real _ _ _
    · exact acts_remote driven real

end RealRemote

theorem EmulatedRemote.acts_forwardLed (r : Nat) (e : FTriggerEvent) (v : HexData) :
    Acts S w (forwardLed w r e v) := by
  unfold forwardLed
  dsimp only
  split
  · exact .refl S w
  · split
    · exact acts_observe _
    · exact .refl S w

/-- A remote whose LEDs and state may be set. -/
structure World.Scope.Drives (S : Scope) (r : Nat) : Prop where
  inside : .remote r ∈ S.nodes
  driven : r ∈ S.driven

namespace Remote

theorem acts_setNumber {r : Nat} (inside : .remote r ∈ S.nodes) {name : QString}
    (led : name ∈ (["LED1", "LED2", "LED3"] : List QString)) (value : ℚ) :
    Acts S w (w.setNumber (.remote r) name value).2 :=
  acts_assign inside (.inl ⟨led, value, rfl⟩) _

theorem acts_setString {r : Nat} (inside : .remote r ∈ S.nodes) {name : QString}
    (text : name ∈ (["State", "osc", "ipPort"] : List QString) ∨ name ∈ buttonNames)
    (value : QString) : Acts S w (w.setString (.remote r) name value).2 :=
  acts_assign inside (.inr ⟨text, value, rfl⟩) _

theorem acts_storeLed {r : Nat} (inside : .remote r ∈ S.nodes) (e : FTriggerEvent) (v : HexData) :
    Acts S w (storeLed w r e v).2 := by
  cases e with
  | led =>
      exact (acts_setNumber inside (by decide) _).trans
        ((acts_setNumber inside (by decide) _).trans (acts_setNumber inside (by decide) _))
  | led1 | led2 | led3 => exact acts_setNumber inside (by decide) _
  | up | down | right | left | action => exact .refl S w

variable {r : Nat} (drives : S.Drives r)

include drives

theorem acts_triggerLed (e : FTriggerEvent) (v : HexData) : Acts S w (triggerLed w r e v).2 := by
  unfold triggerLed
  dsimp only
  refine (acts_observe (.commanded r e v)).trans (.trans ?_ (acts_storeLed drives.inside e v))
  split
  · rename_i real
    exact RealRemote.acts_sendLed drives.driven real e v
  · exact EmulatedRemote.acts_forwardLed r e v

theorem acts_setState (value : QString) : Acts S w (setState w r value).2 := by
  unfold setState
  dsimp only
  refine (acts_observe (.stateSet r value)).trans
    (.trans ?_ (acts_setString drives.inside (.inl (by decide)) value))
  split
  · rename_i real
    exact RealRemote.acts_sendState drives.driven real value
  · exact .refl S _

theorem acts_setLed (e : FTriggerEvent) (value : QString) : Acts S w (setLed w r e value).2 := by
  unfold setLed
  split
  · exact .refl S w
  · exact acts_triggerLed drives e _

theorem acts_setValue (name value : QString) : Acts S w (setValue w r name value).2 := by
  unfold setValue
  split
  · exact acts_setLed drives _ value
  · split
    · exact acts_setLed drives _ value
    · split
      · exact acts_setLed drives _ value
      · split
        · exact acts_setState drives value
        · exact .refl S w

theorem acts_callLed (value : QString) : Acts S w (callLed w r value).2 := by
  unfold callLed
  split
  · exact .refl S w
  · exact acts_triggerLed drives _ _

end Remote

/-! ## Events -/

namespace Event

theorem acts_trigger (v : VRef) (b : Button) (name : QString) (t : EventTrigger) :
    Acts S w (trigger w v b name t) := by
  apply Acts.foldl
  intro w entry _
  dsimp only
  split
  · exact acts_observe _
  · exact .refl S w

theorem acts_triggerEvent (v : VRef) (b : Button) (name : QString) :
    Acts S w (triggerEvent w v b name).2 := by
  have any : Acts S w (trigger (w.observe (.fired v b name)) v b "any" (w.anyTrigger v b)) :=
    (acts_observe _).trans (acts_trigger v b "any" _)
  unfold triggerEvent
  dsimp only
  split
  · exact any
  · exact any.trans (acts_trigger v b name _)

theorem acts_eventByTrigger (v : VRef) (b : Button) (name : QString) :
    Acts S w (eventByTrigger w v b name).2 := by
  unfold eventByTrigger
  split
  · exact .refl S w
  · split
    · exact .refl S w
    · exact acts_trigger v b name _

theorem acts_setTrigger (v : VRef) (b : Button) (name : QString) (t : EventTrigger) :
    Acts S w (setTrigger w v b name t) := by
  unfold setTrigger
  split
  · exact .aside ⟨rfl, rfl, rfl, rfl, rfl, rfl, rfl, rfl, fun _ => id, fun x listed => ⟨x, listed, rfl⟩⟩
  · exact .aside ⟨rfl, rfl, rfl, rfl, rfl, rfl, rfl, rfl, fun _ => id, fun x listed => ⟨x, listed, rfl⟩⟩

variable {v : VRef} {b : Button} (inside : .event v b ∈ S.nodes)

include inside

theorem acts_readArray (name : QString) : Acts S w (readArray w (.event v b) name).2 := by
  unfold readArray
  dsimp only
  split
  · exact .refl S w
  · exact .of_act (.put inside (.inl rfl))

theorem acts_addEvent (description name : QString) :
    Acts S w (addEvent w v b description name).2 := by
  have looked : Acts S w (eventByTrigger w v b name).2 := acts_eventByTrigger v b name
  unfold addEvent
  cases found : eventByTrigger w v b name with
  | mk t? w₁ =>
      rw [found] at looked
      have read : Acts S w₁ (if t?.isSome then readArray w₁ (.event v b) name else ([], w₁)).2 := by
        split
        · exact acts_readArray inside name
        · exact .refl S w₁
      dsimp only
      generalize (if t?.isSome then readArray w₁ (.event v b) name else ([], w₁)) = array at read
      generalize EventTrigger.addEvent _ _ _ = added
      have set := (looked.trans read).trans (acts_setTrigger v b name added.2)
      split
      · exact set.trans ((Acts.of_act (.put inside (.inr ⟨_, rfl⟩))).trans
          (.of_act (.mirror inside)))
      · exact set

theorem acts_removeEvent (definition name : QString) :
    Acts S w (removeEvent w v b definition name).2 := by
  have looked : Acts S w (eventByTrigger w v b name).2 := acts_eventByTrigger v b name
  unfold removeEvent
  split
  · rename_i w₁ found
    rwa [found] at looked
  · rename_i t w₁ found
    rw [found] at looked
    split
    · exact looked
    · have read := (looked.trans (acts_setTrigger v b name (t.erase definition))).trans
        (acts_readArray inside name)
      dsimp only
      split
      · exact read.trans (.of_act (.mirror inside))
      · exact read

end Event

/-! ## Virtual remotes -/

namespace VirtualRemote

theorem patchedRemotes_target (v : VRef) :
    Ends (fun _ => True) (patchedRemotes w v) fun p => p = (target w v, w) :=
  (patchedRemotes_ends v).mono_err fun _ _ => trivial

theorem target_subset {v : VRef} {r : Nat} (inside : r ∈ target w v) : r ∈ w.remotes := by
  have named : ∀ {name r}, RemoteList.byName w name = some r → r ∈ w.remotes :=
    fun found => List.mem_of_find?_eq_some found
  have linked : ∀ {vName}, r ∈ w.linkedRemotes vName → r ∈ w.remotes := by
    intro vName member
    obtain ⟨name, -, found⟩ := List.mem_filterMap.mp member
    exact named found
  cases v with
  | free n => exact linked inside
  | member g n =>
      simp only [target] at inside
      split at inside
      · exact linked inside
      · split at inside
        · cases inside
        · exact named (Option.mem_toList.mp inside)

theorem acts_sendFastTrigger {v : VRef} (drives : ∀ r ∈ target w v, S.Drives r) (data : HexData) :
    Ends (fun _ => True) (sendFastTrigger w v data) (Acts S w) := by
  apply (patchedRemotes_target v).bind
  intro p same
  subst same
  exact Acts.foldl (target w v)
    (fun w r member => Remote.acts_triggerLed (drives r member) .led data) w

variable {v : VRef} (inside : .vRemote v ∈ S.nodes)

include inside

theorem acts_setString {name : QString} (text : name = "State" ∨ name ∈ Remote.buttonNames)
    (value : QString) : Acts S w (w.setString (.vRemote v) name value).2 :=
  acts_assign inside (.inr ⟨text, value, rfl⟩) _

theorem acts_showRemote (r? : Option Nat) : Acts S w (showRemote w v r?) := by
  have put : ∀ (w : World) (name value : QString), name ∈ Remote.buttonNames →
      Acts S w (w.setString (.vRemote v) name value).2 :=
    fun w name value button => acts_setString inside (.inr button) value
  cases r? with
  | none =>
      exact (put _ "Up" _ (by decide)).trans ((put _ "Down" _ (by decide)).trans
        ((put _ "Left" _ (by decide)).trans ((put _ "Right" _ (by decide)).trans
          (put _ "Action" _ (by decide)))))
  | some r =>
      exact (put _ "Up" _ (by decide)).trans ((put _ "Down" _ (by decide)).trans
        ((put _ "Left" _ (by decide)).trans ((put _ "Right" _ (by decide)).trans
          (put _ "Action" _ (by decide)))))

theorem acts_updateVirtualRemote : Ends (fun _ => True) (updateVirtualRemote w v) (Acts S w) := by
  apply (patchedRemotes_target v).bind
  intro p same
  subst same
  exact acts_showRemote inside _

theorem acts_fastTrigger {e : FTriggerEvent} (drives : e = .led → ∀ r ∈ target w v, S.Drives r)
    (data : HexData) : Ends (fun _ => True) (fastTrigger w v e data) fun p => Acts S w p.2 := by
  unfold fastTrigger
  split
  · rename_i led
    apply (acts_sendFastTrigger (drives led) data).bind
    intro w' sent
    exact sent.trans (acts_assign inside (.inl ⟨by decide, _, rfl⟩) _)
  · split
    · rename_i other button
      refine (Event.acts_triggerEvent v _ _).trans (acts_setString inside (.inr ?_) _)
      cases e with
      | led => exact absurd rfl other
      | led1 | led2 | led3 => exact absurd button (by decide)
      | up | down | right | left | action => decide
    · trivial

/-- The values which are passed on to the remotes. -/
def Passed (name value : QString) : Prop := name = "State" ∨ name = "LED" ∧ (value.toInt?).isSome

omit inside in
theorem eventID_ne_led {name : QString}
    (button : name ∈ (["Up", "Down", "Left", "Right", "Action"] : QStringList)) :
    FTriggerEvent.eventID name ≠ .led := by
  simp only [List.mem_cons, List.not_mem_nil, or_false] at button
  rcases button with rfl | rfl | rfl | rfl | rfl <;> decide

theorem acts_setValue {name value : QString}
    (drives : Passed name value → ∀ r ∈ target w v, S.Drives r) :
    Ends (fun _ => True) (setValue w v name value) fun p => Acts S w p.2 := by
  unfold setValue
  split
  · split
    · trivial
    · split
      · exact .refl S w
      · refine acts_fastTrigger inside (fun led => absurd led ?_) _
        exact eventID_ne_led ‹_›
  · split
    · rename_i led
      split
      · exact .refl S w
      · rename_i n read
        exact acts_fastTrigger inside (fun _ => drives (.inr ⟨led, by rw [read]; rfl⟩)) _
    · split
      · rename_i state
        apply (patchedRemotes_target v).bind
        intro p same
        subst same
        have told := Acts.foldl (target w v)
          (fun w r member => Remote.acts_setState (drives (.inl state) r member) value) w
        exact told.trans (acts_setString inside (.inl state) value)
      · split
        · rename_i id
          split
          · exact .refl S w
          · rename_i n _
            have put : Acts S w (w.setNumber (.vRemote v) name ((Byte.ofInt n).val : ℚ)).2 :=
              acts_assign inside (.inl ⟨id.1 ▸ List.mem_cons_of_mem _ List.mem_cons_self, _, rfl⟩) _
            exact (acts_updateVirtualRemote inside).bind fun w' more => put.trans more
        · exact .refl S w

end VirtualRemote

/-! ## Groups -/

namespace VirtualGroup

theorem acts_setSlaves {g : Nat} (inside : .group g ∈ S.nodes) (slaves : QStringList) :
    Acts S w (setSlaves w g slaves) := by
  have stored : Acts S w { w with slaves := Function.update w.slaves g slaves } :=
    .aside ⟨rfl, rfl, rfl, rfl, rfl, rfl, rfl, rfl, fun _ => id, fun x listed => ⟨x, listed, rfl⟩⟩
  exact stored.trans (acts_assign inside ⟨by decide, _, rfl⟩ _)

theorem acts_refreshSlaves {g : Nat} (inside : .group g ∈ S.nodes) :
    Acts S w (refreshSlaves w g) := by
  unfold refreshSlaves
  dsimp only
  split
  · exact acts_setSlaves inside _
  · exact .refl S w

section

variable {g : Nat} (members : ∀ v, Member w g v → .vRemote v ∈ S.nodes)

include members

theorem acts_updateVirtualRemotes : Ends (fun _ => True) (updateVirtualRemotes w g) (Acts S w) := by
  unfold updateVirtualRemotes
  cases found : w.globalRemote g with
  | none => trivial
  | some v =>
      apply (VirtualRemote.acts_updateVirtualRemote (members v (.inl found))).bind
      intro w₁ done
      rw [done.elements.virtualRemotes]
      apply (Acts.foldlM ?_).mono fun w₂ more => done.trans more
      intro w₂ more r member
      cases r with
      | none => trivial
      | some v' => exact VirtualRemote.acts_updateVirtualRemote (members v' (.inr member))

theorem acts_updateFromPatch (inside : .group g ∈ S.nodes) :
    Ends (fun _ => True) (updateFromPatch w g) (Acts S w) := by
  have refresh : Acts S w (refreshSlaves w g) := acts_refreshSlaves inside
  have members' : ∀ v, Member (refreshSlaves w g) g v → .vRemote v ∈ S.nodes :=
    fun v member => members v (refresh.elements.member.mp member)
  exact (acts_updateVirtualRemotes members').mono fun w' more => refresh.trans more

theorem acts_removeSlave (inside : .group g ∈ S.nodes) (slaveName : QString) :
    Ends (fun _ => True) (removeSlave w g slaveName) (Acts S w) := by
  have removed : Acts S w (setSlaves w g ((w.slaves g).erase slaveName)) := acts_setSlaves inside _
  have members' : ∀ v, Member (setSlaves w g ((w.slaves g).erase slaveName)) g v →
      .vRemote v ∈ S.nodes := fun v member => members v (removed.elements.member.mp member)
  exact (acts_updateFromPatch members' inside).mono fun w' more => removed.trans more

theorem acts_fastTrigger {e : FTriggerEvent} (drives : e = .led → ∀ r ∈ w.remotes, S.Drives r)
    (rName : QString) (data : HexData) :
    Ends (fun _ => True) (fastTrigger w g rName e data) (Acts S w) := by
  have trigger : ∀ w', Acts S w w' → ∀ v, Member w g v →
      Ends (fun _ => True) (VirtualRemote.fastTrigger w' v e data) fun p => Acts S w' p.2 := by
    intro w' done v member
    refine VirtualRemote.acts_fastTrigger (members v member) (fun led r target => ?_) data
    exact drives led r (done.remotes.subset (VirtualRemote.target_subset target))
  unfold fastTrigger
  split
  · exact .refl S w
  · refine Ends.bind (M := Acts S w) (Acts.foldlM ?_) ?_
    · intro w₁ done r member
      cases r with
      | none => trivial
      | some v =>
          simp only [triggerAvatar]
          split
          · exact (trigger w₁ done v (.inr member)).bind fun p more => more
          · exact .refl S w₁
    · intro w₁ done
      rw [done.elements.globalRemote]
      cases found : w.globalRemote g with
      | none => trivial
      | some v => exact (trigger w₁ done v (.inl found)).bind fun p more => done.trans more

end

end VirtualGroup

/-! ## The network -/

/-- The virtual elements are in the scope, and so is the patch. -/
structure World.Scope.Covers (S : Scope) (w : World) : Prop where
  patch : .patch ∈ S.nodes
  groups : ∀ g ∈ w.vGroups, .group g ∈ S.nodes
  vRemotes : ∀ v, w.Live v → .vRemote v ∈ S.nodes

namespace World.Scope.Covers

variable {w' : World}

theorem member (covers : S.Covers w) {g : Nat} (inside : g ∈ w.vGroups) :
    ∀ v, VirtualGroup.Member w g v → .vRemote v ∈ S.nodes :=
  fun v member => covers.vRemotes v (.of_member inside member)

theorem of_same (covers : S.Covers w) (same : SameElements w w') : S.Covers w' := by
  refine ⟨covers.patch, ?_, fun v live => covers.vRemotes v ?_⟩
  · rw [same.vGroups]
    exact covers.groups
  · unfold Live at live ⊢
    rw [same.vRemotes, same.vGroups] at live
    simpa only [same.member] using live

end World.Scope.Covers

theorem World.SameElements.existing {w' : World} (same : SameElements w w')
    {element : Option Element} (existing : Element.Existing w element) :
    Element.Existing w' element := by
  match element, existing with
  | none, _ => trivial
  | some (.group g), inside =>
      rw [Element.Existing, same.vGroups]
      exact inside
  | some (.vRemote n), inside =>
      rw [Element.Existing, same.vRemotes]
      exact inside

namespace VirtualNetwork

variable (covers : S.Covers w)

include covers

theorem acts_triggerElement (rName : QString) {e : FTriggerEvent}
    (drives : e = .led → ∀ r ∈ w.remotes, S.Drives r) (data : HexData) (elementName : QString) :
    Ends (fun _ => True) (triggerElement rName e data w elementName) (Acts S w) := by
  unfold triggerElement
  split
  · rename_i g found
    obtain ⟨inside, -⟩ := groupByName_eq_some found
    exact VirtualGroup.acts_fastTrigger (covers.member inside) drives rName data
  · split
    · rename_i n found
      obtain ⟨inside, -⟩ := remoteByName_eq_some found
      have live : .vRemote (.free n) ∈ S.nodes := covers.vRemotes _ (.inl ⟨n, inside, rfl⟩)
      refine Ends.bind (VirtualRemote.acts_fastTrigger live (fun led r target => ?_) data)
        fun p done => done
      exact drives led r (VirtualRemote.target_subset target)
    · exact .refl S w

theorem acts_fastTrigger (virtualElements : QStringList) (rName : QString) {e : FTriggerEvent}
    (drives : e = .led → ∀ r ∈ w.remotes, S.Drives r) (data : HexData) :
    Ends (fun _ => True) (fastTrigger w virtualElements rName e data) (Acts S w) := by
  apply Acts.foldlM
  intro w' done elementName _
  refine acts_triggerElement (covers.of_same done.elements) rName (fun led r listed => ?_) data
    elementName
  exact drives led r (done.remotes.subset listed)

end VirtualNetwork

namespace PatchNode

theorem acts_setPatch (p : Patch) : Acts S w (setPatch w p) :=
  .aside ⟨rfl, rfl, rfl, rfl, rfl, rfl, rfl, rfl, fun _ => id, fun x listed => ⟨x, listed, rfl⟩⟩

theorem acts_lock : Ends (fun _ => True) w.lock (Acts S w) := by
  unfold lock
  split
  · exact .refl S w
  · exact .aside ⟨rfl, rfl, rfl, rfl, rfl, rfl, rfl, rfl, fun _ => id, fun x listed => ⟨x, listed, rfl⟩⟩
  · trivial

theorem acts_unlock : Acts S w w.unlock := by
  unfold unlock
  split
  · exact .refl S w
  · exact .aside ⟨rfl, rfl, rfl, rfl, rfl, rfl, rfl, rfl, fun _ => id, fun x listed => ⟨x, listed, rfl⟩⟩
  · exact .aside ⟨rfl, rfl, rfl, rfl, rfl, rfl, rfl, rfl, fun _ => id, fun x listed => ⟨x, listed, rfl⟩⟩

variable (covers : S.Covers w)

include covers

theorem acts_notify (rName : QString) {element : Option Element}
    (existing : Element.Existing w element) :
    Ends (fun _ => True) (notify w rName element) (Acts S w) := by
  match element, existing with
  | none, _ => exact .refl S w
  | some (.group g), inside =>
      exact VirtualGroup.acts_removeSlave (covers.member inside) (covers.groups g inside) rName
  | some (.vRemote n), inside =>
      exact VirtualRemote.acts_updateVirtualRemote (covers.vRemotes _ (.inl ⟨n, inside, rfl⟩))

theorem acts_addEntry (rName vName : QString) :
    Ends (fun _ => True) (addEntry w rName vName) fun p => Acts S w p.2 := by
  unfold addEntry
  split
  · exact acts_setPatch _
  · rename_i p _
    have set : Acts S w (setPatch w p) := acts_setPatch p
    refine Ends.bind (acts_notify (covers.of_same set.elements) rName
      (VirtualNetwork.elementByName_existing vName)) fun w' told => set.trans told

theorem acts_parseArray (name : QString) (value : QStringList) :
    Ends (fun _ => True) (parseArray w name value) fun p => Acts S w p.2 := by
  induction value generalizing w with
  | nil => exact .refl S w
  | cons vName rest ih =>
      unfold parseArray
      apply (acts_addEntry covers name vName).bind
      intro p added
      dsimp only
      split
      · exact (ih (covers.of_same added.elements)).mono fun q more => added.trans more
      · exact added

/-- The JSON of the patch changes, and its copy in the network model. -/
theorem acts_setJson (o : QJsonObject) :
    Acts S w ((setPatch w { w.patch with jsonData := o }).valueChanged .patch) :=
  (acts_setPatch _).trans (.of_act (.mirror covers.patch))

theorem acts_addLink (rName vName : QString) :
    Ends (fun _ => True) (addLink w rName vName) fun p => Acts S w p.2 := by
  unfold addLink
  apply (acts_addEntry covers rName vName).bind
  intro p added
  dsimp only
  split
  · exact added
  · exact added.trans (acts_setJson (covers.of_same added.elements) _)

theorem acts_removeLink (rName vName : QString) :
    Ends (fun _ => True) (removeLink w rName vName) fun p => Acts S w p.2 := by
  unfold removeLink
  split
  · exact .refl S w
  · apply (acts_lock (S := S)).bind
    intro w₁ locked
    dsimp only
    split
    · have stored := locked.trans (acts_setJson (covers.of_same locked.elements)
        (Patch.eraseLinkJson w₁.patch.jsonData rName vName))
      generalize (setPatch w₁ { w₁.patch with
        jsonData := Patch.eraseLinkJson w₁.patch.jsonData rName vName }).valueChanged .patch = w₂
          at stored ⊢
      have halved := stored.trans (acts_setPatch (S := S) { w₂.patch with
        remoteToVirtual := Rows.unlink w₂.patch.remoteToVirtual rName vName })
      generalize setPatch w₂ { w₂.patch with
        remoteToVirtual := Rows.unlink w₂.patch.remoteToVirtual rName vName } = w₃ at halved ⊢
      split
      · exact halved.trans acts_unlock
      · have unlinked := (halved.trans (acts_setPatch (S := S) { w₃.patch with
          virtualToRemote := Rows.unlink w₃.patch.virtualToRemote vName rName })).trans
            (acts_unlock (S := S))
        exact Ends.bind (acts_notify (covers.of_same unlinked.elements) rName
          (VirtualNetwork.elementByName_existing vName)) fun w' told => unlinked.trans told
    · exact locked.trans acts_unlock

theorem acts_forgetRemote (rName vName : QString) :
    Ends (fun _ => True) (forgetRemote rName w vName) (Acts S w) := by
  have set : Acts S w (setPatch w (w.patch.forgetRemote rName vName)) := acts_setPatch _
  exact (acts_notify (covers.of_same set.elements) rName
    (VirtualNetwork.elementByName_existing vName)).mono fun w' told => set.trans told

theorem acts_removeRemoteLinks (rName : QString) :
    Ends (fun _ => True) (removeRemoteLinks w rName) fun p => Acts S w p.2 := by
  unfold removeRemoteLinks
  split
  · exact .refl S w
  · rename_i vNames _
    apply (acts_lock (S := S)).bind
    intro w₁ locked
    have loop : Ends (fun _ => True) (vNames.foldlM (forgetRemote rName) w₁) (Acts S w₁) :=
      Acts.foldlM fun w' done vName _ =>
        acts_forgetRemote (covers.of_same (locked.trans done).elements) rName vName
    apply loop.bind
    intro w₂ done
    have before := locked.trans done
    exact ((before.trans (acts_setJson (covers.of_same before.elements) _)).trans
      (acts_setPatch _)).trans acts_unlock

theorem acts_forgetVirtual (vName rName : QString) {element : Option Element}
    (existing : Element.Existing w element) :
    Ends (fun _ => True) (forgetVirtual vName element w rName) (Acts S w) := by
  unfold forgetVirtual
  split
  · exact .refl S w
  · rename_i vNames _
    have written : Acts S w (if vName ∈ vNames then
        (setPatch w (w.patch.forgetVirtual vName rName)).valueChanged .patch else w) := by
      split
      · exact (acts_setPatch _).trans (.of_act (.mirror covers.patch))
      · exact .refl S w
    exact (acts_notify (covers.of_same written.elements) rName
      (written.elements.existing existing)).mono fun w' told => written.trans told

theorem acts_removeVirtualLinks (vName : QString) :
    Ends (fun _ => True) (removeVirtualLinks w vName) fun p => Acts S w p.2 := by
  unfold removeVirtualLinks
  split
  · exact .refl S w
  · rename_i rNames _
    apply (acts_lock (S := S)).bind
    intro w₁ locked
    have loop : Ends (fun _ => True)
        (rNames.foldlM (forgetVirtual vName (VirtualNetwork.elementByName w vName)) w₁)
        (Acts S w₁) := by
      refine Acts.foldlM fun w' done rName _ => ?_
      have before := locked.trans done
      exact acts_forgetVirtual (covers.of_same before.elements) vName rName
        (before.elements.existing (VirtualNetwork.elementByName_existing vName))
    apply loop.bind
    intro w₂ done
    exact ((locked.trans done).trans (acts_setPatch _)).trans acts_unlock

theorem acts_fastTriggerRemote (rName : QString) {e : FTriggerEvent}
    (drives : e = .led → ∀ r ∈ w.remotes, S.Drives r) (v : HexData) :
    Ends (fun _ => True) (fastTriggerRemote w rName e v) (Acts S w) := by
  unfold fastTriggerRemote
  apply (acts_lock (S := S)).bind
  intro w₁ locked
  have before := locked.trans (acts_unlock (S := S) (w := w₁))
  refine (VirtualNetwork.acts_fastTrigger (covers.of_same before.elements) _ rName
    (fun led r listed => ?_) v).mono fun w' done => before.trans done
  exact drives led r (before.remotes.subset listed)

end PatchNode

/-! ## The buttons of remotes -/

namespace Remote

variable (covers : S.Covers w) {r : Nat}

include covers

theorem acts_setButtonState (inside : .remote r ∈ S.nodes) (b : XBEE_MSG_TYPE) (pressed : Bool) :
    Ends (fun _ => True) (setButtonState w r b pressed) (Acts S w) := by
  cases kind : button? b with
  | none =>
      rw [setButtonState_other kind]
      exact .refl S w
  | some q =>
      obtain ⟨e, bName⟩ := q
      have other : e ≠ .led := by cases b <;> cases kind <;> decide
      have name : bName ∈ buttonNames := by cases b <;> cases kind <;> decide
      have triggered : Ends (fun _ => True) (fastTrigger w r e [if pressed then 1 else 0])
          fun p => Acts S w p.2 := by
        have sent := PatchNode.acts_fastTriggerRemote covers (w.remoteName r)
          (fun led => absurd led other) [if pressed then 1 else 0]
        cases b <;> cases kind <;> exact sent.bind fun w' done => done
      rw [setButtonState_known kind]
      exact triggered.bind fun p done => done.trans (acts_setString inside (.inr name) _)

end Remote

theorem EmulatedRemote.acts_setValue (covers : S.Covers w) {r : Nat} (drives : S.Drives r)
    (name value : QString) :
    Ends (fun _ => True) (setValue w r name value) fun p => Acts S w p.2 := by
  have press : ∀ type pressed, Ends (fun _ => True)
      (do
        let w ← Remote.setButtonState w r type pressed
        pure (SetError.noError, w)) fun p => Acts S w p.2 := fun type pressed =>
    (Remote.acts_setButtonState covers drives.inside type pressed).bind fun w' done => done
  unfold setValue
  split
  · split
    · exact press _ _
    · split
      · exact press _ _
      · exact .refl S w
  · split
    · rename_i osc
      exact Remote.acts_setString drives.inside (.inl (by rw [osc]; decide)) _
    · split
      · split
        · exact .refl S w
        · exact Remote.acts_setString drives.inside (.inl (by decide)) _
      · exact Remote.acts_setValue drives name value

theorem Remote.acts_set (covers : S.Covers w) {r : Nat} (drives : S.Drives r)
    (name value : QString) : Ends (fun _ => True) (set w r name value) fun p => Acts S w p.2 := by
  unfold set
  split
  · exact Remote.acts_setValue drives name value
  · exact EmulatedRemote.acts_setValue covers drives name value

end VoxPopuli
