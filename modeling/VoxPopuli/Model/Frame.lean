import VoxPopuli.Lib.Ends
import VoxPopuli.Model.Links

/-! # What the functions leave alone

A notification or a command which travels through the models writes JSON, radio and
log all over the place, but hardly ever touches what the routing of events rests on.
`Keeps F` says that only what `F` names is touched of that; there is one such lemma
for each function.
-/

namespace VoxPopuli

open Function (update)

structure Footprint where
  /-- Virtual remotes whose JSON is written, and copied into their parent's. -/
  notified : Set VRef := ∅
  /-- Virtual remotes whose ID and triggers may change. -/
  edited : Set VRef := ∅
  /-- Virtual remotes whose JSON may be replaced. -/
  rewritten : Set VRef := ∅
  /-- Groups whose slaves may change. -/
  refreshed : Set Nat := ∅
  /-- Remotes whose buttons may change. -/
  pressed : Set Nat := ∅

/-- The names under which a remote stores its buttons. -/
def Remote.buttonNames : List QString := ["Left", "Up", "Right", "Down", "Action"]

namespace World

structure Keeps (F : Footprint) (w w' : World) : Prop where
  roster : w'.toRoster = w.toRoster
  slaves : ∀ g, g ∉ F.refreshed → w'.slaves g = w.slaves g
  slavesFrom : ∀ g, List.Sublist (w'.slaves g) (w.slaves g) ∨
    List.Sublist (w'.slaves g) (w.patch.remotesOf (w.groupName g))
  sorted : ∀ g, Assoc.Sorted (w.json (.group g)) → Assoc.Sorted (w'.json (.group g))
  groupKeys : ∀ g (k : QString), (w.json (.group g)).contains k → (w'.json (.group g)).contains k
  netKeys : ∀ k : QString, (w.json .virtualNet).contains k → (w'.json .virtualNet).contains k
  patchJson : (w'.json .network).value "Patch" = (w.json .network).value "Patch"
  groupValue : ∀ g (k : QString), k ≠ "avatarsNbr" → (k = "slavesNbr" → g ∉ F.refreshed) →
    (∀ n, .member g n ∈ F.notified → w.vRemoteName (.member g n) ≠ k) →
      (w'.json (.group g)).value k = (w.json (.group g)).value k
  remoteID : ∀ v, v ∉ F.edited → w'.get (.vRemote v) "remoteID" = w.get (.vRemote v) "remoteID"
  otherID : ∀ v, v ∉ F.rewritten → w'.get (.vRemote v) "RemoteID" = w.get (.vRemote v) "RemoteID"
  triggers : ∀ v, v ∉ F.edited → w'.anyTrigger v = w.anyTrigger v ∧ w'.triggers v = w.triggers v
  buttons : ∀ r, r ∉ F.pressed → ∀ k ∈ Remote.buttonNames,
    w'.get (.remote r) k = w.get (.remote r) k

variable {F : Footprint} {w w' w'' : World}

theorem Keeps.refl (F : Footprint) (w : World) : Keeps F w w where
  roster := rfl
  slaves _ _ := rfl
  slavesFrom _ := .inl (.refl _)
  sorted _ h := h
  groupKeys _ _ h := h
  netKeys _ h := h
  patchJson := rfl
  groupValue _ _ _ _ _ := rfl
  remoteID _ _ := rfl
  otherID _ _ := rfl
  triggers _ _ := ⟨rfl, rfl⟩
  buttons _ _ _ _ := rfl

theorem Keeps.trans (h : Keeps F w w') (h' : Keeps F w' w'') : Keeps F w w'' where
  roster := h'.roster.trans h.roster
  slaves g out := (h'.slaves g out).trans (h.slaves g out)
  slavesFrom g := by
    have later := h'.slavesFrom g
    rw [h.roster] at later
    rcases later with fewer | row
    · exact (h.slavesFrom g).imp fewer.trans fewer.trans
    · exact .inr row
  sorted g s := h'.sorted g (h.sorted g s)
  groupKeys g k c := h'.groupKeys g k (h.groupKeys g k c)
  netKeys k c := h'.netKeys k (h.netKeys k c)
  patchJson := h'.patchJson.trans h.patchJson
  groupValue g k avatars slaves names := by
    have names' : ∀ n, .member g n ∈ F.notified → w'.vRemoteName (.member g n) ≠ k := by
      rw [h.roster]
      exact names
    exact (h'.groupValue g k avatars slaves names').trans (h.groupValue g k avatars slaves names)
  remoteID v out := (h'.remoteID v out).trans (h.remoteID v out)
  otherID v out := (h'.otherID v out).trans (h.otherID v out)
  triggers v out :=
    ⟨(h'.triggers v out).1.trans (h.triggers v out).1,
      (h'.triggers v out).2.trans (h.triggers v out).2⟩
  buttons r out k member := (h'.buttons r out k member).trans (h.buttons r out k member)

/-- A loop keeps what each of its turns keeps. -/
theorem Keeps.foldl {ι : Type} {f : World → ι → World} (l : List ι)
    (step : ∀ w i, i ∈ l → Keeps F w (f w i)) (w : World) : Keeps F w (l.foldl f w) := by
  induction l generalizing w with
  | nil => exact .refl F w
  | cons i l ih =>
      exact (step w i List.mem_cons_self).trans
        (ih (fun w j member => step w j (List.mem_cons_of_mem i member)) (f w i))

/-! ## JSON -/

/-- Where JSON may be written. -/
def Writes (F : Footprint) (w : World) : NodeRef → QString → Prop
  | .vRemote v, k => (k = "remoteID" → v ∈ F.edited) ∧ k ≠ "RemoteID"
  | .group g, k => k = "avatarsNbr" ∨ (k = "slavesNbr" ∧ g ∈ F.refreshed) ∨
      ∃ n, .member g n ∈ F.notified ∧ w.vRemoteName (.member g n) = k
  | .network, k => k ≠ "Patch"
  | .remote r, k => k ∈ Remote.buttonNames → r ∈ F.pressed
  | _, _ => True

theorem contains_insert {o : QJsonObject} {k k' : QString} {v : QJsonValue} (h : o.contains k') :
    (o.insert k v).contains k' := by
  by_cases same : k' = k
  · subst same
    simp [QJsonObject.contains]
  · simpa [QJsonObject.contains, same] using h

theorem keeps_putJson {n : NodeRef} {k : QString} (allowed : Writes F w n k) (v : QJsonValue) :
    Keeps F w (w.putJson n k v) where
  roster := rfl
  slaves _ _ := rfl
  slavesFrom _ := .inl (.refl _)
  sorted g h := by
    by_cases here : NodeRef.group g = n
    · subst here
      simp only [putJson, setJson, Function.update_self]
      exact Assoc.insert_sorted k v h
    · simpa [putJson, setJson, here] using h
  groupKeys g k' h := by
    by_cases here : NodeRef.group g = n
    · subst here
      simpa [putJson, setJson] using contains_insert h
    · simpa [putJson, setJson, here] using h
  netKeys k' h := by
    by_cases here : NodeRef.virtualNet = n
    · subst here
      simpa [putJson, setJson] using contains_insert h
    · simpa [putJson, setJson, here] using h
  patchJson := by
    by_cases here : NodeRef.network = n
    · subst here
      have other : ("Patch" : QString) ≠ k := fun same => allowed same.symm
      simp [putJson, setJson, other]
    · simp [putJson, setJson, here]
  groupValue g k' avatars slaves names := by
    by_cases here : NodeRef.group g = n
    · subst here
      have other : k' ≠ k := by
        rintro rfl
        rcases allowed with rfl | ⟨rfl, inside⟩ | ⟨m, inside, rfl⟩
        · exact avatars rfl
        · exact slaves rfl inside
        · exact names m inside rfl
      simp [putJson, setJson, other]
    · simp [putJson, setJson, here]
  remoteID v' out := by
    by_cases here : NodeRef.vRemote v' = n
    · subst here
      have other : k ≠ "remoteID" := fun same => out (allowed.1 same)
      simp [get, putJson, setJson, other.symm]
    · simp [get, putJson, setJson, here]
  otherID v' out := by
    by_cases here : NodeRef.vRemote v' = n
    · subst here
      simp [get, putJson, setJson, allowed.2.symm]
    · simp [get, putJson, setJson, here]
  triggers _ _ := ⟨rfl, rfl⟩
  buttons r out k' member := by
    by_cases here : NodeRef.remote r = n
    · subst here
      have other : k' ≠ k := by
        rintro rfl
        exact out (allowed member)
      simp [get, putJson, setJson, other]
    · simp [get, putJson, setJson, here]

/-- Whether the JSON of a node may be copied into its ancestors'. -/
def Mirrors (F : Footprint) : NodeRef → Prop
  | .vRemote v => v ∈ F.notified
  | .event v _ => v ∈ F.notified
  | .patch => False
  | _ => True

theorem nodeName_ne (b : Button) : b.nodeName ≠ "remoteID" ∧ b.nodeName ≠ "RemoteID" := by
  fin_cases b <;> decide

theorem keeps_updateParentJSon {n : NodeRef} (allowed : Mirrors F n) :
    Keeps F w (w.updateParentJSon n) := by
  have put : ∀ (w : World) (p : NodeRef) (k : QString) (v : QJsonValue), Writes F w p k →
      Keeps F w (w.putJson p k v) := fun w p k v allowed => keeps_putJson allowed v
  -- A virtual remote is copied into its group, if it has one, and on from there.
  have vRemote : ∀ (w : World) (v : VRef), v ∈ F.notified →
      Keeps F w (w.mirror (.vRemote v) v.ancestors) := by
    intro w v inside
    cases v with
    | free n => exact (put _ .virtualNet _ _ trivial).trans (put _ .eventModel _ _ trivial)
    | member g n =>
        exact (put _ (.group g) _ _ (.inr (.inr ⟨n, inside, rfl⟩))).trans
          ((put _ .virtualNet _ _ trivial).trans (put _ .eventModel _ _ trivial))
  cases n with
  | network | eventModel => exact .refl F w
  | patch => exact allowed.elim
  | remoteList => exact put _ .network _ _ (show ("Remotes" : QString) ≠ "Patch" by decide)
  | virtualNet => exact put _ .eventModel _ _ trivial
  | remote r =>
      exact (put _ .remoteList _ _ trivial).trans
        (put _ .network _ _ (show ("Remotes" : QString) ≠ "Patch" by decide))
  | group g => exact (put _ .virtualNet _ _ trivial).trans (put _ .eventModel _ _ trivial)
  | vRemote v => exact vRemote w v allowed
  | event v b =>
      obtain ⟨name, name'⟩ := nodeName_ne b
      exact (put _ (.vRemote v) _ _ ⟨fun same => absurd same name, name'⟩).trans (vRemote _ v allowed)

theorem keeps_assign {n : NodeRef} {name : QString} (mirrors : Mirrors F n)
    (writes : Writes F w n name) (same : QJsonValue → Bool) (v : QJsonValue) :
    Keeps F w (w.assign n name same v).2 := by
  unfold assign
  split
  · exact .refl F w
  · exact (keeps_putJson writes v).trans (keeps_updateParentJSon mirrors)

theorem keeps_setString {n : NodeRef} {name : QString} (mirrors : Mirrors F n)
    (writes : Writes F w n name) (value : QString) : Keeps F w (w.setString n name value).2 :=
  keeps_assign mirrors writes _ _

theorem keeps_setNumber {n : NodeRef} {name : QString} (mirrors : Mirrors F n)
    (writes : Writes F w n name) (value : ℚ) : Keeps F w (w.setNumber n name value).2 :=
  keeps_assign mirrors writes _ _

/-- The JSON of a node on which the routing of events does not rest, or of one whose JSON may be
    replaced. -/
theorem keeps_setJson {n : NodeRef}
    (vRemote : ∀ v, n = .vRemote v → v ∈ F.edited ∧ v ∈ F.rewritten) (group : ∀ g, n ≠ .group g)
    (net : n ≠ .virtualNet) (network : n ≠ .network) (remote : ∀ r, n = .remote r → r ∈ F.pressed)
    (o : QJsonObject) : Keeps F w (w.setJson n o) := by
  have same : ∀ n', n' ≠ n → (w.setJson n o).json n' = w.json n' := by
    intro n' other
    simp [setJson, other]
  refine ⟨rfl, fun _ _ => rfl, fun _ => .inl (.refl _), ?_, ?_, ?_, ?_, ?_, ?_, ?_,
    fun _ _ => ⟨rfl, rfl⟩, ?_⟩
  · intro g h
    rwa [same _ (group g).symm]
  · intro g k h
    rwa [same _ (group g).symm]
  · intro k h
    rwa [same _ net.symm]
  · rw [same _ network.symm]
  · intro g k _ _ _
    rw [same _ (group g).symm]
  · intro v out
    simp only [get, same _ fun here => out (vRemote v here.symm).1]
  · intro v out
    simp only [get, same _ fun here => out (vRemote v here.symm).2]
  · intro r out k _
    simp only [get, same _ fun here => out (remote r here.symm)]

/-- Changes of the remotes, the radio and the log. -/
theorem keeps_of_same (roster : w'.toRoster = w.toRoster) (json : w'.json = w.json)
    (slaves : w'.slaves = w.slaves) (anyTrigger : w'.anyTrigger = w.anyTrigger)
    (triggers : w'.triggers = w.triggers) : Keeps F w w' := by
  refine ⟨roster, ?_, ?_, ?_, ?_, ?_, ?_, ?_, ?_, ?_, ?_, ?_⟩
  · exact fun g _ => congrFun slaves g
  · exact fun g => .inl (slaves ▸ .refl _)
  · exact fun g h => json ▸ h
  · exact fun g k h => json ▸ h
  · exact fun k h => json ▸ h
  · rw [json]
  · exact fun g k _ _ _ => by rw [json]
  · exact fun v _ => by simp only [get, json]
  · exact fun v _ => by simp only [get, json]
  · exact fun v _ => ⟨congrFun anyTrigger v, congrFun triggers v⟩
  · exact fun r _ k _ => by simp only [get, json]

theorem keeps_observe (o : Observation) : Keeps F w (w.observe o) :=
  keeps_of_same rfl rfl rfl rfl rfl

end World

open World

variable {F : Footprint} {w : World}

/-! ## Remotes -/

theorem RemoteList.keeps_drop (r : Nat) : Keeps F w (drop w r) :=
  (keeps_setJson (by simp) (by simp) (by simp) (by simp) (by simp) _).trans
    ((keeps_updateParentJSon (n := .remoteList) trivial).trans
      (keeps_of_same rfl rfl rfl rfl rfl))

theorem RemoteList.keeps_removeRemote (address : QString) :
    Keeps F w (removeRemote w address) := by
  unfold removeRemote
  split
  · exact .refl F w
  · exact keeps_drop _

theorem RemoteList.keeps_removeEmulatedRemote (name : QString) :
    Keeps F w (removeEmulatedRemote w name).2 := by
  unfold removeEmulatedRemote
  split
  · exact .refl F w
  · split
    · exact .refl F w
    · exact keeps_drop _

namespace RealRemote

theorem keeps_remote (r : Nat) : Keeps F w (remote w r).2 := by
  unfold remote
  split
  · exact .refl F w
  · split
    · exact keeps_of_same rfl rfl rfl rfl rfl
    · exact RemoteList.keeps_removeRemote _

theorem keeps_safeSendMsg (r : Nat) (key : StdString) (type : XBEE_MSG_TYPE) (data : HexData) :
    Keeps F w (safeSendMsg w r key type data) := by
  have reached : Keeps F w (remote w r).2 := keeps_remote r
  unfold safeSendMsg
  split
  · rename_i w' found
    rwa [found] at reached
  · rename_i i w' found
    rw [found] at reached
    exact reached.trans (keeps_of_same rfl rfl rfl rfl rfl)

theorem keeps_sendLed (r : Nat) (e : FTriggerEvent) (v : HexData) :
    Keeps F w (sendLed w r e v) := by
  cases e with
  | led | led1 | led2 | led3 => exact keeps_safeSendMsg r _ _ _
  | up | down | right | left | action => exact .refl F w

theorem keeps_sendState (r : Nat) (value : QString) : Keeps F w (sendState w r value) := by
  unfold sendState
  split
  · exact keeps_safeSendMsg r _ _ _
  · split
    · exact keeps_safeSendMsg r _ _ _
    · exact keeps_remote r

end RealRemote

theorem World.keeps_tick (i : Nat) : Keeps F w (w.tick i).2 := by
  unfold tick
  split
  · exact .refl F w
  · exact keeps_of_same rfl rfl rfl rfl rfl

theorem EmulatedRemote.keeps_forwardLed (r : Nat) (e : FTriggerEvent) (v : HexData) :
    Keeps F w (forwardLed w r e v) := by
  unfold forwardLed
  dsimp only
  split
  · exact .refl F w
  · split
    · exact keeps_observe _
    · exact .refl F w

namespace Remote

theorem keeps_setNumber (r : Nat) {name : QString} (other : name ∉ buttonNames) (value : ℚ) :
    Keeps F w (w.setNumber (.remote r) name value).2 :=
  World.keeps_setNumber (n := .remote r) trivial (fun button => absurd button other) value

theorem keeps_setString (r : Nat) {name : QString} (other : name ∉ buttonNames)
    (value : QString) : Keeps F w (w.setString (.remote r) name value).2 :=
  World.keeps_setString (n := .remote r) trivial (fun button => absurd button other) value

theorem keeps_storeLed (r : Nat) (e : FTriggerEvent) (v : HexData) :
    Keeps F w (storeLed w r e v).2 := by
  cases e with
  | led =>
      exact (keeps_setNumber r (by decide) _).trans
        ((keeps_setNumber r (by decide) _).trans (keeps_setNumber r (by decide) _))
  | led1 | led2 | led3 => exact keeps_setNumber r (by decide) _
  | up | down | right | left | action => exact .refl F w

theorem keeps_triggerLed (r : Nat) (e : FTriggerEvent) (v : HexData) :
    Keeps F w (triggerLed w r e v).2 := by
  unfold triggerLed
  dsimp only
  refine (keeps_observe (.commanded r e v)).trans (.trans ?_ (keeps_storeLed r e v))
  split
  · exact RealRemote.keeps_sendLed r e v
  · exact EmulatedRemote.keeps_forwardLed r e v

theorem keeps_setState (r : Nat) (value : QString) : Keeps F w (setState w r value).2 := by
  unfold setState
  dsimp only
  refine (keeps_observe (.stateSet r value)).trans
    (.trans ?_ (keeps_setString r (by decide) value))
  split
  · exact RealRemote.keeps_sendState r value
  · exact .refl F _

theorem keeps_setLed (r : Nat) (e : FTriggerEvent) (value : QString) :
    Keeps F w (setLed w r e value).2 := by
  unfold setLed
  split
  · exact .refl F w
  · exact keeps_triggerLed r e _

theorem keeps_setValue (r : Nat) (name value : QString) :
    Keeps F w (setValue w r name value).2 := by
  unfold setValue
  split
  · exact keeps_setLed r _ value
  · split
    · exact keeps_setLed r _ value
    · split
      · exact keeps_setLed r _ value
      · split
        · exact keeps_setState r value
        · exact .refl F w

theorem keeps_callLed (r : Nat) (value : QString) : Keeps F w (callLed w r value).2 := by
  unfold callLed
  split
  · exact .refl F w
  · exact keeps_triggerLed r _ _

end Remote

/-! ## Events -/

namespace Event

theorem keeps_trigger (v : VRef) (b : Button) (name : QString) (t : EventTrigger) :
    Keeps F w (trigger w v b name t) := by
  apply Keeps.foldl
  rintro w ⟨definition, hasCallback⟩ -
  dsimp only
  split
  · exact keeps_observe _
  · exact .refl F w

theorem keeps_triggerEvent (v : VRef) (b : Button) (name : QString) :
    Keeps F w (triggerEvent w v b name).2 := by
  have any : Keeps F w (trigger (w.observe (.fired v b name)) v b "any" (w.anyTrigger v b)) :=
    (keeps_observe _).trans (keeps_trigger v b "any" _)
  unfold triggerEvent
  dsimp only
  split
  · exact any
  · exact any.trans (keeps_trigger v b name _)

theorem keeps_eventByTrigger (v : VRef) (b : Button) (name : QString) :
    Keeps F w (eventByTrigger w v b name).2 := by
  unfold eventByTrigger
  split
  · exact .refl F w
  · split
    · exact .refl F w
    · exact keeps_trigger v b name _

theorem keeps_setTrigger {v : VRef} (inside : v ∈ F.edited) (b : Button) (name : QString)
    (t : EventTrigger) : Keeps F w (setTrigger w v b name t) := by
  have others : ∀ {β : Type} (f : VRef → β) (x : β) v', v' ∉ F.edited →
      Function.update f v x v' = f v' := by
    intro β f x v' out
    apply Function.update_of_ne
    rintro rfl
    exact out inside
  unfold setTrigger
  split
  · exact { Keeps.refl F w with triggers := fun v' out => ⟨others _ _ v' out, rfl⟩ }
  · exact { Keeps.refl F w with triggers := fun v' out => ⟨rfl, others _ _ v' out⟩ }

theorem keeps_readArray (v : VRef) (b : Button) (name : QString) :
    Keeps F w (readArray w (.event v b) name).2 := by
  unfold readArray
  dsimp only
  split
  · exact .refl F w
  · exact keeps_putJson (n := .event v b) trivial _

variable {v : VRef} (notified : v ∈ F.notified) (edited : v ∈ F.edited)

include notified edited

theorem keeps_addEvent (b : Button) (description name : QString) :
    Keeps F w (addEvent w v b description name).2 := by
  have looked : Keeps F w (eventByTrigger w v b name).2 := keeps_eventByTrigger v b name
  unfold addEvent
  cases found : eventByTrigger w v b name with
  | mk t? w₁ =>
      rw [found] at looked
      have read : Keeps F w₁ (if t?.isSome then readArray w₁ (.event v b) name else ([], w₁)).2 := by
        split
        · exact keeps_readArray v b name
        · exact .refl F w₁
      dsimp only
      generalize (if t?.isSome then readArray w₁ (.event v b) name else ([], w₁)) = array at read
      generalize EventTrigger.addEvent _ _ _ = added
      have set := (looked.trans read).trans (keeps_setTrigger edited b name added.2)
      split
      · exact set.trans ((keeps_putJson (n := .event v b) trivial _).trans
          (keeps_updateParentJSon (n := .event v b) notified))
      · exact set

theorem keeps_removeEvent (b : Button) (definition name : QString) :
    Keeps F w (removeEvent w v b definition name).2 := by
  have looked : Keeps F w (eventByTrigger w v b name).2 := keeps_eventByTrigger v b name
  unfold removeEvent
  split
  · rename_i w₁ found
    rwa [found] at looked
  · rename_i t w₁ found
    rw [found] at looked
    split
    · exact looked
    · have read := (looked.trans (keeps_setTrigger edited b name (t.erase definition))).trans
        (keeps_readArray v b name)
      dsimp only
      split
      · exact read.trans (keeps_updateParentJSon (n := .event v b) notified)
      · exact read

end Event

/-! ## The mutex -/

/-- The mutex can be taken. -/
def World.Unlocked (w : World) : Prop := w.mutex ≠ .held

theorem World.Keeps.unlocked {w' : World} (kept : Keeps F w w') (h : w.Unlocked) : w'.Unlocked := by
  unfold Unlocked
  rw [kept.roster]
  exact h

/-- Taking the mutex and giving it back changes nothing. -/
theorem World.lock_eq (h : w.Unlocked) : ∃ w', w.lock = .ok w' ∧ w'.unlock = w ∧
    w'.patch = w.patch := by
  unfold lock
  cases state : w.mutex with
  | noop => exact ⟨w, rfl, by simp [unlock, state], rfl⟩
  | free =>
      refine ⟨_, rfl, ?_, rfl⟩
      obtain ⟨⟨⟩⟩ := w
      simp_all [unlock]
  | held => exact absurd state h

theorem World.lock_held (h : w.mutex = .held) : w.lock = .error .deadlock := by
  unfold lock
  rw [h]
  rfl

/-- Failures which the mutex is not to blame for, or which it is when it is held already. -/
def World.MayFail (w : World) (e : Fault) : Prop := e = .deadlock → w.mutex = .held

theorem World.mayFail_of_ne {w : World} {e : Fault} (other : e ≠ .deadlock) : w.MayFail e :=
  fun same => absurd same other

theorem World.Keeps.mayFail_eq {w' : World} (kept : Keeps F w w') : w'.MayFail = w.MayFail := by
  unfold MayFail
  rw [kept.roster]

theorem World.Keeps.ends {α : Type} {w' : World} (kept : Keeps F w w') {x : Except Fault α}
    {post : α → Prop} (h : Ends w'.MayFail x post) : Ends w.MayFail x post :=
  h.mono_err fun _ failed => kept.mayFail_eq ▸ failed

/-- One step after the other. -/
theorem World.Keeps.bind {α β : Type} {x : Except Fault (α × World)}
    {f : α × World → Except Fault β} {post : β → Prop}
    (first : Ends w.MayFail x fun p => Keeps F w p.2)
    (next : ∀ a w', Keeps F w w' → Ends w'.MayFail (f (a, w')) post) :
    Ends w.MayFail (x >>= f) post :=
  Ends.bind first fun p kept => kept.ends (next p.1 p.2 kept)

/-- The remotes which the patch gives for a virtual element. -/
def World.linkedRemotes (w : World) (vName : QString) : List Nat :=
  (w.patch.remotesOf vName).filterMap (RemoteList.byName w)

theorem PatchNode.remoteList_ends (vName : QString) :
    Ends w.MayFail (remoteList w vName) fun p => p = (w.linkedRemotes vName, w) := by
  by_cases held : w.mutex = .held
  · rw [remoteList, lock_held held]
    exact fun _ => held
  · obtain ⟨w', locked, unlocked, patch⟩ := lock_eq held
    simp only [remoteList, locked, bind, Except.bind, unlocked, patch]
    exact rfl

/-! ## Virtual remotes -/

namespace VirtualRemote

/-- What `patchedRemotes` returns. -/
def target (w : World) : VRef → List Nat
  | .free n => w.linkedRemotes (w.vRemoteName (.free n))
  | .member g n =>
      if ("Global" : QString) <+: w.vRemoteName (.member g n) then w.linkedRemotes (w.groupName g)
      else
        let rName := VirtualGroup.slave w g (w.get (.vRemote (.member g n)) "RemoteID").toInt
        if rName.isEmpty then [] else (RemoteList.byName w rName).toList

theorem patchedRemotes_ends (v : VRef) :
    Ends w.MayFail (patchedRemotes w v) fun p => p = (target w v, w) := by
  cases v with
  | free n => exact PatchNode.remoteList_ends _
  | member g n =>
      simp only [patchedRemotes, target]
      split
      · exact PatchNode.remoteList_ends _
      · exact rfl

theorem keeps_sendFastTrigger (v : VRef) (data : HexData) :
    Ends w.MayFail (sendFastTrigger w v data) (Keeps F w) := by
  apply (patchedRemotes_ends v).bind
  rintro _ rfl
  exact Keeps.foldl (target w v) (fun w r _ => Remote.keeps_triggerLed r .led data) w

variable {v : VRef} (notified : v ∈ F.notified)

include notified

theorem keeps_setString {name : QString} (other : name ≠ "remoteID") (other' : name ≠ "RemoteID")
    (value : QString) : Keeps F w (w.setString (.vRemote v) name value).2 :=
  World.keeps_setString (n := .vRemote v) notified ⟨fun same => absurd same other, other'⟩ value

theorem keeps_showRemote (r? : Option Nat) : Keeps F w (showRemote w v r?) := by
  have put : ∀ (w : World) (name value : QString), name ≠ "remoteID" → name ≠ "RemoteID" →
      Keeps F w (w.setString (.vRemote v) name value).2 :=
    fun w name value other other' => keeps_setString notified other other' value
  cases r? with
  | none =>
      exact (put _ "Up" _ (by decide) (by decide)).trans
        ((put _ "Down" _ (by decide) (by decide)).trans
          ((put _ "Left" _ (by decide) (by decide)).trans
            ((put _ "Right" _ (by decide) (by decide)).trans
              (put _ "Action" _ (by decide) (by decide)))))
  | some r =>
      exact (put _ "Up" _ (by decide) (by decide)).trans
        ((put _ "Down" _ (by decide) (by decide)).trans
          ((put _ "Left" _ (by decide) (by decide)).trans
            ((put _ "Right" _ (by decide) (by decide)).trans
              (put _ "Action" _ (by decide) (by decide)))))

theorem keeps_updateVirtualRemote : Ends w.MayFail (updateVirtualRemote w v) (Keeps F w) := by
  apply (patchedRemotes_ends v).bind
  rintro _ rfl
  exact keeps_showRemote notified _

theorem keeps_fastTrigger (e : FTriggerEvent) (data : HexData) :
    Ends w.MayFail (fastTrigger w v e data) fun p => Keeps F w p.2 := by
  unfold fastTrigger
  split
  · apply (keeps_sendFastTrigger v data).bind
    intro w' kept
    exact kept.trans (World.keeps_setNumber (n := .vRemote v) notified
      ⟨fun same => absurd same (by decide), by decide⟩ _)
  · split
    · refine (Event.keeps_triggerEvent v _ _).trans (keeps_setString notified ?_ ?_ _)
      · cases e <;> decide
      · cases e <;> decide
    · exact mayFail_of_ne (by decide)

theorem keeps_setValue (edited : v ∈ F.edited) (name value : QString) :
    Ends w.MayFail (setValue w v name value) fun p => Keeps F w p.2 := by
  unfold setValue
  split
  · split
    · exact mayFail_of_ne (by decide)
    · split
      · exact .refl F w
      · exact keeps_fastTrigger notified _ _
  · split
    · split
      · exact .refl F w
      · exact keeps_fastTrigger notified _ _
    · split
      · rename_i state
        subst state
        apply (patchedRemotes_ends v).bind
        rintro _ rfl
        have told := Keeps.foldl (F := F) (target w v)
          (fun w r _ => Remote.keeps_setState r value) w
        exact told.trans (keeps_setString notified (by decide) (by decide) value)
      · split
        · rename_i id
          split
          · exact .refl F w
          · rename_i n _
            have put : Keeps F w (w.setNumber (.vRemote v) name ((Byte.ofInt n).val : ℚ)).2 :=
              World.keeps_setNumber (n := .vRemote v) notified
                ⟨fun _ => edited, id.1 ▸ by decide⟩ _
            refine Ends.bind (put.ends (keeps_updateVirtualRemote notified)) ?_
            exact fun w' kept => put.trans kept
        · exact .refl F w

end VirtualRemote

/-! ## Groups -/

/-- A virtual remote of a group. -/
def VirtualGroup.Member (w : World) (g : Nat) (v : VRef) : Prop :=
  w.globalRemote g = some v ∨ some v ∈ w.virtualRemotes g

theorem World.keeps_foldlM {ι : Type} {f : World → ι → Except Fault World} {l : List ι}
    (step : ∀ w', Keeps F w w' → ∀ i ∈ l, Ends w'.MayFail (f w' i) (Keeps F w')) :
    Ends w.MayFail (l.foldlM f w) (Keeps F w) := by
  have start : Keeps F w w ∧ ∀ i ∈ l, i ∈ l := ⟨.refl F w, fun _ member => member⟩
  apply (Ends.foldlM (I := fun rest w' => Keeps F w w' ∧ ∀ i ∈ rest, i ∈ l) start ?_).mono
  · exact fun w' kept => kept.1
  · rintro i rest w' ⟨kept, inside⟩
    apply (kept.ends (step w' kept i (inside i List.mem_cons_self))).mono
    exact fun w'' more => ⟨kept.trans more, fun j member => inside j (List.mem_cons_of_mem i member)⟩

namespace VirtualGroup

variable {g : Nat}

theorem keeps_setSlaves (refreshed : g ∈ F.refreshed) {slaves : QStringList}
    (row : slaves.Sublist (w.slaves g) ∨ slaves.Sublist (w.patch.remotesOf (w.groupName g))) :
    Keeps F w (setSlaves w g slaves) := by
  have stored : Keeps F w { w with slaves := Function.update w.slaves g slaves } := by
    refine { Keeps.refl F w with slaves := ?_, slavesFrom := ?_ }
    · intro g' out
      apply Function.update_of_ne
      rintro rfl
      exact out refreshed
    · intro g'
      by_cases same : g' = g
      · subst same
        simpa using row
      · simp [same]
  exact stored.trans (World.keeps_setNumber (n := .group g) trivial (.inr (.inl ⟨rfl, refreshed⟩)) _)

theorem keeps_refreshSlaves (refreshed : g ∈ F.refreshed) : Keeps F w (refreshSlaves w g) := by
  unfold refreshSlaves
  dsimp only
  split
  · exact keeps_setSlaves refreshed (.inr (.refl _))
  · exact .refl F w

variable (notified : ∀ v, Member w g v → v ∈ F.notified)

include notified

theorem keeps_updateVirtualRemotes : Ends w.MayFail (updateVirtualRemotes w g) (Keeps F w) := by
  unfold updateVirtualRemotes
  cases found : w.globalRemote g with
  | none => exact mayFail_of_ne (by decide)
  | some v =>
      apply (VirtualRemote.keeps_updateVirtualRemote (notified v (.inl found))).bind
      intro w₁ kept
      have avatars : w₁.virtualRemotes = w.virtualRemotes := by rw [kept.roster]
      rw [avatars]
      apply (kept.ends (keeps_foldlM ?_)).mono fun w₂ more => kept.trans more
      intro w₂ more r member
      cases r with
      | none => exact mayFail_of_ne (by decide)
      | some v' => exact VirtualRemote.keeps_updateVirtualRemote (notified v' (.inr member))

theorem keeps_updateFromPatch (refreshed : g ∈ F.refreshed) :
    Ends w.MayFail (updateFromPatch w g) (Keeps F w) := by
  have refresh : Keeps F w (refreshSlaves w g) := keeps_refreshSlaves refreshed
  have members : ∀ v, Member (refreshSlaves w g) g v → v ∈ F.notified := by
    unfold Member
    rw [refresh.roster]
    exact notified
  exact (refresh.ends (keeps_updateVirtualRemotes members)).mono fun w' more => refresh.trans more

theorem keeps_removeSlave (refreshed : g ∈ F.refreshed) (slaveName : QString) :
    Ends w.MayFail (removeSlave w g slaveName) (Keeps F w) := by
  have removed : Keeps F w (setSlaves w g ((w.slaves g).erase slaveName)) :=
    keeps_setSlaves refreshed (.inl List.erase_sublist)
  have members : ∀ v, Member (setSlaves w g ((w.slaves g).erase slaveName)) g v →
      v ∈ F.notified := by
    unfold Member
    rw [removed.roster]
    exact notified
  exact (removed.ends (keeps_updateFromPatch members refreshed)).mono
    fun w' more => removed.trans more

theorem keeps_fastTrigger (rName : QString) (e : FTriggerEvent) (data : HexData) :
    Ends w.MayFail (fastTrigger w g rName e data) (Keeps F w) := by
  unfold fastTrigger
  split
  · exact .refl F w
  · rename_i id _
    refine Ends.bind (M := Keeps F w) (keeps_foldlM ?_) ?_
    · intro w₁ kept r member
      cases r with
      | none => exact mayFail_of_ne (by decide)
      | some v =>
          simp only [triggerAvatar]
          split
          · exact Keeps.bind (VirtualRemote.keeps_fastTrigger (notified v (.inr member)) e data)
              fun _ w₂ more => more
          · exact .refl F w₁
    · intro w₁ kept
      have global : w₁.globalRemote g = w.globalRemote g := by rw [kept.roster]
      rw [global]
      cases found : w.globalRemote g with
      | none => exact mayFail_of_ne (by decide)
      | some v =>
          exact kept.ends (Keeps.bind
            (VirtualRemote.keeps_fastTrigger (notified v (.inl found)) e data)
            fun _ w₂ more => kept.trans more)

end VirtualGroup

/-! ## The network -/

namespace World

/-- A virtual remote which events can reach. -/
def Live (w : World) (v : VRef) : Prop :=
  (∃ n ∈ w.vRemotes, v = .free n) ∨ ∃ g ∈ w.vGroups, VirtualGroup.Member w g v

/-- Triggers stay within this footprint. -/
def live (w : World) : Footprint where
  notified := {v | w.Live v}

/-- Triggers and the buttons of a remote. -/
def pressing (w : World) (r : Nat) : Footprint := { w.live with pressed := {r} }

theorem Keeps.press {w' : World} (kept : Keeps w.live w w') (r : Nat) :
    Keeps (w.pressing r) w w' :=
  { kept with buttons := fun r' _ => kept.buttons r' (Set.notMem_empty r') }

theorem Keeps.live_eq {w' : World} (kept : Keeps F w w') : w'.live = w.live := by
  unfold live Live VirtualGroup.Member
  rw [kept.roster]

theorem Live.of_member {g : Nat} {v : VRef} (inside : g ∈ w.vGroups)
    (member : VirtualGroup.Member w g v) : w.Live v :=
  .inr ⟨g, inside, member⟩

end World

namespace VirtualNetwork

theorem groupByName_eq_some {name : QString} {g : Nat} (found : groupByName w name = some g) :
    g ∈ w.vGroups ∧ w.groupName g = name := by
  unfold groupByName at found
  exact ⟨List.mem_of_find?_eq_some found, by simpa using List.find?_some found⟩

theorem remoteByName_eq_some {name : QString} {n : Nat} (found : remoteByName w name = some n) :
    n ∈ w.vRemotes ∧ w.vRemoteName (.free n) = name := by
  unfold remoteByName at found
  exact ⟨List.mem_of_find?_eq_some found, by simpa using List.find?_some found⟩

theorem keeps_triggerElement (rName : QString) (e : FTriggerEvent) (data : HexData)
    (elementName : QString) :
    Ends w.MayFail (triggerElement rName e data w elementName) (Keeps w.live w) := by
  unfold triggerElement
  split
  · rename_i g found
    obtain ⟨inside, -⟩ := groupByName_eq_some found
    exact VirtualGroup.keeps_fastTrigger (F := w.live) (fun v => Live.of_member inside) rName e data
  · split
    · rename_i n found
      obtain ⟨inside, -⟩ := remoteByName_eq_some found
      have live : VRef.free n ∈ w.live.notified := .inl ⟨n, inside, rfl⟩
      exact Keeps.bind (VirtualRemote.keeps_fastTrigger live e data) fun _ w' kept => kept
    · exact .refl _ w

theorem keeps_fastTrigger (virtualElements : QStringList) (rName : QString) (e : FTriggerEvent)
    (data : HexData) :
    Ends w.MayFail (fastTrigger w virtualElements rName e data) (Keeps w.live w) := by
  apply keeps_foldlM
  intro w' kept elementName _
  rw [← kept.live_eq]
  exact keeps_triggerElement rName e data elementName

end VirtualNetwork

/-- The notification of an element stays within this footprint. -/
def World.around (w : World) (element : Option Element) : Footprint where
  notified := {v | w.Live v}
  refreshed := {g | element = some (.group g)}

theorem VirtualNetwork.elementByName_eq_some {vName : QString} {element : Element}
    (found : elementByName w vName = some element) :
    match element with
    | .group g => g ∈ w.vGroups ∧ w.groupName g = vName
    | .vRemote n => n ∈ w.vRemotes ∧ w.vRemoteName (.free n) = vName := by
  unfold elementByName at found
  split at found
  · rename_i g group
    obtain rfl := Option.some.inj found
    exact groupByName_eq_some group
  · obtain ⟨n, remote, rfl⟩ := Option.map_eq_some_iff.mp found
    exact remoteByName_eq_some remote

/-- The element is one of the virtual network. -/
def Element.Existing (w : World) : Option Element → Prop
  | some (.group g) => g ∈ w.vGroups
  | some (.vRemote n) => n ∈ w.vRemotes
  | none => True

theorem VirtualNetwork.elementByName_existing (vName : QString) :
    Element.Existing w (elementByName w vName) := by
  cases found : elementByName w vName with
  | none => trivial
  | some element =>
      have inside := elementByName_eq_some found
      cases element with
      | group g => exact inside.1
      | vRemote n => exact inside.1

theorem PatchNode.keeps_notify (rName : QString) {element : Option Element}
    (existing : Element.Existing w element) :
    Ends w.MayFail (notify w rName element) (Keeps (w.around element) w) := by
  match element, existing with
  | none, _ => exact .refl _ w
  | some (.group g), inside =>
      exact VirtualGroup.keeps_removeSlave (F := w.around (some (.group g)))
        (fun v => Live.of_member inside) rfl rName
  | some (.vRemote n), inside =>
      have live : VRef.free n ∈ (w.around (some (.vRemote n))).notified := .inl ⟨n, inside, rfl⟩
      exact VirtualRemote.keeps_updateVirtualRemote live

theorem PatchNode.keeps_fastTriggerRemote (rName : QString) (e : FTriggerEvent) (v : HexData) :
    Ends w.MayFail (fastTriggerRemote w rName e v) (Keeps w.live w) := by
  by_cases held : w.mutex = .held
  · rw [fastTriggerRemote, lock_held held]
    exact fun _ => held
  · obtain ⟨w', locked, unlocks, -⟩ := lock_eq held
    simp only [fastTriggerRemote, locked, bind, Except.bind, unlocks]
    exact VirtualNetwork.keeps_fastTrigger _ rName e v

namespace Remote

theorem keeps_fastTrigger (r : Nat) (e : FTriggerEvent) (v : HexData) :
    Ends w.MayFail (fastTrigger w r e v) fun p => Keeps w.live w p.2 := by
  cases e with
  | led => exact keeps_triggerLed r .led v
  | led1 => exact keeps_triggerLed r .led1 v
  | led2 => exact keeps_triggerLed r .led2 v
  | led3 => exact keeps_triggerLed r .led3 v
  | up | down | right | left | action =>
      exact (PatchNode.keeps_fastTriggerRemote _ _ v).bind fun w' kept => kept

/-- The event of a button and the name under which the remote stores it. -/
def button? : XBEE_MSG_TYPE → Option (FTriggerEvent × QString)
  | .BUTTON_UP => some (.up, "Up")
  | .BUTTON_DOWN => some (.down, "Down")
  | .BUTTON_RIGHT => some (.right, "Right")
  | .BUTTON_LEFT => some (.left, "Left")
  | .BUTTON_ACTION => some (.action, "Action")
  | _ => none

theorem setButtonState_known {b : XBEE_MSG_TYPE} {e : FTriggerEvent} {bName : QString}
    (known : button? b = some (e, bName)) (r : Nat) (pressed : Bool) :
    setButtonState w r b pressed = (do
      let (_, w) ← fastTrigger w r e [if pressed then 1 else 0]
      pure (w.setString (.remote r) bName (if pressed then "down" else "up")).2) := by
  cases b <;> cases known <;> rfl

theorem setButtonState_other {b : XBEE_MSG_TYPE} (other : button? b = none) (r : Nat)
    (pressed : Bool) : setButtonState w r b pressed = .ok w := by
  cases b with
  | BUTTON_UP | BUTTON_DOWN | BUTTON_RIGHT | BUTTON_LEFT | BUTTON_ACTION => cases other
  | LED_INTENSITY | LED1_INTENSITY | LED2_INTENSITY | LED3_INTENSITY | MUTE_MODE | ACTIVE_MODE
  | FRAME_END => rfl

theorem keeps_setButtonState (r : Nat) (b : XBEE_MSG_TYPE) (pressed : Bool) :
    Ends w.MayFail (setButtonState w r b pressed) (Keeps (w.pressing r) w) := by
  cases kind : button? b with
  | none =>
      rw [setButtonState_other kind]
      exact .refl _ w
  | some q =>
      obtain ⟨e, bName⟩ := q
      rw [setButtonState_known kind]
      apply Keeps.bind (F := w.pressing r)
      · exact (keeps_fastTrigger r e _).mono fun q kept => kept.press r
      · exact fun _ w' kept => kept.trans
          (World.keeps_setString (F := w.pressing r) (n := .remote r) trivial (fun _ => rfl) _)

end Remote

theorem EmulatedRemote.keeps_setValue (r : Nat) (name value : QString) :
    Ends w.MayFail (setValue w r name value) fun p => Keeps (w.pressing r) w p.2 := by
  have press : ∀ type pressed, Ends w.MayFail
      (do
        let w ← Remote.setButtonState w r type pressed
        pure (SetError.noError, w)) fun p => Keeps (w.pressing r) w p.2 := fun type pressed =>
    (Remote.keeps_setButtonState r type pressed).bind fun w' kept => kept
  have put : ∀ name value : QString,
      Keeps (w.pressing r) w (w.setString (.remote r) name value).2 := fun name value =>
    World.keeps_setString (F := w.pressing r) (n := .remote r) trivial (fun _ => rfl) value
  unfold setValue
  split
  · split
    · exact press _ _
    · split
      · exact press _ _
      · exact .refl _ w
  · split
    · exact put _ _
    · split
      · split
        · exact .refl _ w
        · exact put _ _
      · exact Remote.keeps_setValue r name value

theorem Remote.keeps_set (r : Nat) (name value : QString) :
    Ends w.MayFail (set w r name value) fun p => Keeps (w.pressing r) w p.2 := by
  unfold set
  split
  · exact keeps_setValue r name value
  · exact EmulatedRemote.keeps_setValue r name value

end VoxPopuli
