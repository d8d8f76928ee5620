import VoxPopuli.Model.Deeds
import VoxPopuli.Model.Outbound

/-! # Numbers on their way through a byte

The numeric settings of remotes are read as an `int` and go on as a `uint8_t`: what is stored
and what is sent to the remotes is the number modulo 256. A number which no `int` holds is
refused, every other one is taken.
-/

namespace VoxPopuli

open World

variable {w w' w'' : World} {n : Int}

/-- A text of an optional sign and decimal digits, and the integer it stands for. -/
def QString.Denotes (value : QString) (n : Int) : Prop := value.signedDigits? = some n

def SetError.isError : SetError → Bool
  | sameValue | noError => false
  | doesNotExist | readOnly | wrongArg => true

/-! ## What is sent -/

/-- The intensity which an observation sends. -/
def Observation.intensity? : Observation → Option Int
  | commanded _ _ data => some data.toInt
  | osc _ _ _ _ value => some value
  | _ => none

def ledNames : QStringList := ["LED1", "LED2", "LED3"]

namespace World

/-- Every intensity which leaves a state for a remote, waits for the radio or is stored in a
    remote on the way to another state is `n`. -/
structure Sends (n : Int) (w w' : World) : Prop where
  log : ∃ new, w'.log = w.log ++ new ∧ ∀ o ∈ new, ∀ m, o.intensity? = some m → m = n
  radio : ∀ (i : Nat) (x' : XBeeRemote), w'.xbeeRemotes[i]? = some x' →
    ∃ x : XBeeRemote, w.xbeeRemotes[i]? = some x ∧
      ∀ key msg, x'.safeSendMap.find? key = some msg → x.safeSendMap.find? key = some msg ∨
        ∃ type, ∃ b : Byte, msg = XBeeRemote.prepareMsg type [b] ∧ (b.val : Int) = n
  leds : ∀ r, ∀ k ∈ ledNames,
    w'.get (.remote r) k = w.get (.remote r) k ∨ w'.get (.remote r) k = some (.double n)

theorem Sends.refl (n : Int) (w : World) : Sends n w w where
  log := ⟨[], (List.append_nil _).symm, by simp⟩
  radio i x' there := ⟨x', there, fun _ _ found => .inl found⟩
  leds _ _ _ := .inl rfl

theorem Sends.trans (h : Sends n w w') (h' : Sends n w' w'') : Sends n w w'' where
  log := by
    obtain ⟨new, log, exact₁⟩ := h.log
    obtain ⟨new', log', exact₂⟩ := h'.log
    refine ⟨new ++ new', by rw [log', log, List.append_assoc], fun o member => ?_⟩
    exact (List.mem_append.mp member).elim (exact₁ o) (exact₂ o)
  radio i x'' there := by
    obtain ⟨x', there', sent'⟩ := h'.radio i x'' there
    obtain ⟨x, there, sent⟩ := h.radio i x' there'
    refine ⟨x, there, fun key msg found => ?_⟩
    rcases sent' key msg found with old | new
    · exact sent key msg old
    · exact .inr new
  leds r k member := by
    rcases h'.leds r k member with same | new
    · rw [same]
      exact h.leds r k member
    · exact .inr new

/-- A step which sends nothing and leaves the JSON of the remotes alone. -/
theorem Sends.quiet (log : w'.log = w.log) (radio : w'.xbeeRemotes = w.xbeeRemotes)
    (json : ∀ r, w'.json (.remote r) = w.json (.remote r)) : Sends n w w' where
  log := ⟨[], by rw [log, List.append_nil], by simp⟩
  radio i x' there := ⟨x', radio ▸ there, fun _ _ found => .inl found⟩
  leds r k _ := .inl (by rw [get, get, json])

theorem Sends.observe (w : World) {o : Observation} (sent : ∀ m, o.intensity? = some m → m = n) :
    Sends n w (w.observe o) where
  log := ⟨[o], rfl, by simpa using sent⟩
  radio i x' there := ⟨x', there, fun _ _ found => .inl found⟩
  leds _ _ _ := .inl rfl

/-! ## Values which are stored -/

theorem xbeeRemotes_assign (w : World) (m : NodeRef) (k : QString) (same : QJsonValue → Bool)
    (v : QJsonValue) : (w.assign m k same v).2.xbeeRemotes = w.xbeeRemotes := by
  obtain ⟨json, frame, -⟩ := w.assign_frame m k same v
  rw [frame]

/-- A number of a node which is no remote, and a text of one. -/
theorem Sends.assign {m : NodeRef} (outside : ∀ r, .remote r ∉ m :: m.ancestors) (w : World)
    (k : QString) (same : QJsonValue → Bool) (v : QJsonValue) :
    Sends n w (w.assign m k same v).2 :=
  .quiet (log_assign w m k same v) (xbeeRemotes_assign w m k same v)
    fun r => json_assign (outside r)

/-- The number of an LED. -/
theorem Sends.setNumber (w : World) (r : Nat) (k : QString) :
    Sends n w (w.setNumber (.remote r) k n).2 where
  log := ⟨[], by rw [World.setNumber, log_assign, List.append_nil], by simp⟩
  radio i x' there := by
    rw [World.setNumber, xbeeRemotes_assign] at there
    exact ⟨x', there, fun _ _ found => .inl found⟩
  leds r' k' _ := by
    by_cases here : r' = r
    · subst here
      rw [get_setNumber]
      split
      · exact .inr rfl
      · exact .inl rfl
    · refine .inl ?_
      have outside : NodeRef.remote r' ∉ .remote r :: NodeRef.ancestors (.remote r) := by
        simp [NodeRef.ancestors, here]
      rw [get, get, World.setNumber, json_assign outside]

end World

/-! ## One byte on its way -/

theorem HexData.toInt_single (b : Byte) : HexData.toInt [b] = b.val := by
  have small : b.val % 2 ^ 32 = b.val := Nat.mod_eq_of_lt (b.isLt.trans (by norm_num))
  simpa [HexData.toInt] using small

theorem RealRemote.sends_remote (w : World) (r : Nat) : Sends n w (remote w r).2 := by
  have drop : ∀ r', Sends n w (RemoteList.drop w r') := by
    intro r'
    obtain ⟨json, removed, -, others⟩ := removeSubNode_frame w .remoteList (.remote r')
    refine .quiet (log_mirror _ _) ?_ fun r => ?_
    · rw [RemoteList.drop, removed]
    · rw [RemoteList.drop, removed]
      exact others _ (by simp [NodeRef.ancestors])
  unfold remote
  split
  · exact .refl n w
  · split
    · exact .quiet rfl rfl fun _ => rfl
    · unfold RemoteList.removeRemote
      split
      · exact .refl n w
      · exact drop _

theorem RealRemote.sends_safeSendMsg (w : World) (r : Nat) (key : StdString)
    (type : XBEE_MSG_TYPE) (b : Byte) : Sends b.val w (safeSendMsg w r key type [b]) := by
  have reached : Sends b.val w (remote w r).2 := sends_remote w r
  unfold safeSendMsg
  split
  · rename_i w' found
    rwa [found] at reached
  · rename_i i w' found
    rw [found] at reached
    refine reached.trans ⟨⟨[], (List.append_nil _).symm, by simp⟩, fun j x' there => ?_,
      fun _ _ _ => .inl rfl⟩
    dsimp only at there
    rw [List.getElem?_modify] at there
    obtain ⟨x, there, same⟩ := Option.map_eq_some_iff.mp there
    refine ⟨x, there, fun key' msg waits => ?_⟩
    split at same
    · subst same
      rw [XBeeRemote.safeSendMsg] at waits
      by_cases own : key' = key
      · subst own
        rw [SortedMap.find?_insert_self, Option.some.injEq] at waits
        exact .inr ⟨type, b, waits.symm, rfl⟩
      · rw [SortedMap.find?_insert_of_ne _ own] at waits
        exact .inl waits
    · subst same
      exact .inl waits

namespace Remote

theorem sends_storeLed (w : World) (r : Nat) (e : FTriggerEvent) (b : Byte) :
    Sends b.val w (storeLed w r e [b]).2 := by
  have store : ∀ (w : World) (k : QString),
      Sends b.val w (w.setNumber (.remote r) k (HexData.toInt [b])).2 := by
    intro w k
    rw [HexData.toInt_single]
    exact_mod_cast Sends.setNumber (n := b.val) w r k
  cases e with
  | led => exact (store _ _).trans ((store _ _).trans (store _ _))
  | led1 | led2 | led3 => exact store _ _
  | up | down | right | left | action => exact .refl _ w

/-- An LED event with one byte sends and stores this byte. -/
theorem sends_triggerLed (w : World) (r : Nat) (e : FTriggerEvent) (b : Byte) :
    Sends b.val w (triggerLed w r e [b]).2 := by
  have byte : ((HexData.toInt [b] : Nat) : Int) = b.val := by rw [HexData.toInt_single]
  have told : Sends b.val w (w.observe (.commanded r e [b])) := by
    refine .observe w fun m sent => ?_
    cases sent
    exact byte
  have sent : ∀ w, Sends b.val w (RealRemote.sendLed w r e [b]) := by
    intro w
    cases e with
    | led | led1 | led2 | led3 => exact RealRemote.sends_safeSendMsg w r _ _ b
    | up | down | right | left | action => exact .refl _ w
  have forwarded : ∀ w, Sends b.val w (EmulatedRemote.forwardLed w r e [b]) := by
    intro w
    unfold EmulatedRemote.forwardLed
    dsimp only
    split
    · exact .refl _ w
    · split
      · refine .observe w fun m sent => ?_
        cases sent
        exact byte
      · exact .refl _ w
  unfold triggerLed
  refine (told.trans ?_).trans (sends_storeLed _ r e b)
  split
  · exact sent _
  · exact forwarded _

end Remote

/-- The remotes of a virtual remote are sent the byte one after the other. -/
theorem VirtualRemote.sends_foldl (remotes : List Nat) (w : World) (b : Byte) :
    Sends b.val w (remotes.foldl (fun w r => (Remote.triggerLed w r .led [b]).2) w) := by
  induction remotes generalizing w with
  | nil => exact .refl _ w
  | cons r rest ih => exact (Remote.sends_triggerLed w r .led b).trans (ih _)

theorem VirtualRemote.remote_notMem (v : VRef) (r : Nat) :
    NodeRef.remote r ∉ .vRemote v :: NodeRef.ancestors (.vRemote v) := by
  cases v <;> simp [NodeRef.ancestors, VRef.ancestors]

theorem VirtualRemote.sends_setNumber (w : World) (v : VRef) (k : QString) (x : ℚ) :
    Sends n w (w.setNumber (.vRemote v) k x).2 :=
  .assign (remote_notMem v) w k _ _

/-- Showing the buttons of a remote sends nothing. -/
theorem VirtualRemote.sends_showRemote (w : World) (v : VRef) (r? : Option Nat) :
    Sends n w (showRemote w v r?) := by
  have put : ∀ (w : World) (k value : QString), Sends n w (w.setString (.vRemote v) k value).2 :=
    fun w k value => .assign (remote_notMem v) w k _ _
  cases r? with
  | none =>
      exact (put _ "Up" _).trans ((put _ "Down" _).trans ((put _ "Left" _).trans
        ((put _ "Right" _).trans (put _ "Action" _))))
  | some r =>
      exact (put _ "Up" _).trans ((put _ "Down" _).trans ((put _ "Left" _).trans
        ((put _ "Right" _).trans (put _ "Action" _))))

/-! ## Settings -/

/-- The LEDs of a remote which are set one at a time. -/
inductive SingleLed where
  | led1
  | led2
  | led3
  deriving DecidableEq, Repr

def SingleLed.name : SingleLed → QString
  | led1 => "LED1"
  | led2 => "LED2"
  | led3 => "LED3"

def SingleLed.event : SingleLed → FTriggerEvent
  | led1 => .led1
  | led2 => .led2
  | led3 => .led3

/-- The settings which take a number. -/
inductive NumericSetting where
  /-- `LED1`, `LED2` or `LED3` of a remote. -/
  | led (r : Nat) (l : SingleLed)
  /-- `LED(n)` of a remote. -/
  | ledFunction (r : Nat)
  /-- `LED` of a virtual remote. -/
  | virtualLed (v : VRef)
  /-- `remoteID` of a virtual remote of a group. -/
  | remoteID (g m : Nat)

namespace NumericSetting

/-- The call with a text: whether it reports an error, and the state after it. -/
def run (w : World) (value : QString) : NumericSetting → Except Fault (Bool × World)
  | led r l => do
      let (e, w) ← Remote.set w r l.name value
      pure (e.isError, w)
  | ledFunction r => pure (!(Remote.callLed w r value).1, (Remote.callLed w r value).2)
  | virtualLed v => do
      let (e, w) ← VirtualRemote.setValue w v "LED" value
      pure (e.isError, w)
  | remoteID g m => do
      let (e, w) ← VirtualRemote.setValue w (.member g m) "remoteID" value
      pure (e.isError, w)

/-- The number which is stored. -/
def Holds (w : World) (n : Int) : NumericSetting → Prop
  | led r l => w.get (.remote r) l.name = some (.double n)
  | ledFunction r => ∀ k ∈ ledNames, w.get (.remote r) k = some (.double n)
  | virtualLed v => w.get (.vRemote v) "LED" = some (.double n)
  | remoteID g m => w.get (.vRemote (.member g m)) "remoteID" = some (.double n)

/-- A text for `n` is refused without a trace, or `n` is stored and nothing but `n` sent. -/
def Exact (s : NumericSetting) (w : World) (value : QString) (n : Int) : Prop :=
  Ends (fun _ => False) (s.run w value) fun q =>
    (q.1 = true ∧ q.2 = w) ∨ (q.1 = false ∧ s.Holds q.2 n ∧ w.Sends n q.2)

/-- A setting has one number. -/
theorem Holds.unique {s : NumericSetting} {m : Int} (h : s.Holds w n) (other : s.Holds w m) :
    n = m := by
  have number : ∀ {q : QVariant}, q = some (.double n) → q = some (.double m) → n = m := by
    intro q first second
    have same : (some (.double n) : QVariant) = some (.double m) := first.symm.trans second
    simpa using same
  cases s with
  | led r l => exact number h other
  | ledFunction r => exact number (h "LED1" (by decide)) (other "LED1" (by decide))
  | virtualLed v => exact number h other
  | remoteID g m => exact number h other

theorem isError_assign (w : World) (m : NodeRef) (k : QString) (same : QJsonValue → Bool)
    (v : QJsonValue) : (w.assign m k same v).1.isError = false := by
  unfold assign
  split <;> rfl

theorem set_led (w : World) (r : Nat) (l : SingleLed) (value : QString) :
    Remote.set w r l.name value = pure (Remote.setLed w r l.event value) := by
  unfold Remote.set
  split
  · cases l <;> rfl
  · cases l <;> rfl

/-- The end of an LED event for one LED. -/
theorem triggerLed_single (w : World) (r : Nat) (l : SingleLed) (b : Byte) :
    ∃ w₁ : World, Remote.triggerLed w r l.event [b] =
      w₁.setNumber (.remote r) l.name (b.val : Nat) := by
  rw [← HexData.toInt_single]
  cases l <;> exact ⟨_, rfl⟩

/-- The end of an LED event for all LEDs. -/
theorem triggerLed_all (w : World) (r : Nat) (b : Byte) : ∃ w₁ : World,
    (Remote.triggerLed w r .led [b]).2 =
      ((((w₁.setNumber (.remote r) "LED1" (b.val : Nat)).2.setNumber (.remote r) "LED2"
        (b.val : Nat)).2).setNumber (.remote r) "LED3" (b.val : Nat)).2 := by
  rw [← HexData.toInt_single]
  exact ⟨_, rfl⟩

theorem get_triggerLed_all (w : World) (r : Nat) (b : Byte) {k : QString} (member : k ∈ ledNames) :
    (Remote.triggerLed w r .led [b]).2.get (.remote r) k = some (.double (b.val : Nat)) := by
  obtain ⟨w₁, ended⟩ := triggerLed_all w r b
  have named : k = "LED1" ∨ k = "LED2" ∨ k = "LED3" := by simpa [ledNames] using member
  rw [ended, get_setNumber, get_setNumber, get_setNumber]
  rcases named with rfl | rfl | rfl
  · rw [if_neg (by decide), if_neg (by decide), if_pos rfl]
  · rw [if_neg (by decide), if_pos rfl]
  · rw [if_pos rfl]

variable {s : NumericSetting} {value : QString} {m : Int}

/-- A text which is no `int` is refused. -/
theorem run_refused (unread : value.toInt? = none) : s.run w value = .ok (true, w) := by
  cases s with
  | led r l =>
      rw [run, set_led, Remote.setLed, unread]
      rfl
  | ledFunction r =>
      rw [run, Remote.callLed, unread]
      rfl
  | virtualLed v =>
      rw [run, VirtualRemote.setValue, if_neg (by decide), if_pos rfl, unread]
      rfl
  | remoteID g m =>
      rw [run, VirtualRemote.setValue, if_neg (by decide), if_neg (by decide), if_neg (by decide),
        if_pos ⟨rfl, rfl⟩, unread]
      rfl

theorem isError_setNumber (w : World) (m : NodeRef) (k : QString) (x : ℚ) :
    (w.setNumber m k x).1.isError = false := isError_assign w m k _ _

theorem run_virtualLed (free : w.Unlocked) (read : value.toInt? = some m) (v : VRef) :
    run w value (.virtualLed v) = .ok (false,
      (((VirtualRemote.target w v).foldl (fun w r =>
        (Remote.triggerLed w r .led [Byte.ofInt m]).2) w).setNumber (.vRemote v) "LED"
          ((Byte.ofInt m).val : Nat)).2) := by
  rw [run, VirtualRemote.setValue, if_neg (by decide), if_pos rfl, read]
  simp only [VirtualRemote.fastTrigger, if_true, VirtualRemote.sendFastTrigger,
    VirtualRemote.patchedRemotes_eq free, bind, Except.bind, pure, Except.pure,
    isError_setNumber, HexData.toInt_single]

theorem run_remoteID (free : w.Unlocked) (read : value.toInt? = some m) (g k : Nat) :
    ∃ r?, run w value (.remoteID g k) = .ok (false, VirtualRemote.showRemote
      (w.setNumber (.vRemote (.member g k)) "remoteID" ((Byte.ofInt m).val : Nat)).2
      (.member g k) r?) := by
  let F : Footprint := { notified := {.member g k}, edited := {.member g k} }
  have stored : Keeps F w
      (w.setNumber (.vRemote (.member g k)) "remoteID" ((Byte.ofInt m).val : Nat)).2 :=
    keeps_setNumber (n := .vRemote (.member g k)) (Set.mem_singleton _)
      ⟨fun _ => Set.mem_singleton _, by decide⟩ _
  have shown := VirtualRemote.updateVirtualRemote_eq (stored.unlocked free) (.member g k)
  refine ⟨(VirtualRemote.target (w.setNumber (.vRemote (.member g k)) "remoteID"
    ((Byte.ofInt m).val : Nat)).2 (.member g k)).head?, ?_⟩
  rw [run, VirtualRemote.setValue, if_neg (by decide), if_neg (by decide), if_neg (by decide),
    if_pos ⟨rfl, rfl⟩, read]
  simp only [shown, bind, Except.bind, pure, Except.pure, isError_setNumber]

/-- Every other text is taken, and its last byte is stored and sent. -/
theorem run_narrowed (free : w.Unlocked) (read : value.toInt? = some m) : ∃ w',
    s.run w value = .ok (false, w') ∧ s.Holds w' (Byte.ofInt m).val ∧
      w.Sends (Byte.ofInt m).val w' := by
  cases s with
  | led r l =>
      obtain ⟨w₁, ended⟩ := triggerLed_single w r l (Byte.ofInt m)
      refine ⟨_, ?_, ?_, Remote.sends_triggerLed w r l.event _⟩
      · rw [run, set_led, Remote.setLed, read]
        simp only [pure_bind, ended, setNumber, isError_assign]
        rfl
      · rw [Holds, ended, get_setNumber, if_pos rfl]
        norm_cast
  | ledFunction r =>
      refine ⟨_, ?_, fun k member => ?_, Remote.sends_triggerLed w r .led (Byte.ofInt m)⟩
      · rw [run, Remote.callLed, read]
        rfl
      · rw [get_triggerLed_all _ _ _ member]
        norm_cast
  | virtualLed v =>
      refine ⟨_, run_virtualLed free read v, ?_, ?_⟩
      · rw [Holds, get_setNumber, if_pos rfl]
        norm_cast
      · exact (VirtualRemote.sends_foldl _ w (Byte.ofInt m)).trans
          (VirtualRemote.sends_setNumber _ v "LED" _)
  | remoteID g k =>
      obtain ⟨r?, run⟩ := run_remoteID (w := w) free read g k
      refine ⟨_, run, ?_, ?_⟩
      · have shown := VirtualRemote.keeps_showRemote (F := { notified := {.member g k} }) rfl
          (w := (w.setNumber (.vRemote (.member g k)) "remoteID" ((Byte.ofInt m).val : Nat)).2) r?
        rw [Holds, shown.remoteID _ (Set.notMem_empty _), get_setNumber, if_pos rfl]
        norm_cast
      · exact (VirtualRemote.sends_setNumber w _ "remoteID" _).trans
          (VirtualRemote.sends_showRemote _ _ r?)

/-- A number goes through a byte unchanged if it is between 0 and 255. -/
theorem val_ofInt (m : Int) : ((Byte.ofInt m).val : Int) = m ↔ 0 ≤ m ∧ m < 256 := by
  simp only [Byte.ofInt, Fin.ofNat]
  omega

/-- A setting takes a decimal number as it is if and only if no `int` holds the number, and
    then it is refused, or one byte does. -/
theorem exact_iff (free : w.Unlocked) (s : NumericSetting) (denotes : value.Denotes n) :
    s.Exact w value n ↔ (n < -2 ^ 31 ∨ 2 ^ 31 ≤ n) ∨ (0 ≤ n ∧ n < 256) := by
  have parse : value.toInt? = (some n).filter fun n => -2 ^ 31 ≤ n ∧ n < 2 ^ 31 :=
    congrArg (Option.filter _) denotes
  by_cases range : -2 ^ 31 ≤ n ∧ n < 2 ^ 31
  · have read : value.toInt? = some n := by
      rw [parse, Option.filter_some_pos (by simpa using range)]
    obtain ⟨w', done, holds, sends⟩ := run_narrowed (s := s) free read
    rw [Exact, done, ends_ok]
    constructor
    · rintro (⟨refused, -⟩ | ⟨-, exactly, -⟩)
      · cases refused
      · exact .inr ((val_ofInt n).mp (holds.unique exactly))
    · intro fits
      have byte := (val_ofInt n).mpr (by omega)
      rw [byte] at holds sends
      exact .inr ⟨rfl, holds, sends⟩
  · have unread : value.toInt? = none := by
      rw [parse, Option.filter_some_neg (by simpa using range)]
    rw [Exact, run_refused unread, ends_ok]
    exact iff_of_true (.inl ⟨rfl, rfl⟩) (.inl (by omega))

/-- The largest intensity, for a virtual remote which drives a remote, and a number which no `int`
    holds. -/
theorem exact_iff_led :
    Ends (fun _ => False) ((initial .free fun _ => none).run
      [.addRemote "1", .addVirtualRemote "Solo", .patch (.connect "Remote1" "Solo")]) fun w =>
        VirtualRemote.target w (.free 0) = [0] ∧ (virtualLed (.free 0)).Exact w "255" 255 ∧
          (led 0 .led2).Exact w "2147483648" 2147483648 := by
  have run : Ends (fun _ => False) ((initial .free fun _ => none).run
      [.addRemote "1", .addVirtualRemote "Solo", .patch (.connect "Remote1" "Solo")]) fun w =>
        VirtualRemote.target w (.free 0) = [0] := by decide +kernel
  obtain ⟨w, ended, driven⟩ := ends_total.mp run
  have reachable : w.Reachable .free := ⟨_, _, ended⟩
  have free : w.Unlocked := by
    rw [Unlocked, reachable.sound.2]
    decide
  have byte : QString.Denotes "255" 255 := show QString.signedDigits? "255" = some 255 by decide
  have large : QString.Denotes "2147483648" 2147483648 :=
    show QString.signedDigits? "2147483648" = some 2147483648 by decide
  exact ends_total.mpr ⟨w, ended, driven, (exact_iff free _ byte).mpr (.inr (by decide)),
    (exact_iff free _ large).mpr (.inl (by decide))⟩

/-- An avatar which is given the ID -1 has the ID 255. -/
theorem not_exact_remoteID :
    Ends (fun _ => False) ((initial .free fun _ => none).run duo) fun w =>
      some (.member 0 2) ∈ w.virtualRemotes 0 ∧ ¬(remoteID 0 2).Exact w "-1" (-1) ∧
        ¬(virtualLed (.member 0 2)).Exact w "256" 256 := by
  have run : Ends (fun _ => False) ((initial .free fun _ => none).run duo) fun w =>
      some (.member 0 2) ∈ w.virtualRemotes 0 := by decide +kernel
  obtain ⟨w, run, avatar⟩ := ends_total.mp run
  have reachable : w.Reachable .free := ⟨_, _, run⟩
  have free : w.Unlocked := by
    rw [Unlocked, reachable.sound.2]
    decide
  have narrowed : ∀ (s : NumericSetting) (value : QString) (m : Int), value.toInt? = some m →
      ((Byte.ofInt m).val : Int) ≠ m → ¬s.Exact w value m := by
    intro s value m read lost exactly
    obtain ⟨w', done, holds, -⟩ := run_narrowed (s := s) free read
    rcases exactly.of_ok done with ⟨refused, -⟩ | ⟨-, same, -⟩
    · cases refused
    · exact lost (holds.unique same)
  exact ends_total.mpr ⟨w, run, avatar, narrowed (remoteID 0 2) "-1" (-1) (by decide) (by decide),
    narrowed (virtualLed (.member 0 2)) "256" 256 (by decide) (by decide)⟩

end NumericSetting

end VoxPopuli
