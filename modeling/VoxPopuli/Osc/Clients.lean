import VoxPopuli.Model.Bystanders
import VoxPopuli.Model.OscRemote
import VoxPopuli.Model.Settings
import VoxPopuli.Model.Wiring
import VoxPopuli.Osc.RoundTrip
import VoxPopuli.Telnet.RawInput

/-! # Remotes over OSC

An `OSCRemote` announces itself by a message and then tells of its buttons. The daemon keeps
a directory of such remotes: for each address the buttons as it has heard of them. Whatever
messages arrive, in whatever order, from however many remotes: the models agree with this
directory.
-/

namespace VoxPopuli

namespace Osc

open TelnetSocket (Utf8 widen)
open World

/-! ## The client -/

def slash : QChar := '/'

/-- An `OSCRemote` with its `_oscAddress`. -/
structure OSCRemote where
  oscAddress : QString
  first : oscAddress.head? = some slash

namespace OSCRemote

/-- What makes an `OSCRemote` send: its constructor, with what it says where it listens, and its
    buttons. -/
inductive Call where
  | start (ipPort : QString)
  | buttonChanged (button : Button) (state : Bool)

def Call.args : Call → List Variant
  | start ipPort => [.string "emulate", .string ipPort]
  | buttonChanged button state => [.string button.oscName, .bool state]

end OSCRemote

/-- A message of a client, on whatever machine it runs. -/
structure Datagram where
  client : OSCRemote
  call : OSCRemote.Call
  bytes : List Byte
  sent : ∃ long buffer, sendMsg long buffer client.oscAddress call.args = .ok bytes

/-- The message for a call whose packet is not too long. -/
def Datagram.ofCall (client : OSCRemote) (call : OSCRemote.Call)
    (room : (packet (cString client.oscAddress) (call.args.flatMap sendToOscStream)).length ≤
      outputBufferSize) : Datagram where
  client := client
  call := call
  bytes := packet (cString client.oscAddress) (call.args.flatMap sendToOscStream)
  sent := ⟨.four, ⟨List.replicate outputBufferSize 0, List.length_replicate⟩,
    (compose_spec .four _ (by decide) (by decide) (cString_clean _) _).trans
      ((if_neg (not_lt.mpr room)).trans (if_neg fun astray => nomatch astray.1))⟩

/-- The address as the daemon reads it. -/
def Datagram.address (utf8 : Utf8) (d : Datagram) : QString :=
  utf8.decode (cString d.client.oscAddress)

/-! ## The daemon -/

/-- An `OscInterface` whose address has been set. -/
structure Interface extends OscInterface where
  first : oscAddress.head? = some slash
  last : oscAddress.getLast? = some slash
  filter : oscListener.addressFilter = oscAddress

/-- What `decodeMsg` appends; of the types which nobody asks for nothing is kept. -/
def Value.variant (utf8 : Utf8) : Value → QVariant
  | .bool b => some (.bool b)
  | .int32 n => some (.double n.toInt)
  | .int64 n => some (.double n.toInt)
  | .string s => some (.string (utf8.decode s))
  | .char _ | .float _ | .double _ => none

/-- The comparison with "emulate". A truth value is compared with that of the text. -/
def isEmulate : QVariant → Bool
  | some (.string s) => s = "emulate"
  | some (.bool b) => b
  | _ => false

namespace Interface

/-- What `setOscAddress` leaves, whatever was set before. -/
def ofAddress (o : OscInterface) (address : QString) : Interface where
  toOscInterface := o.setOscAddress address
  first := by
    simp only [OscInterface.setOscAddress]
    split_ifs with begins ends ends
    · exact begins
    · rw [List.head?_append, begins]
      rfl
    · rfl
    · rfl
  last := by
    simp only [OscInterface.setOscAddress]
    split_ifs with begins ends ends
    · exact ends
    · exact List.getLast?_concat
    · exact ends
    · exact List.getLast?_concat
  filter := rfl

/-- `readOscMsg`. -/
def readOscMsg (i : Interface) (w : World) (addr : QString) (args : List QVariant) :
    Except Fault World :=
  let simpleAddr := addr.drop i.oscAddress.length
  if isEmulate (args.head?.getD none) then
    if slash ∈ simpleAddr then pure w
    else
      let ipPort : QString := if 2 ≤ args.length then (args.getD 1 none).toString else ""
      Prod.snd <$> RemoteList.emulateRemote w simpleAddr addr ipPort
  else
    match RemoteList.byOSC w addr with
    | none => pure w
    | some r => EmulatedRemote.readOsc w r args

/-- What may go wrong with a packet. -/
inductive Failure where
  | listener (e : Refused)
  | model (f : Fault)

/-- A packet from the listener to the models. The address filter asks for the beginning of
    an address. -/
def receive (i : Interface) (utf8 : Utf8) (w : World) (packet : List Byte) :
    Except Failure World :=
  let filter := i.oscListener.addressFilter
  match processPacket (fun addr => filter.isPrefixOf (utf8.decode addr)) packet with
  | .error e => .error (.listener e)
  | .ok msgs =>
      match msgs.foldlM (fun w (m : Msg) =>
          i.readOscMsg w (utf8.decode m.1) (m.2.map (Value.variant utf8))) w with
      | .error f => .error (.model f)
      | .ok w => .ok w

end Interface

/-! ## The directory -/

/-- The emulated remotes by their addresses, each with its buttons, and the names which are in
    use by any remote. -/
structure Directory where
  taken : QStringList
  remotes : QString → Option (XBEE_MSG_TYPE → Bool)

namespace Directory

def empty : Directory := ⟨[], fun _ => none⟩

/-- A remote announces itself: it gets an entry with all buttons up unless its address is known,
    or its name, the last part of the address, is in use or none. -/
def enter (D : Directory) (i : Interface) (addr : QString) : Directory :=
  let name := addr.drop i.oscAddress.length
  if slash ∈ name ∨ (' ' : QChar) ∈ name ∨ name ∈ D.taken ∨ (D.remotes addr).isSome then D
  else ⟨D.taken ++ [name], Function.update D.remotes addr (some fun _ => false)⟩

def press (D : Directory) (addr : QString) (b : Button) (state : Bool) : Directory :=
  match D.remotes addr with
  | none => D
  | some down =>
      let down := Function.update down (Remote.message b) state
      { D with remotes := Function.update D.remotes addr (some down) }

/-- What a message does to the directory. -/
def hear (D : Directory) (i : Interface) (addr : QString) (call : OSCRemote.Call) : Directory :=
  if i.oscAddress <+: addr then
    match call with
    | .start _ => D.enter i addr
    | .buttonChanged b state => D.press addr b state
  else D

/-- The models agree with the directory. -/
structure Mirrors (D : Directory) (w : World) : Prop where
  taken : w.remotes.map w.remoteName = D.taken
  absent : ∀ addr, addr ≠ [] → D.remotes addr = none →
    ∀ r ∈ w.remotes, EmulatedRemote.oscAddress w r ≠ addr
  present : ∀ addr down, D.remotes addr = some down →
    ∃ r, RemoteList.byOSC w addr = some r ∧ Remote.Shows w r down

end Directory

/-! ## The directory and the models -/

namespace Directory

variable {D : Directory} {w w' : World} {addr : QString}

theorem Mirrors.byOSC_eq_none (mirrors : D.Mirrors w) (solid : addr ≠ [])
    (unknown : D.remotes addr = none) : RemoteList.byOSC w addr = none := by
  refine List.find?_eq_none.mpr fun r inside found => ?_
  exact mirrors.absent addr solid unknown r inside (of_decide_eq_true found).2

/-- An entry is made or changed, and nothing else. -/
theorem Mirrors.update {x : Nat} {new : List Nat} {down : XBEE_MSG_TYPE → Bool}
    (mirrors : D.Mirrors w) (beside : Beside x new w w')
    (found : RemoteList.byOSC w' addr = some x) (shown : Remote.Shows w' x down)
    (apart : ∀ addr', RemoteList.byOSC w addr' = some x → addr' = addr)
    (own : ∀ r ∈ new, EmulatedRemote.oscAddress w' r = addr) :
    Mirrors ⟨D.taken ++ new.map w'.remoteName, Function.update D.remotes addr (some down)⟩ w' := by
  refine ⟨?_, fun addr' solid unknown r inside => ?_, fun addr' down' known => ?_⟩
  · rw [beside.remotes, List.map_append, ← mirrors.taken]
    exact congrArg (· ++ new.map w'.remoteName)
      (List.map_congr_left fun r inside => beside.names r inside)
  · have other : addr' ≠ addr := by
      rintro rfl
      simp at unknown
    have unknown : D.remotes addr' = none := (Function.update_of_ne other _ _).symm.trans unknown
    rw [beside.remotes] at inside
    rcases List.mem_append.mp inside with before | recent
    · rw [beside.osc r before]
      exact mirrors.absent addr' solid unknown r before
    · rw [own r recent]
      exact other.symm
  · by_cases same : addr' = addr
    · subst same
      obtain rfl : down = down' :=
        Option.some.inj ((Function.update_self addr' (some down) D.remotes).symm.trans known)
      exact ⟨x, found, shown⟩
    · have known : D.remotes addr' = some down' := (Function.update_of_ne same _ _).symm.trans known
      obtain ⟨r, found', shown'⟩ := mirrors.present addr' down' known
      have differ : r ≠ x := by
        rintro rfl
        exact same (apart addr' found')
      refine ⟨r, ?_, beside.shows r (RemoteList.byOSC_eq_some found').1 differ down' shown'⟩
      rw [beside.byOSC, found']
      rfl

/-- Nothing happens to the remotes. -/
theorem Mirrors.beside {x : Nat} (mirrors : D.Mirrors w) (beside : Beside x [] w w')
    (other : x ∉ w.remotes) : D.Mirrors w' := by
  have listed := beside.remotes
  rw [List.append_nil] at listed
  refine ⟨?_, fun addr' solid unknown r' inside => ?_, fun addr' down' known => ?_⟩
  · rw [← mirrors.taken, listed]
    exact List.map_congr_left fun r' inside => beside.names r' inside
  · rw [listed] at inside
    rw [beside.osc r' inside]
    exact mirrors.absent addr' solid unknown r' inside
  · obtain ⟨r', found', shown'⟩ := mirrors.present addr' down' known
    have inside := (RemoteList.byOSC_eq_some found').1
    refine ⟨r', ?_, beside.shows r' inside (ne_of_mem_of_not_mem inside other) down' shown'⟩
    rw [beside.byOSC, found']
    rfl

theorem mirrors_initial (mutex : MutexState) (accepts : QString → Option Bool) :
    empty.Mirrors (initial mutex accepts) := by
  refine ⟨rfl, fun addr _ _ r inside => absurd inside List.not_mem_nil, fun addr down known => ?_⟩
  cases known

/-- There is a directory for every state in which the emulated remotes have their buttons and the
    real ones no address. -/
theorem exists_mirrors
    (unaddressed : ∀ r ∈ w.remotes, w.isReal r = true → EmulatedRemote.oscAddress w r = [])
    (shown : ∀ r ∈ w.remotes, w.isReal r = false → ∃ down, Remote.Shows w r down) :
    ∃ D : Directory, D.Mirrors w := by
  have buttons : ∀ r, ∃ down, r ∈ w.remotes → w.isReal r = false → Remote.Shows w r down := by
    intro r
    by_cases emulated : r ∈ w.remotes ∧ w.isReal r = false
    · obtain ⟨down, shows⟩ := shown r emulated.1 emulated.2
      exact ⟨down, fun _ _ => shows⟩
    · exact ⟨fun _ => false, fun inside kind => absurd ⟨inside, kind⟩ emulated⟩
  choose down shows using buttons
  refine ⟨⟨w.remotes.map w.remoteName, fun addr => (RemoteList.byOSC w addr).map down⟩, rfl, ?_, ?_⟩
  · intro addr solid unknown r inside own
    have missing : RemoteList.byOSC w addr = none := by simpa using unknown
    have other := List.find?_eq_none.mp missing r inside
    cases kind : w.isReal r with
    | true => exact solid (own.symm.trans (unaddressed r inside kind))
    | false => simp [kind, own] at other
  · intro addr d known
    obtain ⟨r, found, rfl⟩ := Option.map_eq_some_iff.mp known
    have inside := (RemoteList.byOSC_eq_some found).1
    have sought := List.find?_some
      (p := fun r => !w.isReal r ∧ EmulatedRemote.oscAddress w r = addr) found
    have kind : w.isReal r = false := by simpa using (of_decide_eq_true sought).1
    exact ⟨r, found, shows r inside kind⟩

/-- Whether a remote may announce itself is seen from the directory. -/
theorem Mirrors.taken_iff (mirrors : D.Mirrors w) (solid : addr ≠ []) (name : QString) :
    RemoteList.Taken w name addr ↔ name ∈ D.taken ∨ (D.remotes addr).isSome := by
  rw [← mirrors.taken]
  constructor
  · rintro ⟨r, inside, rfl | ⟨-, own⟩⟩
    · exact .inl (List.mem_map_of_mem inside)
    · refine .inr (Option.isSome_iff_ne_none.mpr fun unknown => ?_)
      exact mirrors.absent addr solid unknown r inside own
  · rintro (used | known)
    · obtain ⟨r, inside, named⟩ := List.mem_map.mp used
      exact ⟨r, inside, .inl named⟩
    · obtain ⟨down, known⟩ := Option.isSome_iff_exists.mp known
      obtain ⟨r, found, -⟩ := mirrors.present addr down known
      obtain ⟨inside, own⟩ := RemoteList.byOSC_eq_some found
      exact ⟨r, inside, .inr ⟨solid, own⟩⟩

end Directory

/-! ## What arrives -/

theorem head?_cString {s : QString} (first : s.head? = some slash) :
    (cString s).head? = some 47 := by
  obtain ⟨rest, rfl⟩ := List.head?_eq_some_iff.mp first
  have byte : QChar.toUtf8 slash = [47] := by decide
  have high : ¬QChar.isHighSurrogate slash := by decide
  cases rest with
  | nil => rfl
  | cons u rest =>
      rw [cString, QString.toStdString, if_neg fun pair => high pair.1, byte]
      rfl

theorem decode_cString (utf8 : Utf8) {s : QString}
    (plain : s.all fun u => u.val < 0x80 ∧ u.val ≠ 0) : utf8.decode (cString s) = s := by
  have ascii : ∀ u ∈ s, u.val < 0x80 ∧ u.val ≠ 0 := by simpa using plain
  have bytes : cString s = s.map fun u => Fin.ofNat 256 u.val := by
    rw [cString, QString.toStdString_of_ascii fun u inside => (ascii u inside).1,
      List.takeWhile_eq_self_iff]
    intro b member
    obtain ⟨u, inside, rfl⟩ := List.mem_map.mp member
    have small := ascii u inside
    simp only [ne_eq, decide_eq_true_eq, Fin.ext_iff, Fin.ofNat]
    omega
  rw [bytes, utf8.ascii, List.map_map]
  · refine (List.map_congr_left fun u inside => ?_).trans (List.map_id s)
    have small := ascii u inside
    simp only [Function.comp_apply, widen, id_eq, Fin.ext_iff, Fin.ofNat, Fin.val_castLE]
    omega
  · intro b member
    obtain ⟨u, inside, rfl⟩ := List.mem_map.mp member
    have small := ascii u inside
    simp only [Fin.ofNat]
    omega

/-- The arguments as the daemon reads them. -/
def OSCRemote.Call.received (utf8 : Utf8) : OSCRemote.Call → List QVariant
  | .start ipPort => [some (.string "emulate"), some (.string (utf8.decode (cString ipPort)))]
  | .buttonChanged button state => [some (.string button.oscName), some (.bool state)]

theorem OSCRemote.Call.received_eq (utf8 : Utf8) (call : OSCRemote.Call) :
    ((call.args.flatMap sendToOscStream).map Arg.value).map (Value.variant utf8) =
      call.received utf8 := by
  cases call with
  | start ipPort =>
      have command : utf8.decode (cString "emulate") = "emulate" :=
        decode_cString utf8 (by decide)
      simp [args, received, sendToOscStream, Arg.value, Value.variant, command]
  | buttonChanged button state =>
      have name : utf8.decode (cString button.oscName) = button.oscName :=
        decode_cString utf8 (by fin_cases button <;> decide)
      simp [args, received, sendToOscStream, Arg.value, Value.variant, name]

theorem Interface.receive_sent (i : Interface) (utf8 : Utf8) (w : World) (d : Datagram) :
    i.receive utf8 w d.bytes =
      if i.oscAddress <+: d.address utf8 then
        (i.readOscMsg w (d.address utf8) (d.call.received utf8)).mapError .model
      else .ok w := by
  obtain ⟨long, buffer, sent⟩ := d.sent
  have plain : (cString d.client.oscAddress).head? ≠ some 35 := by
    rw [head?_cString d.client.first]
    decide
  rw [receive, i.filter, processPacket_sent sent plain]
  by_cases begins : i.oscAddress <+: d.address utf8
  · have accepted : i.oscAddress.isPrefixOf (utf8.decode (cString d.client.oscAddress)) = true :=
      List.isPrefixOf_iff_prefix.mpr begins
    rw [if_pos begins, if_pos accepted]
    simp only [List.foldlM_cons, List.foldlM_nil, OSCRemote.Call.received_eq, bind_pure]
    rw [Datagram.address]
    cases i.readOscMsg w _ (d.call.received utf8) <;> rfl
  · have refused : ¬i.oscAddress.isPrefixOf (utf8.decode (cString d.client.oscAddress)) = true :=
      fun accepted => begins (List.isPrefixOf_iff_prefix.mp accepted)
    rw [if_neg begins, if_neg refused]
    rfl

/-! ## One message and many -/

section Runs

variable {mutex : MutexState} {w : World} {D : Directory} {addr : QString}

theorem readOscMsg_start (reachable : w.Reachable mutex) (unlocked : mutex ≠ .held)
    (mirrors : D.Mirrors w) (i : Interface) (solid : addr ≠ []) (ipPort : QString) :
    ∃ w', i.readOscMsg w addr [some (.string "emulate"), some (.string ipPort)] = .ok w' ∧
      w'.Reachable mutex ∧ (D.enter i addr).Mirrors w' := by
  have listed := reachable.orderly.listed
  have wellFormed := reachable.orderly.toSound.wellFormed
  have free : w.Unlocked := by
    rw [Unlocked, reachable.sound.2]
    exact unlocked
  have taken := mirrors.taken_iff solid (addr.drop i.oscAddress.length)
  simp only [Interface.readOscMsg, Directory.enter]
  generalize addr.drop i.oscAddress.length = name at taken ⊢
  have told : isEmulate (some (.string "emulate")) = true := rfl
  rw [List.head?_cons, Option.getD_some, if_pos told]
  by_cases nested : slash ∈ name
  · rw [if_pos nested, if_pos (.inl nested)]
    exact ⟨w, rfl, reachable, mirrors⟩
  · rw [if_neg nested]
    have ends := (RemoteList.emulateRemote_returns wellFormed free name addr ipPort).join
      (RemoteList.emulateRemote_joined listed name addr ipPort)
    obtain ⟨q, returned, refused, joined⟩ := ends_total.mp ends
    have performed : Op.perform w (.emulateRemote name addr ipPort) = .ok q.2 := by
      rw [Op.perform, returned]
      rfl
    refine ⟨q.2, performed, reachable.perform performed, ?_⟩
    rw [taken] at refused joined
    split
    · rename_i known
      have known := known.resolve_left nested
      have absent : w.freshRemote ∉ w.remotes :=
        fun inside => absurd (listed.old _ inside) (lt_irrefl _)
      exact mirrors.beside (refused known.symm) absent
    · rename_i new
      simp only [not_or] at new
      obtain ⟨-, solidName, unused, unknown⟩ := new
      have unknown : D.remotes addr = none := Option.not_isSome_iff_eq_none.mp unknown
      have joined := joined (by simp [unused, unknown]) solidName
      have found : RemoteList.byOSC q.2 addr = some w.freshRemote := by
        rw [joined.beside.byOSC, mirrors.byOSC_eq_none solid unknown]
        simp [joined.emulated, joined.osc]
      have mirrors' := mirrors.update joined.beside found joined.shows
        (fun addr' found' =>
          absurd (listed.old _ (RemoteList.byOSC_eq_some found').1) (lt_irrefl _))
        fun r recent => by rw [List.mem_singleton.mp recent, joined.osc]
      rwa [List.map_singleton, joined.name] at mirrors'

theorem readOscMsg_button (reachable : w.Reachable mutex) (unlocked : mutex ≠ .held)
    (mirrors : D.Mirrors w) (i : Interface) (solid : addr ≠ []) (b : Button) (state : Bool) :
    ∃ w', i.readOscMsg w addr [some (.string b.oscName), some (.bool state)] = .ok w' ∧
      w'.Reachable mutex ∧ (D.press addr b state).Mirrors w' := by
  have listed := reachable.orderly.listed
  have wellFormed := reachable.orderly.toSound.wellFormed
  have free : w.Unlocked := by
    rw [Unlocked, reachable.sound.2]
    exact unlocked
  have other : ¬isEmulate (some (.string b.oscName)) = true := by fin_cases b <;> decide
  simp only [Interface.readOscMsg, Directory.press]
  rw [List.head?_cons, Option.getD_some, if_neg other]
  cases known : D.remotes addr with
  | none =>
      rw [mirrors.byOSC_eq_none solid known]
      exact ⟨w, rfl, reachable, mirrors⟩
  | some down =>
      obtain ⟨r, found, shown⟩ := mirrors.present addr down known
      obtain ⟨inside, -⟩ := RemoteList.byOSC_eq_some found
      rw [found]
      dsimp only
      rw [EmulatedRemote.readOsc_button]
      obtain ⟨w', run, -⟩ := Remote.setButtonState_log wellFormed free r b state
      have named := (byName_iff listed).mpr ⟨inside, rfl⟩
      have performed : Op.perform w (.setButtonState (w.remoteName r) (Remote.message b) state) =
          .ok w' := by
        rw [Op.perform, named]
        exact run
      have beside := (Remote.setButtonState_beside r (Remote.message b) state).of_ok run
      have shown' := ((Remote.setButtonState_ends shown (Remote.message b) state).of_ok run).2
      refine ⟨w', run, reachable.perform performed, ?_⟩
      have same : RemoteList.byOSC w' addr = some r := by
        rw [beside.byOSC, found]
        rfl
      have mirrors' := mirrors.update beside same shown' (fun addr' found' => ?_)
        fun r inside => absurd inside List.not_mem_nil
      · rwa [List.map_nil, List.append_nil] at mirrors'
      · exact (RemoteList.byOSC_eq_some found').2.symm.trans (RemoteList.byOSC_eq_some found).2

/-- Step lemma. -/
theorem receive_mirrored (reachable : w.Reachable mutex) (unlocked : mutex ≠ .held)
    (mirrors : D.Mirrors w) (i : Interface) (utf8 : Utf8) (d : Datagram) :
    ∃ w', i.receive utf8 w d.bytes = .ok w' ∧ w'.Reachable mutex ∧
      (D.hear i (d.address utf8) d.call).Mirrors w' := by
  rw [i.receive_sent]
  unfold Directory.hear
  by_cases begins : i.oscAddress <+: d.address utf8
  · rw [if_pos begins, if_pos begins]
    have solid : d.address utf8 ≠ [] := by
      intro empty
      rw [empty, List.prefix_nil] at begins
      have first := i.first
      rw [begins] at first
      cases first
    cases call : d.call with
    | start ipPort =>
        obtain ⟨w', run, both⟩ := readOscMsg_start reachable unlocked mirrors i solid
          (utf8.decode (cString ipPort))
        refine ⟨w', ?_, both⟩
        rw [OSCRemote.Call.received, run]
        rfl
    | buttonChanged button state =>
        obtain ⟨w', run, both⟩ := readOscMsg_button reachable unlocked mirrors i solid button state
        refine ⟨w', ?_, both⟩
        rw [OSCRemote.Call.received, run]
        rfl
  · rw [if_neg begins, if_neg begins]
    exact ⟨w, rfl, reachable, mirrors⟩

/-- Whatever the remotes send, and in whatever order it arrives, every packet is understood and
    the models agree with the directory. -/
theorem clients_mirrored (reachable : w.Reachable mutex) (unlocked : mutex ≠ .held)
    (mirrors : D.Mirrors w) (i : Interface) (utf8 : Utf8) (received : List Datagram) :
    ∃ w', received.foldlM (fun w d => i.receive utf8 w d.bytes) w = .ok w' ∧
      w'.Reachable mutex ∧
      (received.foldl (fun D d => D.hear i (d.address utf8) d.call) D).Mirrors w' := by
  induction received generalizing w D with
  | nil => exact ⟨w, rfl, reachable, mirrors⟩
  | cons d received ih =>
      obtain ⟨w₁, run, reachable₁, mirrors₁⟩ := receive_mirrored reachable unlocked mirrors i utf8 d
      obtain ⟨w', rest, both⟩ := ih reachable₁ mirrors₁
      exact ⟨w', bind_eq_ok.mpr ⟨w₁, run, rest⟩, both⟩

/-- Two remotes announce themselves, one of them twice, and their buttons are pressed. -/
theorem clients_mirrored_two :
    let first : OSCRemote := ⟨"/VPDeamon/R1", rfl⟩
    let second : OSCRemote := ⟨"/VPDeamon/R2", rfl⟩
    let daemon := Interface.ofAddress ⟨[], [], {}⟩ "/VPDeamon/"
    let received : List Datagram :=
      [.ofCall first (.start "10.0.0.2:9000") (by decide),
        .ofCall second (.start "10.0.0.3:9000") (by decide),
        .ofCall first (.buttonChanged 3 true) (by decide),
        .ofCall second (.buttonChanged 0 true) (by decide),
        .ofCall first (.start "10.0.0.2:9000") (by decide)]
    ∃ w', received.foldlM (fun w d => daemon.receive TelnetSocket.fromUtf8 w d.bytes)
        (initial .free fun _ => none) = .ok w' ∧
      w'.Reachable .free ∧
      (received.foldl (fun D d => D.hear daemon (d.address TelnetSocket.fromUtf8) d.call)
        Directory.empty).Mirrors w' :=
  clients_mirrored ⟨_, [], rfl⟩ (by decide) (Directory.mirrors_initial _ _) _ _ _

end Runs

end Osc

end VoxPopuli
