import VoxPopuli.Lib.Negotiation
import VoxPopuli.Qt

/-! # Telnet options

`libtelnet` keeps for every option what has been agreed about it on either side, in the way
of RFC 1143, and a session asks it to echo and to talk about the line mode whenever it
changes between the friendly and the raw command line. The other end is a client which
follows the same rules, accepts and asks what it likes, and may speak at any time.
-/

namespace VoxPopuli

namespace Telnet

/-! ## The table of options -/

/-- One half of `telnet_rfc1143_t::state`. -/
inductive Q where
  | no
  | yes
  | wantNo
  | wantYes
  | wantNoOp
  | wantYesOp
  deriving DecidableEq, Repr

structure Rfc1143 where
  us : Q := .no
  him : Q := .no
  deriving DecidableEq, Repr

inductive Cmd where
  | WILL
  | WONT
  | DO
  | DONT
  deriving DecidableEq, Repr

namespace Cmd

/-- WILL and WONT are about an option of the one who says so, DO and DONT about the other's. -/
def isOffer : Cmd → Bool
  | WILL | WONT => true
  | DO | DONT => false

def isOn : Cmd → Bool
  | WILL | DO => true
  | WONT | DONT => false

def make (offer on : Bool) : Cmd :=
  if offer then (if on then WILL else WONT) else (if on then DO else DONT)

@[simp] theorem isOffer_make (offer on : Bool) : (make offer on).isOffer = offer := by
  cases offer <;> cases on <;> rfl

@[simp] theorem isOn_make (offer on : Bool) : (make offer on).isOn = on := by
  cases offer <;> cases on <;> rfl

end Cmd

/-- `telnet->q`. -/
abbrev OptionTable := List (Byte × Rfc1143)

/-- `_get_rfc1143`. -/
def getRfc1143 (q : OptionTable) (telopt : Byte) : Rfc1143 :=
  (q.find? fun e => e.1 = telopt).elim {} Prod.snd

/-- `_set_rfc1143`. Past its end the table grows by four entries, three of them zeroed. The
    count of its entries is an `unsigned char`, which wraps when 64 options have been kept: a
    session asks for two of them, and has to support the others for it to come to that. -/
def setRfc1143 : OptionTable → Byte → Q → Q → OptionTable
  | [], telopt, us, him => [(telopt, ⟨us, him⟩), (0, {}), (0, {}), (0, {})]
  | e :: q, telopt, us, him =>
      if e.1 = telopt then (telopt, ⟨us, him⟩) :: q else e :: setRfc1143 q telopt us him

/-- `_negotiate`. The result of `_check_telopt` is given: the table it looks into belongs to a
    constructor which has returned. -/
def negotiate (q : OptionTable) (supported : Bool) (cmd : Cmd) (telopt : Byte) :
    OptionTable × List (Cmd × Byte) :=
  let s := getRfc1143 q telopt
  match cmd with
  | .WILL =>
      match s.him with
      | .no =>
          if supported then (setRfc1143 q telopt s.us .yes, [(.DO, telopt)])
          else (q, [(.DONT, telopt)])
      | .yes => (q, [])
      | .wantNo => (setRfc1143 q telopt s.us .no, [])
      | .wantNoOp => (setRfc1143 q telopt s.us .yes, [])
      | .wantYes => (setRfc1143 q telopt s.us .yes, [])
      | .wantYesOp => (setRfc1143 q telopt s.us .wantNo, [(.DONT, telopt)])
  | .WONT =>
      match s.him with
      | .no => (q, [])
      | .yes => (setRfc1143 q telopt s.us .no, [(.DONT, telopt)])
      | .wantNo => (setRfc1143 q telopt s.us .no, [])
      -- the other half of the function sends here what it waits for from now on
      | .wantNoOp => (setRfc1143 q telopt s.us .wantYes, [])
      | .wantYes | .wantYesOp => (setRfc1143 q telopt s.us .no, [])
  | .DO =>
      match s.us with
      | .no =>
          if supported then (setRfc1143 q telopt .yes s.him, [(.WILL, telopt)])
          else (q, [(.WONT, telopt)])
      | .yes => (q, [])
      | .wantNo => (setRfc1143 q telopt .no s.him, [])
      | .wantNoOp => (setRfc1143 q telopt .yes s.him, [])
      | .wantYes => (setRfc1143 q telopt .yes s.him, [])
      | .wantYesOp => (setRfc1143 q telopt .wantNo s.him, [(.WONT, telopt)])
  | .DONT =>
      match s.us with
      | .no => (q, [])
      | .yes => (setRfc1143 q telopt .no s.him, [(.WONT, telopt)])
      | .wantNo => (setRfc1143 q telopt .no s.him, [])
      | .wantNoOp => (setRfc1143 q telopt .wantYes s.him, [(.WILL, telopt)])
      | .wantYes | .wantYesOp => (setRfc1143 q telopt .no s.him, [])

/-- `telnet_negotiate`. -/
def telnetNegotiate (q : OptionTable) (cmd : Cmd) (telopt : Byte) :
    OptionTable × List (Cmd × Byte) :=
  let s := getRfc1143 q telopt
  match cmd with
  | .WILL =>
      match s.us with
      | .no => (setRfc1143 q telopt .wantYes s.him, [(.WILL, telopt)])
      | .wantNo => (setRfc1143 q telopt .wantNoOp s.him, [])
      | .wantYesOp => (setRfc1143 q telopt .wantYes s.him, [])
      | _ => (q, [])
  | .WONT =>
      match s.us with
      | .yes => (setRfc1143 q telopt .wantNo s.him, [(.WONT, telopt)])
      | .wantYes => (setRfc1143 q telopt .wantYesOp s.him, [])
      | .wantNoOp => (setRfc1143 q telopt .wantNo s.him, [])
      | _ => (q, [])
  | .DO =>
      match s.him with
      | .no => (setRfc1143 q telopt s.us .wantYes, [(.DO, telopt)])
      | .wantNo => (setRfc1143 q telopt s.us .wantNoOp, [])
      | .wantYesOp => (setRfc1143 q telopt s.us .wantYes, [])
      | _ => (q, [])
  | .DONT =>
      match s.him with
      | .yes => (setRfc1143 q telopt s.us .wantNo, [(.DONT, telopt)])
      | .wantYes => (setRfc1143 q telopt s.us .wantYesOp, [])
      | .wantNoOp => (setRfc1143 q telopt s.us .wantNo, [])
      | _ => (q, [])

/-! ## The session -/

/-- `TELNET_TELOPT_ECHO`. -/
def teloptEcho : Byte := 1

/-- `TELNET_TELOPT_LINEMODE`. -/
def teloptLinemode : Byte := 34

/-- A session as far as options go. -/
structure OptionSession where
  /-- `_friendly`. -/
  friendly : Bool := true
  q : OptionTable := []

/-- `setFriendlyCLI` with what it negotiates; the mode of the line follows as data. -/
def OptionSession.setFriendlyCLI (s : OptionSession) (friendly : Bool) :
    OptionSession × List (Cmd × Byte) :=
  if friendly = s.friendly then (s, [])
  else
    let echo := telnetNegotiate s.q (if friendly then .WILL else .WONT) teloptEcho
    let linemode := telnetNegotiate echo.1 .DO teloptLinemode
    (⟨friendly, linemode.1⟩, echo.2 ++ linemode.2)

/-! ## The session and a client -/

/-- The commands under way in either direction, and what the client holds of the session's
    options (`true`) and of its own (`false`). -/
structure Connection where
  session : OptionSession := {}
  toClient : List (Cmd × Byte) := []
  client : Byte × Bool → Negotiation.State := fun _ => .no
  toServer : List (Cmd × Byte) := []

namespace Connection

inductive Event where
  | setFriendlyCLI (friendly : Bool)
  /-- The user of the client asks for something. -/
  | clientAsks (cmd : Cmd) (telopt : Byte)
  | serverReceives (supported : Bool)
  | clientReceives (accepts : Byte → Bool)

/-- What one half of a side says about an option. -/
def speak (offer : Bool) (telopt : Byte) (answers : List Bool) : List (Cmd × Byte) :=
  answers.map fun on => (.make offer on, telopt)

def step (c : Connection) : Event → Option Connection
  | .setFriendlyCLI friendly =>
      let (session, out) := c.session.setFriendlyCLI friendly
      some { c with session := session, toClient := c.toClient ++ out }
  | .clientAsks cmd telopt =>
      let next := (c.client (telopt, !cmd.isOffer)).request cmd.isOn
      some { c with
        client := Function.update c.client (telopt, !cmd.isOffer) next.1
        toServer := c.toServer ++ speak cmd.isOffer telopt next.2 }
  | .serverReceives supported =>
      match c.toServer with
      | [] => none
      | (cmd, telopt) :: rest =>
          let (q, out) := negotiate c.session.q supported cmd telopt
          some { c with
            session := { c.session with q := q }, toServer := rest, toClient := c.toClient ++ out }
  | .clientReceives accepts =>
      match c.toClient with
      | [] => none
      | (cmd, telopt) :: rest =>
          let next := (c.client (telopt, cmd.isOffer)).receive (accepts telopt) cmd.isOn
          some { c with
            client := Function.update c.client (telopt, cmd.isOffer) next.1
            toClient := rest
            toServer := c.toServer ++ speak (!cmd.isOffer) telopt next.2 }

def run (c : Connection) (events : List Event) : Option Connection := events.foldlM step c

/-- The constructor of the session runs, then `events` happen. -/
def start (events : List Event) : Option Connection :=
  run {} (.setFriendlyCLI false :: events)

/-! ## One option on one side -/

/-- A half of an option in the terms of the protocol. -/
def ofQ : Q → Negotiation.State
  | .no => .no
  | .yes => .yes
  | .wantNo => .wantNo false
  | .wantNoOp => .wantNo true
  | .wantYes => .wantYes false
  | .wantYesOp => .wantYes true

/-- What a session holds of its own options, or of the client's. -/
def half (q : OptionTable) (telopt : Byte) (own : Bool) : Q :=
  if own then (getRfc1143 q telopt).us else (getRfc1143 q telopt).him

/-- What is said about an option, by the side whose option it is or by the other one. -/
def about (telopt : Byte) (offer : Bool) (msgs : List (Cmd × Byte)) : List Bool :=
  msgs.filterMap fun m => if m.2 = telopt ∧ m.1.isOffer = offer then some m.1.isOn else none

/-- An option of the session or of the client, between the two of them. -/
def lane (c : Connection) (l : Byte × Bool) : Negotiation.Lane where
  a := ofQ (half c.session.q l.1 l.2)
  toB := about l.1 l.2 c.toClient
  b := c.client l
  toA := about l.1 (!l.2) c.toServer

/-- What an event is to that option. -/
def acts (c : Connection) : Event → Byte × Bool → List (Bool × Negotiation.Lane.Act)
  | .setFriendlyCLI friendly, l =>
      if friendly = c.session.friendly then []
      else if l = (teloptEcho, true) then [(false, .request friendly)]
      else if l = (teloptLinemode, false) then [(false, .request true)]
      else []
  | .clientAsks cmd telopt, l =>
      if l = (telopt, !cmd.isOffer) then [(true, .request cmd.isOn)] else []
  | .serverReceives supported, l =>
      c.toServer.head?.elim [] fun m =>
        if l = (m.2, !m.1.isOffer) then [(false, .deliver supported)] else []
  | .clientReceives accepts, l =>
      c.toClient.head?.elim [] fun m =>
        if l = (m.2, m.1.isOffer) then [(true, .deliver (accepts m.2))] else []

end Connection

open Connection

theorem getRfc1143_setRfc1143 (q : OptionTable) (t t' : Byte) (us him : Q) :
    getRfc1143 (setRfc1143 q t us him) t' = if t' = t then ⟨us, him⟩ else getRfc1143 q t' := by
  induction q with
  | nil =>
      by_cases same : t' = t
      · simp [setRfc1143, getRfc1143, same]
      · by_cases zero : (0 : Byte) = t'
        · simp [setRfc1143, getRfc1143, same, Ne.symm same, zero]
        · simp [setRfc1143, getRfc1143, same, Ne.symm same, zero]
  | cons e q ih =>
      by_cases here : e.1 = t
      · by_cases same : t' = t
        · simp [setRfc1143, getRfc1143, here, same]
        · simp [setRfc1143, getRfc1143, here, same, Ne.symm same]
      · by_cases there : e.1 = t'
        · have other : t' ≠ t := fun same => here (there.trans same)
          simp [setRfc1143, getRfc1143, there, other]
        · simpa [setRfc1143, getRfc1143, here, there] using ih

/-- Writing one option leaves the others, and each half of it is what was written. -/
theorem half_setRfc1143 (q : OptionTable) (t t' : Byte) (own : Bool) (us him : Q) :
    half (setRfc1143 q t us him) t' own =
      if t' = t then (if own then us else him) else half q t' own := by
  by_cases same : t' = t <;> simp [half, getRfc1143_setRfc1143, same]

/-- One half of one option has moved as the protocol has it, with what is said about it. -/
structure Moved (q q' : OptionTable) (out : List (Cmd × Byte)) (telopt : Byte) (own : Bool)
    (next : Negotiation.State × List Bool) : Prop where
  said : out = speak own telopt next.2
  there : ofQ (half q' telopt own) = next.1
  elsewhere : ∀ telopt' own', (telopt', own') ≠ (telopt, own) →
    half q' telopt' own' = half q telopt' own'

theorem Moved.stay {q : OptionTable} {telopt : Byte} {own : Bool}
    {next : Negotiation.State × List Bool} {out : List (Cmd × Byte)}
    (said : out = speak own telopt next.2) (there : ofQ (half q telopt own) = next.1) :
    Moved q q out telopt own next :=
  ⟨said, there, fun _ _ _ => rfl⟩

theorem Moved.us {q : OptionTable} {telopt : Byte} {us : Q}
    {next : Negotiation.State × List Bool} {out : List (Cmd × Byte)}
    (said : out = speak true telopt next.2) (there : ofQ us = next.1) :
    Moved q (setRfc1143 q telopt us (getRfc1143 q telopt).him) out telopt true next := by
  refine ⟨said, by simpa [half_setRfc1143] using there, fun telopt' own' other => ?_⟩
  rw [half_setRfc1143]
  by_cases same : telopt' = telopt
  · cases own' with
    | true => exact absurd (by rw [same]) other
    | false => simp [same, half]
  · rw [if_neg same]

theorem Moved.him {q : OptionTable} {telopt : Byte} {him : Q}
    {next : Negotiation.State × List Bool} {out : List (Cmd × Byte)}
    (said : out = speak false telopt next.2) (there : ofQ him = next.1) :
    Moved q (setRfc1143 q telopt (getRfc1143 q telopt).us him) out telopt false next := by
  refine ⟨said, by simpa [half_setRfc1143] using there, fun telopt' own' other => ?_⟩
  rw [half_setRfc1143]
  by_cases same : telopt' = telopt
  · cases own' with
    | false => exact absurd (by rw [same]) other
    | true => simp [same, half]
  · rw [if_neg same]

/-- A request of the session is the one of the protocol. -/
theorem telnetNegotiate_moved (q : OptionTable) (cmd : Cmd) (telopt : Byte) :
    Moved q (telnetNegotiate q cmd telopt).1 (telnetNegotiate q cmd telopt).2 telopt cmd.isOffer
      ((ofQ (half q telopt cmd.isOffer)).request cmd.isOn) := by
  cases cmd with
  | WILL | WONT =>
      simp only [telnetNegotiate, Cmd.isOffer, Cmd.isOn, half]
      cases h : (getRfc1143 q telopt).us <;> first
        | exact .us rfl rfl
        | exact .stay rfl (by simp [half, h, ofQ, Negotiation.State.request])
  | DO | DONT =>
      simp only [telnetNegotiate, Cmd.isOffer, Cmd.isOn, half]
      cases h : (getRfc1143 q telopt).him <;> first
        | exact .him rfl rfl
        | exact .stay rfl (by simp [half, h, ofQ, Negotiation.State.request])

theorem echo_moved (q : OptionTable) (friendly : Bool) :
    Moved q (telnetNegotiate q (if friendly then .WILL else .WONT) teloptEcho).1
      (telnetNegotiate q (if friendly then .WILL else .WONT) teloptEcho).2 teloptEcho true
      ((ofQ (half q teloptEcho true)).request friendly) := by
  cases friendly
  · exact telnetNegotiate_moved q .WONT teloptEcho
  · exact telnetNegotiate_moved q .WILL teloptEcho

theorem linemode_moved (q : OptionTable) :
    Moved q (telnetNegotiate q .DO teloptLinemode).1 (telnetNegotiate q .DO teloptLinemode).2
      teloptLinemode false ((ofQ (half q teloptLinemode false)).request true) :=
  telnetNegotiate_moved q .DO teloptLinemode

/-- So is an answer, unless the client gives up an option which the session has wanted off and
    then on again: the session waits for an answer to a request which it has not made. -/
theorem negotiate_moved (q : OptionTable) (supported : Bool) (cmd : Cmd) (telopt : Byte)
    (heard : cmd = .WONT → half q telopt false ≠ .wantNoOp) :
    Moved q (negotiate q supported cmd telopt).1 (negotiate q supported cmd telopt).2 telopt
      (!cmd.isOffer) ((ofQ (half q telopt (!cmd.isOffer))).receive supported cmd.isOn) := by
  cases cmd with
  | WILL | WONT =>
      simp only [negotiate, Cmd.isOffer, Cmd.isOn, half, Bool.not_true]
      cases h : (getRfc1143 q telopt).him <;> cases supported <;> first
        | exact .him rfl rfl
        | exact .stay rfl (by simp [half, h, ofQ, Negotiation.State.receive])
        | exact absurd h (heard rfl)
  | DO | DONT =>
      simp only [negotiate, Cmd.isOffer, Cmd.isOn, half, Bool.not_false]
      cases h : (getRfc1143 q telopt).us <;> cases supported <;> first
        | exact .us rfl rfl
        | exact .stay rfl (by simp [half, h, ofQ, Negotiation.State.receive])

namespace Connection

@[simp] theorem about_append (t : Byte) (offer : Bool) (ms ms' : List (Cmd × Byte)) :
    about t offer (ms ++ ms') = about t offer ms ++ about t offer ms' :=
  List.filterMap_append

theorem about_cons (t : Byte) (offer : Bool) (m : Cmd × Byte) (ms : List (Cmd × Byte)) :
    about t offer (m :: ms) =
      if (t, offer) = (m.2, m.1.isOffer) then m.1.isOn :: about t offer ms
      else about t offer ms := by
  by_cases h : (t, offer) = (m.2, m.1.isOffer)
  · obtain ⟨rfl, rfl⟩ := Prod.mk.inj h
    simp [about]
  · rw [if_neg h]
    exact List.filterMap_cons_none (if_neg fun same => h (by rw [same.1, same.2]))

theorem about_speak (t t' : Byte) (offer offer' : Bool) (answers : List Bool) :
    about t offer (speak offer' t' answers) =
      if (t, offer) = (t', offer') then answers else [] := by
  induction answers with
  | nil => simp [speak, about]
  | cons on answers ih =>
      simp only [speak, List.map_cons, about_cons, Cmd.isOffer_make, Cmd.isOn_make] at ih ⊢
      split <;> rename_i h
      · rw [ih, if_pos h]
      · rw [ih, if_neg h]

end Connection

/-- A move of the session in the terms of the protocol. -/
theorem Moved.lane {c : Connection} {q : OptionTable} {out : List (Cmd × Byte)} {t : Byte}
    {own : Bool} {next : Negotiation.State × List Bool}
    (moved : Moved c.session.q q out t own next) (friendly : Bool) (rest : List (Cmd × Byte))
    (l : Byte × Bool) :
    Connection.lane ⟨⟨friendly, q⟩, c.toClient ++ out, c.client, rest⟩ l =
      if l = (t, own) then
        ⟨next.1, (c.lane l).toB ++ next.2, c.client l, about l.1 (!l.2) rest⟩
      else ⟨(c.lane l).a, (c.lane l).toB, c.client l, about l.1 (!l.2) rest⟩ := by
  obtain ⟨t', own'⟩ := l
  by_cases here : (t', own') = (t, own)
  · obtain ⟨rfl, rfl⟩ := Prod.mk.inj here
    simp [Connection.lane, moved.said, moved.there, about_speak]
  · simp only [Connection.lane, moved.said, about_append, about_speak, if_neg here,
      moved.elsewhere t' own' here, List.append_nil]

/-- A move of the client in the terms of the protocol. -/
theorem Connection.lane_client (c : Connection) (l₀ : Byte × Bool)
    (next : Negotiation.State × List Bool) (rest : List (Cmd × Byte)) (l : Byte × Bool) :
    Connection.lane ⟨c.session, rest, Function.update c.client l₀ next.1,
        c.toServer ++ speak (!l₀.2) l₀.1 next.2⟩ l =
      if l = l₀ then ⟨(c.lane l).a, about l.1 l.2 rest, next.1, (c.lane l).toA ++ next.2⟩
      else ⟨(c.lane l).a, about l.1 l.2 rest, c.client l, (c.lane l).toA⟩ := by
  by_cases here : l = l₀
  · obtain rfl := here
    simp [Connection.lane, about_speak]
  · have half : (l.1, !l.2) ≠ (l₀.1, !l₀.2) := fun same => by
      obtain ⟨telopt, own⟩ := Prod.mk.inj same
      exact here (Prod.ext telopt (Bool.not_inj own))
    simp only [Connection.lane, about_append, about_speak, if_neg here, if_neg half,
      Function.update_of_ne here, List.append_nil]

/-- A half which has never asked for anything but on. -/
def Firm (s : Negotiation.State) : Prop := s = .no ∨ s = .yes ∨ s = .wantYes false

theorem Firm.request {s : Negotiation.State} (firm : Firm s) : Firm (s.request true).1 := by
  rcases firm with rfl | rfl | rfl
  · exact .inr (.inr rfl)
  · exact .inr (.inl rfl)
  · exact .inr (.inr rfl)

theorem Firm.receive {s : Negotiation.State} (firm : Firm s) (accepts on : Bool) :
    Firm (s.receive accepts on).1 := by
  rcases firm with rfl | rfl | rfl <;> cases on <;> cases accepts <;> first
    | exact .inl rfl
    | exact .inr (.inl rfl)

/-- The session asks the client to turn options on only. -/
def Mild (q : OptionTable) : Prop := ∀ telopt, Firm (ofQ (half q telopt false))

theorem Mild.heard {q : OptionTable} (mild : Mild q) (telopt : Byte) :
    half q telopt false ≠ .wantNoOp := by
  intro want
  have firm := mild telopt
  simp [want, ofQ, Firm] at firm

/-- A move keeps this up when it does where it happens. -/
theorem Moved.mild {q q' : OptionTable} {out : List (Cmd × Byte)} {t : Byte} {own : Bool}
    {next : Negotiation.State × List Bool} (moved : Moved q q' out t own next) (mild : Mild q)
    (firm : own = false → Firm next.1) : Mild q' := by
  intro t'
  by_cases here : (t', false) = (t, own)
  · obtain ⟨rfl, rfl⟩ := Prod.mk.inj here
    rw [moved.there]
    exact firm rfl
  · rw [moved.elsewhere t' false here]
    exact mild t'

namespace Connection

open Negotiation (Lane)

theorem lane_setFriendlyCLI (c : Connection) (friendly : Bool) {c' : Connection}
    (done : c.step (.setFriendlyCLI friendly) = some c') (l : Byte × Bool) :
    (c.lane l).run (c.acts (.setFriendlyCLI friendly) l) = some (c'.lane l) := by
  simp only [step, OptionSession.setFriendlyCLI] at done
  split at done <;> rename_i switches
  · obtain rfl := Option.some.inj done
    simp [acts, switches, Lane.run]
  · obtain rfl := Option.some.inj done
    simp only [acts, if_neg switches]
    have echo := echo_moved c.session.q friendly
    generalize telnetNegotiate c.session.q (if friendly then .WILL else .WONT) teloptEcho = e at *
    let c₁ : Connection := ⟨⟨c.session.friendly, e.1⟩, c.toClient ++ e.2, c.client, c.toServer⟩
    have linemode := linemode_moved c₁.session.q
    have first := echo.lane c.session.friendly c.toServer l
    have second := linemode.lane (c := c₁) friendly c.toServer l
    rw [← List.append_assoc]
    refine Eq.trans ?_ (congrArg some second.symm)
    by_cases own : l = (teloptEcho, true)
    · obtain rfl := own
      rw [if_pos rfl] at first ⊢
      rw [if_neg (by decide), first]
      rfl
    · rw [if_neg own] at first ⊢
      by_cases his : l = (teloptLinemode, false)
      · obtain rfl := his
        rw [if_pos rfl, if_pos rfl, first, echo.elsewhere _ _ (by decide)]
        rfl
      · rw [if_neg his, if_neg his, first]
        rfl

theorem lane_clientAsks (c : Connection) (cmd : Cmd) (telopt : Byte) {c' : Connection}
    (done : c.step (.clientAsks cmd telopt) = some c') (l : Byte × Bool) :
    (c.lane l).run (c.acts (.clientAsks cmd telopt) l) = some (c'.lane l) := by
  obtain rfl := Option.some.inj done
  have moved := c.lane_client (telopt, !cmd.isOffer)
    ((c.client (telopt, !cmd.isOffer)).request cmd.isOn) c.toClient l
  rw [Bool.not_not] at moved
  simp only [acts]
  rw [moved]
  split
  · rename_i here
    subst here
    simp [Lane.run, Lane.step, Lane.act, Lane.swap, lane]
  · rfl

theorem lane_serverReceives (c : Connection) (mild : Mild c.session.q) (supported : Bool)
    {c' : Connection} (done : c.step (.serverReceives supported) = some c') (l : Byte × Bool) :
    (c.lane l).run (c.acts (.serverReceives supported) l) = some (c'.lane l) := by
  simp only [step] at done
  split at done
  · cases done
  · rename_i cmd telopt rest queue
    obtain rfl := Option.some.inj done
    have table := negotiate_moved c.session.q supported cmd telopt fun _ => mild.heard telopt
    have moved := table.lane c.session.friendly rest l
    rw [moved]
    simp only [acts, queue, List.head?_cons, Option.elim_some]
    split
    · rename_i here
      subst here
      simp [Lane.run, Lane.step, Lane.act, lane, queue, about_cons]
    · rename_i here
      have half : (l.1, !l.2) ≠ (telopt, cmd.isOffer) := fun same => here (by
        obtain ⟨telopt, own⟩ := Prod.mk.inj same
        exact Prod.ext telopt (by rw [← own, Bool.not_not]))
      have others : about l.1 (!l.2) c.toServer = about l.1 (!l.2) rest := by
        rw [queue, about_cons, if_neg half]
      simp [Lane.run, lane, others]

theorem lane_clientReceives (c : Connection) (accepts : Byte → Bool) {c' : Connection}
    (done : c.step (.clientReceives accepts) = some c') (l : Byte × Bool) :
    (c.lane l).run (c.acts (.clientReceives accepts) l) = some (c'.lane l) := by
  simp only [step] at done
  split at done
  · cases done
  · rename_i cmd telopt rest queue
    obtain rfl := Option.some.inj done
    have moved := c.lane_client (telopt, cmd.isOffer)
      ((c.client (telopt, cmd.isOffer)).receive (accepts telopt) cmd.isOn) rest l
    rw [moved]
    simp only [acts, queue, List.head?_cons, Option.elim_some]
    split
    · rename_i here
      subst here
      simp [Lane.run, Lane.step, Lane.act, Lane.swap, lane, queue, about_cons]
    · rename_i here
      have others : about l.1 l.2 c.toClient = about l.1 l.2 rest := by
        rw [queue, about_cons, if_neg here]
      simp [Lane.run, lane, others]

/-- Step lemma: an event is a step of the protocol for the options which it is about, and
    nothing to the others. -/
theorem lane_step {c c' : Connection} (mild : Mild c.session.q) {e : Event}
    (done : c.step e = some c') (l : Byte × Bool) :
    (c.lane l).run (c.acts e l) = some (c'.lane l) := by
  cases e with
  | setFriendlyCLI friendly => exact c.lane_setFriendlyCLI friendly done l
  | clientAsks cmd telopt => exact c.lane_clientAsks cmd telopt done l
  | serverReceives supported => exact c.lane_serverReceives mild supported done l
  | clientReceives accepts => exact c.lane_clientReceives accepts done l

theorem step_mild {c c' : Connection} (mild : Mild c.session.q) {e : Event}
    (done : c.step e = some c') : Mild c'.session.q := by
  cases e with
  | setFriendlyCLI friendly =>
      simp only [step, OptionSession.setFriendlyCLI] at done
      split at done <;> obtain rfl := Option.some.inj done
      · exact mild
      · have echo := (echo_moved c.session.q friendly).mild mild nofun
        exact (linemode_moved _).mild echo fun _ => (echo teloptLinemode).request
  | serverReceives supported =>
      simp only [step] at done
      split at done
      · cases done
      · rename_i cmd telopt rest queue
        obtain rfl := Option.some.inj done
        refine (negotiate_moved _ supported cmd telopt fun _ => mild.heard telopt).mild mild ?_
        intro his
        rw [his]
        exact (mild telopt).receive supported cmd.isOn
  | clientAsks cmd telopt =>
      obtain rfl := Option.some.inj done
      exact mild
  | clientReceives accepts =>
      simp only [step] at done
      split at done
      · cases done
      · obtain rfl := Option.some.inj done
        exact mild

/-! ## Runs -/

namespace Event

/-- The options which an event may ask about: a change of the command line asks about two. -/
def questions : Event → Nat
  | .setFriendlyCLI _ => 2
  | .clientAsks .. => 1
  | _ => 0

def receipts : Event → Nat
  | .serverReceives _ | .clientReceives _ => 1
  | _ => 0

end Event

/-- What may still be said, over all options. -/
def potential (c : Connection) : Nat := ∑ l, (c.lane l).potential

theorem sum_one (l₀ : Byte × Bool) : ∑ l, (if l = l₀ then 1 else 0) = 1 := by
  rw [Finset.sum_ite_eq', if_pos (Finset.mem_univ l₀)]

theorem sum_requests (c : Connection) (e : Event) :
    ∑ l, Lane.requests (c.acts e l) ≤ e.questions := by
  cases e with
  | setFriendlyCLI friendly =>
      have most : ∀ l, Lane.requests (c.acts (.setFriendlyCLI friendly) l) ≤
          (if l = (teloptEcho, true) then 1 else 0) +
            if l = (teloptLinemode, false) then 1 else 0 := by
        intro l
        simp only [acts]
        split_ifs <;> simp [Lane.requests]
      refine (Finset.sum_le_sum fun l _ => most l).trans ?_
      rw [Finset.sum_add_distrib, sum_one, sum_one]
      exact le_rfl
  | clientAsks cmd telopt =>
      have one : ∀ l, Lane.requests (c.acts (.clientAsks cmd telopt) l) =
          if l = (telopt, !cmd.isOffer) then 1 else 0 := by
        intro l
        simp only [acts]
        split_ifs <;> rfl
      rw [Finset.sum_congr rfl fun l _ => one l, sum_one]
      exact le_rfl
  | serverReceives supported =>
      refine (Finset.sum_eq_zero fun l _ => ?_).le
      simp only [acts]
      cases c.toServer.head? <;> simp only [Option.elim_none, Option.elim_some]
      · rfl
      · split_ifs <;> rfl
  | clientReceives accepts =>
      refine (Finset.sum_eq_zero fun l _ => ?_).le
      simp only [acts]
      cases c.toClient.head? <;> simp only [Option.elim_none, Option.elim_some]
      · rfl
      · split_ifs <;> rfl

theorem sum_deliveries {c c' : Connection} {e : Event} (done : c.step e = some c') :
    ∑ l, Lane.deliveries (c.acts e l) = e.receipts := by
  cases e with
  | setFriendlyCLI friendly =>
      refine Finset.sum_eq_zero fun l _ => ?_
      simp only [acts]
      split_ifs <;> rfl
  | clientAsks cmd telopt =>
      refine Finset.sum_eq_zero fun l _ => ?_
      simp only [acts]
      split_ifs <;> rfl
  | serverReceives supported =>
      simp only [step] at done
      split at done
      · cases done
      · rename_i cmd telopt rest queue
        have one : ∀ l, Lane.deliveries (c.acts (.serverReceives supported) l) =
            if l = (telopt, !cmd.isOffer) then 1 else 0 := by
          intro l
          simp only [acts, queue, List.head?_cons, Option.elim_some]
          split_ifs <;> rfl
        rw [Finset.sum_congr rfl fun l _ => one l, sum_one]
        rfl
  | clientReceives accepts =>
      simp only [step] at done
      split at done
      · cases done
      · rename_i cmd telopt rest queue
        have one : ∀ l, Lane.deliveries (c.acts (.clientReceives accepts) l) =
            if l = (telopt, cmd.isOffer) then 1 else 0 := by
          intro l
          simp only [acts, queue, List.head?_cons, Option.elim_some]
          split_ifs <;> rfl
        rw [Finset.sum_congr rfl fun l _ => one l, sum_one]
        rfl

/-- Every option is in order, on either side. -/
structure Sound (c : Connection) : Prop where
  coherent : ∀ l, (c.lane l).Coherent
  mild : Mild c.session.q

theorem Sound.step {c c' : Connection} (sound : c.Sound) {e : Event}
    (done : c.step e = some c') :
    c'.Sound ∧ c'.potential + e.receipts ≤ c.potential + 2 * e.questions := by
  have kept : ∀ l, _ := fun l => (sound.coherent l).run (lane_step sound.mild done l)
  refine ⟨⟨fun l => (kept l).1, step_mild sound.mild done⟩, ?_⟩
  have total := Finset.sum_le_sum fun l (_ : l ∈ Finset.univ) => (kept l).2
  rw [Finset.sum_add_distrib, Finset.sum_add_distrib, ← Finset.mul_sum, sum_deliveries done]
    at total
  have few := c.sum_requests e
  simp only [potential]
  omega

theorem Sound.run {c c' : Connection} (sound : c.Sound) {events : List Event}
    (ran : c.run events = some c') :
    c'.Sound ∧ c'.potential + (events.map Event.receipts).sum ≤
      c.potential + 2 * (events.map Event.questions).sum := by
  induction events generalizing c with
  | nil =>
      obtain rfl := Option.some.inj ran
      exact ⟨sound, le_rfl⟩
  | cons e events ih =>
      rw [Connection.run, List.foldlM_cons] at ran
      obtain ⟨c₁, first, rest⟩ := Option.bind_eq_some_iff.mp ran
      obtain ⟨sound₁, less₁⟩ := sound.step first
      obtain ⟨sound, less⟩ := ih sound₁ rest
      refine ⟨sound, ?_⟩
      simp only [List.map_cons, List.sum_cons]
      omega

theorem blank_lane (l : Byte × Bool) : lane {} l = {} := by
  obtain ⟨telopt, own⟩ := l
  cases own <;> rfl

theorem blank_sound : Sound {} := by
  refine ⟨fun l => ?_, fun _ => .inl rfl⟩
  rw [blank_lane]
  exact .inl .off

theorem blank_potential : potential {} = 0 := by
  refine Finset.sum_eq_zero fun l _ => ?_
  rw [blank_lane]
  rfl

/-- Nothing is under way. -/
def Quiet (c : Connection) : Prop := c.toClient = [] ∧ c.toServer = []

instance : DecidablePred Quiet := fun c =>
  inferInstanceAs (Decidable (c.toClient = [] ∧ c.toServer = []))

theorem Quiet.lane {c : Connection} (quiet : c.Quiet) (l : Byte × Bool) : (c.lane l).Quiet := by
  simp [Lane.Quiet, Connection.lane, quiet.1, quiet.2, about]

/-- In every run of a session with a client, however their commands cross, a change of the
    command line causes four commands at most and a question of the client two; when nothing is
    under way neither side waits for an answer and they agree on every option. -/
theorem options_agree {events : List Event} {c : Connection} (ran : start events = some c) :
    (events.map Event.receipts).sum ≤ 4 + 2 * (events.map Event.questions).sum ∧
      (c.Quiet → ∀ telopt own, half c.session.q telopt own ∈ [.no, .yes] ∧
        c.client (telopt, own) = ofQ (half c.session.q telopt own)) := by
  obtain ⟨sound, less⟩ := blank_sound.run ran
  constructor
  · rw [blank_potential] at less
    simp only [List.map_cons, List.sum_cons, Event.questions, Event.receipts] at less
    omega
  · intro quiet telopt own
    obtain ⟨same, settled⟩ := (sound.coherent (telopt, own)).agree (quiet.lane _)
    refine ⟨?_, same.symm⟩
    simp only [Connection.lane] at settled
    cases h : half c.session.q telopt own <;> simp [h, ofQ] at settled ⊢

/-- The command line becomes friendly and raw again while the client refuses the line mode and
    offers to talk about its window. -/
def refused : List Event :=
  [.setFriendlyCLI true, .clientReceives fun t => t = teloptEcho, .clientAsks .WILL 31,
    .setFriendlyCLI false, .serverReceives false, .clientReceives fun t => t = teloptEcho,
    .serverReceives false, .serverReceives false, .clientReceives fun _ => true,
    .clientReceives fun _ => true, .serverReceives false]

theorem options_agree_switching :
    ∃ c ∈ start refused, c.Quiet ∧ c.client (31, false) = ofQ (half c.session.q 31 false) := by
  obtain ⟨c, ran⟩ : ∃ c, start refused = some c := Option.isSome_iff_exists.mp (by decide)
  have quiet : ∀ c ∈ start refused, c.Quiet := by decide
  exact ⟨c, ran, quiet c ran, ((options_agree ran).2 (quiet c ran) 31 false).2⟩

/-! ## The echo -/

/-- The client leaves it to the session who echoes. -/
def Event.Leaves : Event → Prop
  | .clientAsks cmd telopt => telopt = teloptEcho → cmd.isOffer = true
  | .clientReceives accepts => accepts teloptEcho = true
  | _ => True

/-- The session is on its way to echo when its command line is friendly. -/
def Echoes (c : Connection) : Prop :=
  (c.lane (teloptEcho, true)).Led ∧ (c.lane (teloptEcho, true)).a.wish = c.session.friendly

theorem acts_follow (c : Connection) {e : Event} (leaves : e.Leaves) :
    ∀ p ∈ c.acts e (teloptEcho, true), Lane.Follows p := by
  intro p member asks
  cases e with
  | setFriendlyCLI friendly =>
      simp only [acts] at member
      split_ifs at member <;> simp at member
      subst member
      cases asks
  | clientAsks cmd telopt =>
      simp only [acts] at member
      split at member <;> rename_i here
      · obtain ⟨rfl, offer⟩ := Prod.mk.inj here
        rw [leaves rfl] at offer
        cases offer
      · cases member
  | serverReceives supported =>
      simp only [acts] at member
      cases head : c.toServer.head? with
      | none => simp [head] at member
      | some m =>
          simp only [head, Option.elim_some] at member
          split at member
          · obtain rfl := List.mem_singleton.mp member
            cases asks
          · cases member
  | clientReceives accepts =>
      simp only [acts] at member
      cases head : c.toClient.head? with
      | none => simp [head] at member
      | some m =>
          simp only [head, Option.elim_some] at member
          split at member <;> rename_i here
          · obtain rfl := List.mem_singleton.mp member
            rw [← (Prod.mk.inj here).1]
            exact congrArg Lane.Act.deliver leaves
          · cases member

theorem asked_acts {c c' : Connection} {e : Event} (done : c.step e = some c') :
    Lane.asked c.session.friendly (c.acts e (teloptEcho, true)) = c'.session.friendly := by
  cases e with
  | setFriendlyCLI friendly =>
      simp only [step, OptionSession.setFriendlyCLI] at done
      split at done <;> rename_i switches <;> obtain rfl := Option.some.inj done
      · simp only [acts, if_pos switches]
        rfl
      · simp only [acts, if_neg switches]
        rfl
  | clientAsks cmd telopt =>
      obtain rfl := Option.some.inj done
      simp only [acts]
      split <;> rfl
  | serverReceives supported =>
      simp only [step] at done
      split at done
      · cases done
      · rename_i queue
        obtain rfl := Option.some.inj done
        simp only [acts, queue, List.head?_cons, Option.elim_some]
        split <;> rfl
  | clientReceives accepts =>
      simp only [step] at done
      split at done
      · cases done
      · rename_i queue
        obtain rfl := Option.some.inj done
        simp only [acts, queue, List.head?_cons, Option.elim_some]
        split <;> rfl

theorem Echoes.step {c c' : Connection} (echoes : c.Echoes) (mild : Mild c.session.q)
    {e : Event} (leaves : e.Leaves) (done : c.step e = some c') : c'.Echoes := by
  obtain ⟨led, wish⟩ := echoes.1.run (c.acts_follow leaves) (lane_step mild done _)
  refine ⟨led, ?_⟩
  rw [wish, echoes.2]
  exact asked_acts done

theorem Echoes.run {c c' : Connection} (echoes : c.Echoes) (mild : Mild c.session.q)
    {events : List Event} (leaves : ∀ e ∈ events, e.Leaves) (ran : c.run events = some c') :
    c'.Echoes := by
  induction events generalizing c with
  | nil =>
      obtain rfl := Option.some.inj ran
      exact echoes
  | cons e events ih =>
      obtain ⟨first, others⟩ := List.forall_mem_cons.mp leaves
      rw [Connection.run, List.foldlM_cons] at ran
      obtain ⟨c₁, done, rest⟩ := Option.bind_eq_some_iff.mp ran
      exact ih (echoes.step mild first done) (step_mild mild done) others rest

/-- With a client which leaves echoing to it, the session echoes if and only if its command line
    is friendly, as soon as nothing is under way and however often it has changed before. -/
theorem echo_follows {events : List Event} {c : Connection} (ran : start events = some c)
    (leaves : ∀ e ∈ events, e.Leaves) (quiet : c.Quiet) :
    half c.session.q teloptEcho true = (if c.session.friendly then .yes else .no) ∧
      c.client (teloptEcho, true) = if c.session.friendly then .yes else .no := by
  rw [start, Connection.run, List.foldlM_cons] at ran
  obtain ⟨c₁, done, rest⟩ := Option.bind_eq_some_iff.mp ran
  have mild := step_mild blank_sound.mild done
  have echoes : c₁.Echoes := by
    obtain rfl := Option.some.inj done
    exact ⟨.off, rfl⟩
  obtain ⟨led, wish⟩ := echoes.run mild leaves rest
  obtain ⟨settled, same⟩ := led.settled (quiet.lane _)
  rw [wish] at settled
  simp only [Connection.lane] at settled same
  refine ⟨?_, same.trans settled⟩
  cases h : half c.session.q teloptEcho true <;> cases friendly : c.session.friendly <;>
    simp [h, friendly, ofQ] at settled ⊢

/-- The client accepts that the session echoes, and talks about the line mode. -/
def accepted : List Event :=
  [.setFriendlyCLI true, .clientReceives fun _ => true, .clientReceives fun _ => true,
    .serverReceives false, .serverReceives false]

theorem echo_follows_friendly :
    ∃ c ∈ start accepted, c.session.friendly = true ∧ half c.session.q teloptEcho true = .yes := by
  obtain ⟨c, ran⟩ : ∃ c, start accepted = some c :=
    Option.isSome_iff_exists.mp (by decide)
  have reached : ∀ c ∈ start accepted, c.Quiet ∧ c.session.friendly = true := by decide
  obtain ⟨quiet, friendly⟩ := reached c ran
  have echo := (echo_follows ran (by simp [accepted, Event.Leaves]) quiet).1
  rw [friendly] at echo
  exact ⟨c, ran, friendly, echo⟩

end Connection

end Telnet

end VoxPopuli
