import VoxPopuli.Lib.Runs
import VoxPopuli.Misc

/-! # The port of the radio

The loop of `XBeeInterface` looks for a port, opens it and stays with it, one read or write
of the shared variables at a time; the main thread may force a port between any two of them.
A call which comes while the loop connects, or asks for another port while it is connected,
leaves the wished port and the open one apart.
-/

namespace VoxPopuli

/-- `XBeeInterface::XBeeState`. -/
inductive XBeeState where
  | disconnected
  | initializing
  | connected
  deriving DecidableEq, Repr

/-- The name of a port; the empty one stands for none. -/
abbrev PortName := StdString

/-- Where the loop of `XBeeInterface::run` is. -/
inductive LoopPoint where
  /-- Before `switch(_state)`: an iteration starts. -/
  | start
  /-- `tryToConnect`, before the wished port is read. -/
  | tryWished
  /-- `tryToConnectOnPort`, before `xbee_dev_init`, with the ports which are listed behind it;
      the wished port is tried without a list. -/
  | attempt (port : PortName) (rest : Option (List PortName))
  /-- Before `xbee_cmd_init_device`. -/
  | command (port : PortName) (rest : Option (List PortName))
  /-- Before the test of `_wishedPort` against the port. -/
  | compare (port : PortName)
  /-- Before `_wishedPort = port`. -/
  | assign (port : PortName)
  /-- Before `_state = INITIALIZING`. -/
  | success
  /-- Before the test of `_forcePort` in `tryToConnect`. -/
  | askForced
  /-- Before `listPort` in `tryToConnect`. -/
  | list
  /-- The loop over the listed ports. -/
  | scan (ports : List PortName)
  /-- After `initialize`, before `_state = CONNECTED`. -/
  | initialized
  /-- `isStillConnected`. -/
  | check
  /-- Before `_state = DISCONNECTED`. -/
  | lost
  /-- Before the test of `_forcePort` after a disconnection. -/
  | lostForced
  /-- Before `set("USBPort", "")`. -/
  | reset
  /-- `standardRunTick`. -/
  | tick
  /-- The clock management at the end of an iteration. -/
  | sleep
  deriving DecidableEq, Repr

/-- `XBeeInterface` as far as its port goes. -/
structure XBeePort where
  state : XBeeState := .disconnected
  /-- `_wishedPort`. -/
  wishedPort : PortName := []
  /-- `_forcePort`. -/
  forced : Bool := false
  point : LoopPoint := .start
  /-- The port on which `xbee_dev_init` has last succeeded. -/
  opened : Option PortName := none
  /-- The argument of the call which has set `_forcePort`. -/
  forcedPort : Option PortName := none
  deriving DecidableEq, Repr

namespace XBeePort

/-- `XBeeInterface::forcePort`. -/
def forcePort (x : XBeePort) (port : PortName) : XBeePort :=
  if port = [] then
    { x with forced := false, wishedPort := [], state := .disconnected, forcedPort := none }
  else
    let x := { x with forced := true, forcedPort := some port }
    if x.wishedPort = port then x else { x with wishedPort := port }

/-- After a port which could not be connected to. -/
def LoopPoint.next : Option (List PortName) → LoopPoint
  | none => .askForced
  | some ports => .scan ports

/-- One step of the loop. `success` is the outcome of a call of the device and `ports` what
    `listPort` finds. -/
def advance (x : XBeePort) (success : Bool) (ports : List PortName) : XBeePort :=
  match x.point with
  | .start =>
      match x.state with
      | .disconnected => { x with point := .tryWished }
      | .initializing => { x with point := .initialized }
      | .connected => { x with point := .check }
  | .tryWished =>
      if x.wishedPort = [] then { x with point := .askForced }
      else { x with point := .attempt x.wishedPort none }
  | .attempt port rest =>
      if success then { x with opened := some port, point := .command port rest }
      else { x with point := LoopPoint.next rest }
  | .command port rest =>
      if success then { x with point := .compare port } else { x with point := LoopPoint.next rest }
  | .compare port =>
      if x.wishedPort ≠ port then { x with point := .assign port } else { x with point := .success }
  | .assign port => { x with wishedPort := port, point := .success }
  | .success => { x with state := .initializing, point := .start }
  | .askForced => if x.forced then { x with point := .sleep } else { x with point := .list }
  | .list => { x with point := .scan ports }
  | .scan [] => { x with point := .sleep }
  | .scan (port :: rest) =>
      if port ≠ x.wishedPort then { x with point := .attempt port (some rest) }
      else { x with point := .scan rest }
  | .initialized => { x with state := .connected, point := .start }
  | .check => if x.wishedPort ∈ ports then { x with point := .tick } else { x with point := .lost }
  | .lost => { x with state := .disconnected, point := .lostForced }
  | .lostForced => if !x.forced then { x with point := .reset } else { x with point := .sleep }
  | .reset => { x.forcePort [] with point := .sleep }
  | .tick => { x with point := .sleep }
  | .sleep => { x with point := .start }

/-- What happens next: the main thread calls `forcePort`, or the loop goes on. -/
inductive Turn where
  | force (port : PortName)
  | loop (success : Bool) (ports : List PortName)

def step (x : XBeePort) : Turn → Except Fault XBeePort
  | .force port => pure (x.forcePort port)
  | .loop success ports => pure (x.advance success ports)

/-! ## What is asked of a step -/

/-- An iteration which ends connected is connected to the wished port, and while a port is
    forced no other one is opened. -/
structure Proper (x : XBeePort) (turn : Turn) : Prop where
  connected : ∀ success ports, turn = .loop success ports →
    (x.advance success ports).point = .start → (x.advance success ports).state = .connected →
      (x.advance success ports).opened = some (x.advance success ports).wishedPort
  opens : ∀ port rest ports, x.point = .attempt port rest → turn = .loop true ports →
    x.forced = true → x.forcedPort = some port

/-- The loop is connecting to the port, and to no other one if this fails. -/
def Connecting (port : PortName) : LoopPoint → Prop
  | .attempt q rest | .command q rest => q = port ∧ ∀ r ∈ rest.getD [], r = port
  | .compare q | .assign q => q = port
  | .list => False
  | .scan ports => ∀ r ∈ ports, r = port
  | _ => True

/-- The loop has opened a port and will say so, whatever it was told in the meantime. -/
def Committed (x : XBeePort) : Prop :=
  x.point = .success ∨ x.point = .initialized ∨ (x.point = .start ∧ x.state = .initializing)

/-- No call comes while the loop connects, apart from one for the port it connects to and one
    for no port before the port has been opened; and a port which is forced while another one
    is connected is forced at the start of an iteration and not there when its turn comes. -/
def Timely (x : XBeePort) : Turn → Prop
  | .force port =>
      if port = [] then x.point ≠ .success ∧ x.point ≠ .initialized
      else
        Connecting port x.point ∧
          ((x.Committed ∨ x.state = .connected ∧ (x.point = .tick ∨ x.point = .sleep)) →
            x.opened = some port)
  | .loop _ ports =>
      x.point = .check → x.state = .connected → x.opened ≠ some x.wishedPort → x.wishedPort ∉ ports

/-! ## Runs -/

/-- Points at which the loop takes the radio for disconnected. -/
def Trying : LoopPoint → Prop
  | .tryWished | .attempt _ _ | .command _ _ | .compare _ | .assign _ | .success | .askForced
  | .list | .scan _ | .lostForced | .reset => True
  | _ => False

/-- The port which is in use at a point. -/
def Uses : LoopPoint → PortName → Prop
  | .command q _, port | .compare q, port | .assign q, port => q = port
  | _, _ => False

/-- What timely calls keep. -/
structure Kept (x : XBeePort) : Prop where
  forced : x.forced = x.forcedPort.isSome
  wished : ∀ port, x.forcedPort = some port → x.wishedPort = port
  connecting : ∀ port, x.forcedPort = some port → Connecting port x.point
  uses : ∀ port, Uses x.point port → x.opened = some port
  committed : x.Committed → x.opened = some x.wishedPort
  settled : x.state = .connected → x.point = .tick ∨ x.point = .sleep →
    x.opened = some x.wishedPort
  trying : Trying x.point → x.state = .disconnected
  initializing : x.state = .initializing → x.point = .start ∨ x.point = .initialized

variable {x : XBeePort}

theorem kept_start : Kept {} := by
  refine ⟨rfl, nofun, nofun, nofun, ?_, nofun, nofun, nofun⟩
  rintro (point | point | ⟨-, state⟩) <;> cases ‹_ = _›

theorem Kept.force (h : x.Kept) {port : PortName} (timely : x.Timely (.force port)) :
    (x.forcePort port).Kept := by
  rw [Timely] at timely
  rw [forcePort]
  by_cases none : port = []
  · rw [if_pos none] at timely ⊢
    refine ⟨rfl, nofun, nofun, h.uses, ?_, nofun, fun _ => rfl, nofun⟩
    rintro (point | point | ⟨-, state⟩)
    · exact absurd point timely.1
    · exact absurd point timely.2
    · cases state
  · rw [if_neg none] at timely ⊢
    have wish : (if x.wishedPort = port then { x with forced := true, forcedPort := some port }
        else { x with forced := true, forcedPort := some port, wishedPort := port }) =
          { x with forced := true, forcedPort := some port, wishedPort := port } := by
      split
      · rename_i same
        rw [← same]
      · rfl
    dsimp only
    rw [wish]
    have only : ∀ q, some port = some q → port = q := fun q => Option.some.inj
    refine ⟨rfl, only, fun q same => only q same ▸ timely.1, h.uses, ?_, ?_, h.trying,
      h.initializing⟩
    · exact fun committed => timely.2 (.inl committed)
    · exact fun state point => timely.2 (.inr ⟨state, point⟩)

/-- The loop goes on without a change of anything else. -/
theorem Kept.goto (h : x.Kept) {p : LoopPoint} (idle : x.state ≠ .initializing)
    (far : p ≠ .success ∧ p ≠ .initialized)
    (connecting : ∀ port, x.forcedPort = some port → Connecting port p)
    (uses : ∀ port, Uses p port → x.opened = some port)
    (settled : x.state = .connected → p = .tick ∨ p = .sleep → x.opened = some x.wishedPort)
    (trying : Trying p → x.state = .disconnected) : Kept { x with point := p } := by
  refine ⟨h.forced, h.wished, connecting, uses, ?_, settled, trying, fun state => absurd state idle⟩
  rintro (point | point | ⟨-, state⟩)
  · exact absurd point far.1
  · exact absurd point far.2
  · exact absurd state idle

/-- The loop goes on while the radio is disconnected. -/
theorem Kept.goto_trying (h : x.Kept) {p : LoopPoint} (away : x.state = .disconnected)
    (far : p ≠ .success ∧ p ≠ .initialized)
    (connecting : ∀ port, x.forcedPort = some port → Connecting port p)
    (uses : ∀ port, Uses p port → x.opened = some port) : Kept { x with point := p } :=
  h.goto (by simp [away]) far connecting uses (by simp [away]) fun _ => away

theorem Kept.not_initializing (h : x.Kept) (point : x.point ≠ .start ∧ x.point ≠ .initialized) :
    x.state ≠ .initializing :=
  fun state => (h.initializing state).elim point.1 point.2

/-- A connection which fails leads to the test of `_forcePort` or to the ports behind it. -/
theorem Kept.next (h : x.Kept) {port : PortName} {rest : Option (List PortName)}
    (point : x.point = .attempt port rest ∨ x.point = .command port rest) :
    Kept { x with point := LoopPoint.next rest } := by
  have away : x.state = .disconnected := h.trying (by rcases point with here | here <;> rw [here] <;> trivial)
  have others : ∀ p, x.forcedPort = some p → ∀ r ∈ rest.getD [], r = p := by
    intro p forced
    have connecting := h.connecting p forced
    rcases point with here | here <;> rw [here] at connecting <;> exact connecting.2
  cases rest with
  | none => exact h.goto_trying away (by decide) (fun _ _ => trivial) nofun
  | some ports => exact h.goto_trying away ⟨nofun, nofun⟩ others nofun

theorem Kept.advance (h : x.Kept) {success : Bool} {ports : List PortName}
    (timely : x.Timely (.loop success ports)) : (x.advance success ports).Kept := by
  have away : Trying x.point → x.state = .disconnected := h.trying
  have anything : ∀ port, x.forcedPort = some port → True := fun _ _ => trivial
  rw [XBeePort.advance]
  cases point : x.point with
  | start =>
      dsimp only
      split
      · rename_i state
        exact h.goto_trying state (by decide) anything nofun
      · rename_i state
        have opened : x.opened = some x.wishedPort := h.committed (.inr (.inr ⟨point, state⟩))
        exact ⟨h.forced, h.wished, anything, nofun, fun _ => opened, nofun, nofun,
          fun _ => .inr rfl⟩
      · rename_i state
        exact h.goto (by simp [state]) (by decide) anything nofun (by simp) nofun
  | tryWished =>
      rw [point] at away
      dsimp only
      split
      · exact h.goto_trying (away trivial) (by decide) anything nofun
      · refine h.goto_trying (away trivial) ⟨nofun, nofun⟩ (fun port forced => ?_) nofun
        exact ⟨h.wished port forced, nofun⟩
  | attempt port rest =>
      rw [point] at away
      have connecting := h.connecting
      rw [point] at connecting
      dsimp only
      split
      · refine ⟨h.forced, h.wished, connecting, ?_, ?_, ?_, fun _ => away trivial, ?_⟩
        · rintro p rfl
          rfl
        · rintro (here | here | ⟨here, -⟩) <;> cases here
        · rintro - (here | here) <;> cases here
        · simp [away trivial]
      · exact h.next (.inl point)
  | command port rest =>
      rw [point] at away
      have connecting := h.connecting
      have uses := h.uses
      rw [point] at connecting uses
      dsimp only
      split
      · exact h.goto_trying (away trivial) ⟨nofun, nofun⟩
          (fun p forced => (connecting p forced).1) uses
      · exact h.next (.inr point)
  | compare port =>
      rw [point] at away
      have connecting := h.connecting
      have uses := h.uses
      rw [point] at connecting uses
      dsimp only
      split
      · exact h.goto_trying (away trivial) ⟨nofun, nofun⟩ connecting uses
      · rename_i same
        have opened : x.opened = some x.wishedPort := uses _ (not_not.mp same).symm
        exact ⟨h.forced, h.wished, anything, nofun, fun _ => opened, fun _ _ => opened,
          fun _ => away trivial, by simp [away trivial]⟩
  | assign port =>
      rw [point] at away
      have connecting := h.connecting
      have uses := h.uses
      rw [point] at connecting uses
      have opened : x.opened = some port := uses port rfl
      exact ⟨h.forced, connecting, anything, nofun, fun _ => opened, fun _ _ => opened,
        fun _ => away trivial, by simp [away trivial]⟩
  | success =>
      have opened : x.opened = some x.wishedPort := h.committed (.inl point)
      exact ⟨h.forced, h.wished, anything, nofun, fun _ => opened, nofun, nofun,
        fun _ => .inl rfl⟩
  | askForced =>
      rw [point] at away
      dsimp only
      split
      · exact h.goto_trying (away trivial) (by decide) anything nofun
      · rename_i free
        refine h.goto_trying (away trivial) (by decide) (fun port forced => ?_) nofun
        exact free (by rw [h.forced, forced]; rfl)
  | list =>
      rw [point] at away
      have connecting := h.connecting
      rw [point] at connecting
      exact h.goto_trying (away trivial) ⟨nofun, nofun⟩
        (fun port forced => (connecting port forced).elim) nofun
  | scan listed =>
      rw [point] at away
      have connecting := h.connecting
      rw [point] at connecting
      cases listed with
      | nil => exact h.goto_trying (away trivial) (by decide) anything nofun
      | cons port rest =>
          dsimp only
          split
          · rename_i other
            refine h.goto_trying (away trivial) ⟨nofun, nofun⟩ (fun p forced => ?_) nofun
            have same := connecting p forced port List.mem_cons_self
            exact absurd (same.trans (h.wished p forced).symm) other
          · exact h.goto_trying (away trivial) ⟨nofun, nofun⟩
              (fun p forced r member => connecting p forced r (List.mem_cons_of_mem port member)) nofun
  | initialized =>
      have opened : x.opened = some x.wishedPort := h.committed (.inr (.inl point))
      exact ⟨h.forced, h.wished, anything, nofun, fun _ => opened, fun _ _ => opened, nofun, nofun⟩
  | check =>
      have idle := h.not_initializing (by simp [point])
      have told := timely point
      dsimp only
      split
      · rename_i present
        refine h.goto idle (by decide) anything nofun (fun state _ => ?_) nofun
        by_contra apart
        exact told state apart present
      · exact h.goto idle (by decide) anything nofun (by simp) nofun
  | lost =>
      refine ⟨h.forced, h.wished, anything, nofun, ?_, nofun, fun _ => rfl, nofun⟩
      rintro (here | here | ⟨-, state⟩) <;> cases ‹_ = _›
  | lostForced =>
      rw [point] at away
      dsimp only
      split
      · exact h.goto_trying (away trivial) (by decide) anything nofun
      · exact h.goto_trying (away trivial) (by decide) anything nofun
  | reset =>
      refine ⟨rfl, nofun, nofun, nofun, ?_, nofun, fun _ => rfl, nofun⟩
      rintro (here | here | ⟨-, state⟩) <;> cases ‹_ = _›
  | tick =>
      have idle := h.not_initializing (by simp [point])
      exact h.goto idle (by decide) anything nofun (fun state _ => h.settled state (.inl point)) nofun
  | sleep =>
      have idle := h.not_initializing (by simp [point])
      exact h.goto idle (by decide) anything nofun (by simp) nofun

/-- An iteration ends behind the clock management or with a `continue`. -/
theorem ends_iteration {success : Bool} {ports : List PortName}
    (ended : (x.advance success ports).point = .start)
    (state : (x.advance success ports).state = .connected) :
    (x.point = .initialized ∧ x.advance success ports = { x with state := .connected, point := .start }) ∨
      (x.point = .sleep ∧ x.advance success ports = { x with point := .start }) := by
  have next : ∀ rest, LoopPoint.next rest ≠ .start := by
    rintro (_ | ports) <;> exact nofun
  rw [advance] at ended state ⊢
  cases point : x.point with
  | initialized => exact .inl ⟨rfl, rfl⟩
  | sleep => exact .inr ⟨rfl, rfl⟩
  | success =>
      rw [point] at state
      cases state
  | scan listed =>
      rw [point] at ended
      cases listed with
      | nil => cases ended
      | cons port rest =>
          dsimp only at ended
          split at ended <;> cases ended
  | attempt port rest | command port rest =>
      rw [point] at ended
      dsimp only at ended
      split at ended
      · cases ended
      · exact absurd ended (next rest)
  | start | tryWished | compare port | askForced | check | lostForced =>
      rw [point] at ended
      dsimp only at ended
      split at ended <;> cases ended
  | assign port | list | lost | reset | tick =>
      rw [point] at ended
      cases ended

theorem Kept.proper (h : x.Kept) (turn : Turn) : x.Proper turn := by
  refine ⟨?_, ?_⟩
  · intro success ports same ended state
    rcases ends_iteration ended state with ⟨point, after⟩ | ⟨point, after⟩
    · rw [after]
      exact h.committed (.inr (.inl point))
    · rw [after] at state ⊢
      exact h.settled state (.inr point)
  · intro port rest ports point same forced
    rw [h.forced] at forced
    obtain ⟨p, set⟩ := Option.isSome_iff_exists.mp forced
    have connecting := h.connecting p set
    rw [point] at connecting
    exact set.trans (congrArg some connecting.1.symm)

/-- What a timely turn keeps. -/
theorem Kept.step (h : x.Kept) {turn : Turn} {x' : XBeePort} (timely : x.Timely turn)
    (stepped : x.step turn = .ok x') : x'.Kept := by
  cases turn with
  | force port =>
      cases stepped
      exact h.force timely
  | loop success ports =>
      cases stepped
      exact h.advance timely

end XBeePort

end VoxPopuli
