import VoxPopuli.Telnet.TelnetSocket

/-! # The input lock of a telnet session

A session takes no input from the start of a command until its answer has been sent. Every
branch of `dispatchCmd` gives the input back, and so does every change of the session; a
command which finds nothing to change or no model to ask returns without doing so.
-/

namespace VoxPopuli

/-! ## Calls -/

/-- The functions of the nodes, and what `JSonNode` itself answers for each of them. -/
structure JSonNodes (Node : Type) where
  /-- The result and the texts which are handed to the callback. -/
  execFunction : Node → QString → QStringList → Option (Bool × QStringList)
  print : Node → QString
  helpString : Node → QString
  /-- `_flags & RENAMEABLE`. -/
  renameable : Node → Bool

/-- `JSonNode::call`. -/
def JSonNodes.call {Node : Type} (nodes : JSonNodes Node) (n : Node) (functionName : QString)
    (arg : QStringList) : Option (Bool × QStringList) := do
  let (done, returned) ← nodes.execFunction n functionName arg
  if done then return (true, returned ++ [("" : QString)])
  else if functionName = "print" then return (true, returned ++ [nodes.print n])
  else if functionName = "rename" ∧ nodes.renameable n ∧ arg.length = 1 then
    return (true, returned ++ [("" : QString)])
  else if functionName = "help" then return (true, returned ++ [nodes.helpString n])
  else return (false, returned)

/-- A call which succeeds has handed something to the callback. -/
theorem JSonNodes.call_returned {Node : Type} {nodes : JSonNodes Node} {n : Node}
    {functionName : QString} {arg returned : QStringList}
    (called : nodes.call n functionName arg = some (true, returned)) : returned ≠ [] := by
  rw [call] at called
  obtain ⟨⟨done, texts⟩, -, result⟩ := Option.bind_eq_some_iff.mp called
  dsimp only at result
  split_ifs at result <;> cases result <;> exact List.concat_ne_nil _ _

inductive TelnetMode where
  | basic
  | network
  | eventsProcessor
  | application
  deriving DecidableEq, Repr

/-- The network and the event model. -/
structure Models (Node : Type) where
  nodes : JSonNodes Node
  network : JSonTree Node
  eventModel : JSonTree Node
  /-- What a model tells its listeners while it carries out a command. -/
  out : JSonTree Node → QString → QStringList
  network_call : network.call = nodes.call
  eventModel_call : eventModel.call = nodes.call

/-- `TelnetSocket::model`. -/
def Models.model {Node : Type} (m : Models Node) : TelnetMode → Option (JSonTree Node)
  | .basic => none
  | .network => some m.network
  | .eventsProcessor => some m.eventModel
  | .application => none

theorem Models.model_call {Node : Type} {m : Models Node} {mode : TelnetMode} {tree : JSonTree Node}
    (selected : m.model mode = some tree) : tree.call = m.nodes.call := by
  cases mode with
  | basic | application => cases selected
  | network =>
      cases selected
      exact m.network_call
  | eventsProcessor =>
      cases selected
      exact m.eventModel_call

/-! ## The session -/

/-- What goes out to the client. -/
inductive Output where
  | text (data : QString)
  /-- The options of a change to or from the friendly command line. -/
  | negotiate (friendly : Bool)

/-- The state of a `TelnetSocket`. -/
structure TelnetSession where
  mode : TelnetMode := .basic
  friendly : Bool := false
  verbose : Bool := false
  locked : Bool := true
  currentLine : QString := []
  linePos : Int := 0
  written : List Output := []

namespace TelnetSession

def telnetWrite (s : TelnetSession) (data : QString) : TelnetSession :=
  { s with written := s.written ++ [.text data] }

def spaces (n : Nat) : QString := List.replicate n ' '

/-- `updateCLI`, with `eraseLine(false)` and the way back to the cursor. -/
def updateCLI (s : TelnetSession) : TelnetSession :=
  let s := s.telnetWrite (("\r" : QString) ++ spaces s.currentLine.length ++ ("  \r>" : QString))
  let s := s.telnetWrite s.currentLine
  (List.replicate (s.currentLine.length - s.linePos).toNat ("\x1B[D" : QString)).foldl telnetWrite s

def lockInput (s : TelnetSession) : TelnetSession := { s with locked := true }

def releaseInput (s : TelnetSession) : TelnetSession :=
  if !s.locked then s
  else { (if s.friendly then s.telnetWrite ">" else s) with locked := false }

def send (s : TelnetSession) (str : QString) (release : Bool) : TelnetSession :=
  if str.isEmpty then if release then s.releaseInput else s
  else
    let s :=
      if s.friendly then
        s.telnetWrite (("\r" : QString) ++ spaces s.currentLine.length ++ ("  \r" : QString))
      else s
    let s := s.telnetWrite (str ++ ("\n" : QString))
    if !s.locked then if s.friendly then (s.telnetWrite ">").updateCLI else s
    else if release then s.releaseInput
    else s

def modeName : TelnetMode → QString
  | .basic => "#-1: Basic"
  | .network => "#0: Network"
  | .eventsProcessor => "#1: Event Processor"
  | .application => "#2: Application"

/-- A verbose session listens to the model of its mode. -/
def switchMode (s : TelnetSession) (m : TelnetMode) : TelnetSession :=
  (({ s with mode := m }).send (modeName m) false).releaseInput

def setFriendlyCLI (s : TelnetSession) (friendly : Bool) : TelnetSession :=
  if friendly = s.friendly then s
  else { s with written := s.written ++ [Output.negotiate friendly], friendly := friendly }.releaseInput

def setVerbose (s : TelnetSession) (verbose : Bool) : TelnetSession :=
  if verbose = s.verbose then s
  else
    (({ s with verbose := verbose }).send
      (if verbose then "#v: Verbose ON" else "#-v: Verbose OFF") false).releaseInput

/-- One effect of `dispatchCmd`. -/
def perform (s : TelnetSession) : TelnetSocket.Effect → TelnetSession
  | .send str release => s.send str release
  | .releaseInput => s.releaseInput

variable {Node : Type}

/-- What the model tells a verbose session comes before the answer. -/
def dispatch (m : Models Node) (fuel : Nat) (s : TelnetSession) (cmd : QString) :
    Option (Except Fault TelnetSession) :=
  let told := if s.verbose then (m.model s.mode).elim [] fun tree => m.out tree cmd else []
  (TelnetSocket.dispatchCmd (m.model s.mode) fuel cmd).map fun result =>
    (fun effects => (told.map (TelnetSocket.Effect.send · false) ++ effects).foldl perform s) <$>
      result

/-- The program ends with `#quit` and the connection with `#q`. -/
def cmdReceived (m : Models Node) (fuel : Nat) (s : TelnetSession) (cmd : QString) :
    Option (Except Fault TelnetSession) :=
  let s := s.lockInput
  if cmd = "#-1" then some (pure (s.switchMode .basic))
  else if cmd = "#0" then some (pure (s.switchMode .network))
  else if cmd = "#1" then some (pure (s.switchMode .eventsProcessor))
  else if cmd = "#2" then some (pure (s.switchMode .application))
  else if cmd = "#v" then some (pure (s.setVerbose true))
  else if cmd = "#-v" then some (pure (s.setVerbose false))
  else if cmd = "#friendly" then some (pure (s.setFriendlyCLI true))
  else if cmd = "#-friendly" then some (pure (s.setFriendlyCLI false))
  else if cmd = "#quit" then some (pure s)
  else if cmd = "#q" then some (pure s)
  else dispatch m fuel s cmd

/-! ## Who gives the input back -/

variable {s s' : TelnetSession} {m : Models Node} {fuel : Nat} {cmd : QString}

@[simp] theorem locked_telnetWrite (s : TelnetSession) (data : QString) :
    (s.telnetWrite data).locked = s.locked := rfl

@[simp] theorem locked_updateCLI (s : TelnetSession) : s.updateCLI.locked = s.locked := by
  have writes : ∀ (l : List QString) (s : TelnetSession), (l.foldl telnetWrite s).locked = s.locked := by
    intro l
    induction l with
    | nil => exact fun s => rfl
    | cons data rest ih => exact fun s => ih (s.telnetWrite data)
  exact writes _ _

@[simp] theorem locked_releaseInput (s : TelnetSession) : s.releaseInput.locked = false := by
  rw [releaseInput]
  split
  · rename_i unlocked
    simpa using unlocked
  · rfl

/-- A message gives the input back if it is told to. -/
@[simp] theorem locked_send (s : TelnetSession) (str : QString) (release : Bool) :
    (s.send str release).locked = (s.locked && !release) := by
  have written : ∀ t : TelnetSession, t.locked = s.locked →
      (if !t.locked then if t.friendly then (t.telnetWrite ">").updateCLI else t
        else if release then t.releaseInput else t).locked = (s.locked && !release) := by
    intro t same
    rw [← same]
    split_ifs <;> simp_all
  rw [send]
  by_cases empty : str.isEmpty
  · rw [if_pos empty]
    cases release <;> simp
  · rw [if_neg empty]
    refine written _ ?_
    split <;> rfl

theorem locked_setVerbose (locked : s.locked = true) (verbose : Bool) :
    (s.setVerbose verbose).locked = false ↔ verbose ≠ s.verbose := by
  rw [setVerbose]
  by_cases same : verbose = s.verbose
  · simp [same, locked]
  · rw [if_neg same]
    exact iff_of_true (locked_releaseInput _) same

theorem locked_setFriendlyCLI (locked : s.locked = true) (friendly : Bool) :
    (s.setFriendlyCLI friendly).locked = false ↔ friendly ≠ s.friendly := by
  rw [setFriendlyCLI]
  by_cases same : friendly = s.friendly
  · simp [same, locked]
  · rw [if_neg same]
    exact iff_of_true (locked_releaseInput _) same

/-- The effect gives the input back. -/
def Gives : TelnetSocket.Effect → Prop
  | .send _ release => release = true
  | .releaseInput => True

theorem locked_perform (s : TelnetSession) (effects : List TelnetSocket.Effect) :
    (effects.foldl perform s).locked = false ↔ s.locked = false ∨ ∃ e ∈ effects, Gives e := by
  induction effects generalizing s with
  | nil => simp
  | cons e rest ih =>
      rw [List.foldl_cons, ih]
      cases e with
      | send str release => cases release <;> simp [perform, Gives]
      | releaseInput => simp [perform, Gives]

/-- Whatever a request comes to, its answer gives the input back. -/
theorem answer_gives {tree : JSonTree Node} {nodes : JSonNodes Node} (calls : tree.call = nodes.call)
    {r : TelnetSocket.Request Node} {effects : List TelnetSocket.Effect}
    (answered : TelnetSocket.answer tree fuel r = some (.ok effects)) : ∃ e ∈ effects, Gives e := by
  cases r with
  | notFound address =>
      cases answered
      exact ⟨_, List.mem_singleton_self _, rfl⟩
  | call n function args =>
      obtain ⟨⟨success, returned⟩, called, result⟩ := Option.bind_eq_some_iff.mp answered
      cases result
      cases success with
      | false => exact ⟨_, List.mem_append_right _ (List.mem_singleton_self _), rfl⟩
      | true =>
          rw [calls] at called
          obtain ⟨text, member⟩ := List.exists_mem_of_ne_nil _ (JSonNodes.call_returned called)
          exact ⟨_, List.mem_append_left _ (List.mem_map_of_mem member), rfl⟩
  | set n address property value =>
      obtain ⟨result, -, answered⟩ := Option.bind_eq_some_iff.mp answered
      cases result <;> cases answered <;> exact ⟨_, List.mem_singleton_self _, by trivial⟩
  | get n address text =>
      obtain ⟨trimmed, -, answered⟩ := Option.bind_eq_some_iff.mp answered
      cases trimmed with
      | error fault => cases answered
      | ok name =>
          dsimp only at answered
          split at answered <;> cases answered <;> exact ⟨_, List.mem_singleton_self _, rfl⟩
  | nothing =>
      cases answered
      exact ⟨_, List.mem_singleton_self _, trivial⟩

/-- A command for the model gives the input back if there is a model. -/
theorem dispatch_locked (locked : s.locked = true)
    (returned : dispatch m fuel s cmd = some (.ok s')) :
    s'.locked = false ↔ m.model s.mode ≠ none := by
  obtain ⟨result, answered, done⟩ := Option.map_eq_some_iff.mp returned
  cases result with
  | error fault => cases done
  | ok effects =>
      cases done
      rw [locked_perform, locked]
      cases selected : m.model s.mode with
      | none =>
          rw [selected] at answered
          cases answered
          simp
      | some tree =>
          rw [selected] at answered
          obtain ⟨r, -, answered⟩ := Option.bind_eq_some_iff.mp answered
          obtain ⟨e, member, gives⟩ := answer_gives (Models.model_call selected) answered
          exact iff_of_true (.inr ⟨e, List.mem_append_right _ member, gives⟩) (by simp)

/-- The command changes the session, or there is a model to ask. -/
def Answers (s : TelnetSession) (cmd : QString) : Prop :=
  if cmd = "#v" then s.verbose = false
  else if cmd = "#-v" then s.verbose = true
  else if cmd = "#friendly" then s.friendly = false
  else if cmd = "#-friendly" then s.friendly = true
  else cmd ∈ ([("#-1" : QString), "#0", "#1", "#2"] : List QString) ∨
    s.mode = .network ∨ s.mode = .eventsProcessor

/-- A command which has returned has given the input back if and only if there was something
    to change or a model to ask. -/
theorem cmdReceived_unlocks_iff (returned : cmdReceived m fuel s cmd = some (.ok s'))
    (quit : cmd ≠ "#quit") (disconnect : cmd ≠ "#q") :
    s'.locked = false ↔ s.Answers cmd := by
  have modes : ∀ mode, m.model mode ≠ none ↔ mode = .network ∨ mode = .eventsProcessor := by
    intro mode
    cases mode <;> simp [Models.model]
  have switched : ∀ mode, (s.lockInput.switchMode mode).locked = false := fun _ =>
    locked_releaseInput _
  have verbose : ∀ v, (s.lockInput.setVerbose v).locked = false ↔ v ≠ s.verbose :=
    locked_setVerbose (s := s.lockInput) rfl
  have friendly : ∀ f, (s.lockInput.setFriendlyCLI f).locked = false ↔ f ≠ s.friendly :=
    locked_setFriendlyCLI (s := s.lockInput) rfl
  rw [cmdReceived] at returned
  rw [Answers]
  split_ifs at returned with h₁ h₂ h₃ h₄ h₅ h₆ h₇ h₈
  · cases returned
    subst h₁
    exact iff_of_true (switched _) (.inl (by decide))
  · cases returned
    subst h₂
    exact iff_of_true (switched _) (.inl (by decide))
  · cases returned
    subst h₃
    exact iff_of_true (switched _) (.inl (by decide))
  · cases returned
    subst h₄
    exact iff_of_true (switched _) (.inl (by decide))
  · cases returned
    subst h₅
    rw [verbose, if_pos rfl]
    simp
  · cases returned
    subst h₆
    rw [verbose, if_neg h₅, if_pos rfl]
    simp
  · cases returned
    subst h₇
    rw [friendly, if_neg h₅, if_neg h₆, if_pos rfl]
    simp
  · cases returned
    subst h₈
    rw [friendly, if_neg h₅, if_neg h₆, if_neg h₇, if_pos rfl]
    simp
  · rw [dispatch_locked rfl returned, modes]
    simp [h₁, h₂, h₃, h₄, h₅, h₆, h₇, h₈, lockInput]

/-- Models which have only the list of remotes. -/
def remotesModels : Models Bool :=
  let nodes : JSonNodes Bool :=
    ⟨fun _ _ _ => some (false, []), fun _ => "", fun _ => "", fun _ => false⟩
  let tree : JSonTree Bool := { TelnetSocket.remotesTree with call := nodes.call }
  ⟨nodes, tree, tree, fun _ _ => [], rfl, rfl⟩

/-- A function which does not exist. -/
theorem cmdReceived_unlocks_call :
    ∃ s', cmdReceived remotesModels 5 { mode := .network } "f()" = some (.ok s') ∧
      (s'.locked = false ↔ ({ mode := .network } : TelnetSession).Answers "f()") :=
  ⟨_, rfl, @cmdReceived_unlocks_iff _ _ _ remotesModels 5 _ rfl (by decide) (by decide)⟩

/-- A verbose session which is told to be verbose, and a command before a model is selected. -/
theorem cmdReceived_stays_locked :
    (∃ s', cmdReceived remotesModels 0 { verbose := true } "#v" = some (.ok s') ∧
        s'.locked = true) ∧
      ∃ s', cmdReceived remotesModels 0 {} "print()" = some (.ok s') ∧ s'.locked = true :=
  ⟨⟨_, rfl, rfl⟩, _, rfl, rfl⟩

end TelnetSession

end VoxPopuli
