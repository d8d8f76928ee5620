import VoxPopuli.Lib.Ends
import VoxPopuli.Lib.SortedMap
import VoxPopuli.Misc

/-! # The help of a node

`getHelp` makes the help of a node when it is asked for: one map for the functions and one for
the variables. Each class lists its entries with the map they go to. The emulated remote lists
two of its variables as functions, and lists them when the variables are asked for.
-/

namespace VoxPopuli

/-- The classes of nodes; a virtual remote belongs to a group or to none. -/
inductive NodeKind where
  | networkModel
  | remoteList
  | realRemote
  | emulatedRemote
  | patch
  | eventModel
  | virtualNetwork
  | virtualRemote
  | groupRemote
  | virtualGroup
  | event
  | oscInterface
  | midiInterface
  | midiPort
  deriving DecidableEq, Repr

namespace NodeKind

/-- `_flags & RENAMEABLE`. -/
def renameable : NodeKind → Bool
  | realRemote | emulatedRemote | virtualRemote | virtualGroup | midiPort => true
  | networkModel | remoteList | patch | eventModel | virtualNetwork | groupRemote | event
  | oscInterface | midiInterface => false

/-- `Remote::generateHelp`: the names, and whether they are listed as functions. -/
def remoteHelp (function : Bool) : List (QString × Bool) :=
  if function then [("LED( intensity )", true)]
  else
    [("State", false), ("Up", false), ("Down", false), ("Left", false), ("Right", false),
      ("Action", false), ("LED1", false), ("LED2", false), ("LED3", false)]

/-- What is the same for all virtual remotes. -/
def virtualRemoteHelp (function : Bool) : List (QString × Bool) :=
  if function then []
  else
    [("Up", false), ("Down", false), ("Left", false), ("Right", false), ("Action", false),
      ("LED", false), ("State", false)]

/-- `generateHelp`: the calls of `addHelp` with the name and the last argument. -/
def generateHelp (function : Bool) : NodeKind → List (QString × Bool)
  | networkModel =>
      if function then [("sendAT( atCmd )", true), ("listPort()", true), ("scan()", true)]
      else [("USBPort", false), ("Remotes", false), ("Patch", false)]
  | remoteList =>
      if function then
        [("list()", true), ("emulateRemote( name, osc )", true),
          ("removeEmulatedRemote( name )", true)]
      else []
  | realRemote =>
      let own : List (QString × Bool) :=
        if function then
          [("sendAT( atCmd )", true), ("sendTX( cmd )", true), ("sendTXHex( cmd )", true)]
        else [("MAC", false), ("SignalStrength", false), ("Battery", false)]
      own ++ remoteHelp function
  | emulatedRemote =>
      let own : List (QString × Bool) :=
        if function then [] else [("osc", true), ("ipPort", true)]
      own ++ remoteHelp function
  | patch =>
      if function then
        [("connect( remote, virtual )", true), ("disconnect( remote, virtual )", true),
          ("disconnectRemote( remote )", true), ("disconnectVirtual( virtual )", true),
          ("disconnectVirtualRemote( virtualRemote )", true),
          ("disconnectVirtualGroup( virtualGroup )", true)]
      else []
  | eventModel =>
      if function then [] else [("Midi", false), ("OSC", false), ("VirtualNet", false)]
  | virtualNetwork =>
      if function then
        [("addRemote( name )", true), ("removeRemote( name )", true), ("addGroup( name )", true),
          ("removeGroup( name )", true), ("autoGenerateRemote()", true)]
      else [("GlobalRemote", false)]
  | virtualRemote => virtualRemoteHelp function
  | groupRemote =>
      let own : List (QString × Bool) := if function then [] else [("remoteID", false)]
      virtualRemoteHelp function ++ own
  | virtualGroup =>
      if function then [("listSlaves()", true)]
      else [("slavesNbr", false), ("avatarsNbr", false), ("GlobalRemote", false)]
  | event =>
      if function then [("add( event, trigger )", true), ("remove( event, trigger )", true)]
      else [("any", false)]
  | oscInterface =>
      if function then
        [("sendTo( ip, port, oscAddr, args ... )", true),
          ("sendToAll( port, oscAddr, args ... )", true)]
      else [("address", false), ("port", false)]
  | midiInterface =>
      if function then
        [("listPort()", true), ("open( name, \"in\"/\"out\", portName )", true),
          ("close( portName )", true)]
      else []
  | midiPort =>
      if function then [("portName()", true), ("send( msg )", true)] else [("port", false)]

/-- What `getHelp` adds to the functions of every class. -/
def commonHelp (kind : NodeKind) : QStringList :=
  ["print()", "help()"] ++ if kind.renameable then ["rename( string )"] else []

end NodeKind

/-- The names in a map of `addHelp`. -/
abbrev HelpMap := SortedMap QString Unit

/-- `_helpFunction` and `_helpVariables` of a node. -/
structure Help where
  helpFunction : Option HelpMap := none
  helpVariables : Option HelpMap := none

namespace Help

def addHelp (h : Help) (name : QString) (function : Bool) : Except Fault Help :=
  if function then
    match h.helpFunction with
    | none => throw .nullPointer
    | some names => pure { h with helpFunction := some (names.insert name ()) }
  else
    match h.helpVariables with
    | none => throw .nullPointer
    | some names => pure { h with helpVariables := some (names.insert name ()) }

def generateHelp (h : Help) (kind : NodeKind) (function : Bool) : Except Fault Help :=
  (kind.generateHelp function).foldlM (fun h c => h.addHelp c.1 c.2) h

/-- `getHelp(true)`, with the names it gives. -/
def getFunctions (h : Help) (kind : NodeKind) : Except Fault (HelpMap × Help) :=
  match h.helpFunction with
  | some names => pure (names, h)
  | none => do
      let h ← { h with helpFunction := some ∅ }.generateHelp kind true
      let h ← kind.commonHelp.foldlM (fun h name => h.addHelp name true) h
      match h.helpFunction with
      | some names => pure (names, h)
      | none => throw .nullPointer

/-- `getHelp(false)`. -/
def getVariables (h : Help) (kind : NodeKind) : Except Fault Help :=
  match h.helpVariables with
  | some _ => pure h
  | none => { h with helpVariables := some ∅ }.generateHelp kind false

/-- The help which `helpString` asks for, the functions first. -/
def helpString (h : Help) (kind : NodeKind) : Except Fault Help := do
  let (_, h) ← h.getFunctions kind
  h.getVariables kind

/-! ## What is listed as a function -/

/-- The functions which `getHelp(true)` lists. -/
def Listed (kind : NodeKind) (name : QString) : Prop :=
  (name, true) ∈ kind.generateHelp true ∨ name ∈ kind.commonHelp

/-- The variables come after the functions, and what they list as functions is there, too. -/
structure Made (h : Help) (kind : NodeKind) : Prop where
  order : h.helpFunction = none → h.helpVariables = none
  functions : ∀ names, h.helpFunction = some names → ∀ name, name ∈ names.keys ↔
    Listed kind name ∨ (h.helpVariables ≠ none ∧ (name, true) ∈ kind.generateHelp false)

theorem mem_keys_insert {names : HelpMap} {name name' : QString} :
    name' ∈ (names.insert name ()).keys ↔ name' = name ∨ name' ∈ names.keys := by
  rw [SortedMap.mem_keys, SortedMap.mem_keys]
  by_cases same : name' = name
  · subst same
    simp
  · simp [same]

/-- Calls of `addHelp` for the functions and for a map of variables which is there. -/
theorem addHelp_ends {h : Help} {names : HelpMap} (there : h.helpFunction = some names)
    (calls : List (QString × Bool)) (made : h.helpVariables ≠ none ∨ ∀ c ∈ calls, c.2 = true) :
    Ends (fun _ => False) (calls.foldlM (fun h c => h.addHelp c.1 c.2) h) fun h' =>
      (h'.helpVariables = none ↔ h.helpVariables = none) ∧ ∃ names', h'.helpFunction = some names' ∧
        ∀ name, name ∈ names'.keys ↔ name ∈ names.keys ∨ (name, true) ∈ calls := by
  induction calls generalizing h names with
  | nil => exact ⟨Iff.rfl, names, there, by simp⟩
  | cons c rest ih =>
      obtain ⟨name, function⟩ := c
      rw [List.foldlM_cons]
      cases function with
      | true =>
          have first : h.addHelp name true =
              .ok { h with helpFunction := some (names.insert name ()) } := by
            simp [addHelp, there, pure, Except.pure]
          rw [first]
          have later := ih (h := { h with helpFunction := some (names.insert name ()) }) rfl
            (made.imp_right fun all c member => all c (List.mem_cons_of_mem _ member))
          refine later.mono fun h' ⟨untouched, names', function, keys⟩ =>
            ⟨untouched, names', function, fun name' => ?_⟩
          rw [keys, mem_keys_insert]
          simp only [List.mem_cons, Prod.mk.injEq, and_true]
          tauto
      | false =>
          have filled : h.helpVariables ≠ none := by
            rcases made with there | all
            · exact there
            · exact absurd (all _ List.mem_cons_self) (by simp)
          obtain ⟨own, found⟩ := Option.ne_none_iff_exists'.mp filled
          have first : h.addHelp name false =
              .ok { h with helpVariables := some (own.insert name ()) } := by
            simp [addHelp, found, pure, Except.pure]
          rw [first]
          have later := ih (h := { h with helpVariables := some (own.insert name ()) }) there
            (.inl (by simp))
          refine later.mono fun h' ⟨kept, names', function, keys⟩ =>
            ⟨by simpa [filled] using kept, names', function, fun name' => ?_⟩
          rw [keys]
          simp

theorem made_new (kind : NodeKind) : ({} : Help).Made kind := ⟨fun _ => rfl, nofun⟩

/-- `getHelp(true)` makes the functions once, whatever happens to the variables. -/
theorem getFunctions_ends {h : Help} {kind : NodeKind} (made : h.Made kind) :
    Ends (fun _ => False) (h.getFunctions kind) fun q => q.2.Made kind ∧
      q.2.helpFunction = some q.1 ∧ (q.2.helpVariables = none ↔ h.helpVariables = none) := by
  unfold getFunctions
  cases there : h.helpFunction with
  | some names => exact ⟨made, there, Iff.rfl⟩
  | none =>
      have unasked := made.order there
      have functions : ∀ c ∈ kind.generateHelp true, c.2 = true := by cases kind <;> decide
      have own := addHelp_ends (h := { h with helpFunction := some ∅ }) rfl
        (kind.generateHelp true) (.inr functions)
      apply own.bind
      rintro h₁ ⟨untouched₁, names₁, there₁, keys₁⟩
      have common := addHelp_ends there₁ (kind.commonHelp.map fun name => (name, true))
        (.inr (by simp))
      rw [List.foldlM_map] at common
      apply common.bind
      rintro h₂ ⟨untouched₂, names₂, there₂, keys₂⟩
      have untouched : h₂.helpVariables = none ↔ h.helpVariables = none :=
        untouched₂.trans untouched₁
      have none₂ := untouched.mpr unasked
      rw [there₂]
      refine ⟨⟨fun _ => none₂, fun names same name => ?_⟩, there₂, untouched⟩
      cases there₂.symm.trans same
      rw [keys₂, keys₁, none₂, Listed]
      simp [SortedMap.mem_keys]

/-- `getHelp(false)` after `getHelp(true)`. -/
theorem getVariables_ends {h : Help} {kind : NodeKind} (made : h.Made kind)
    (asked : h.helpFunction ≠ none) :
    Ends (fun _ => False) (h.getVariables kind) fun h' =>
      h'.Made kind ∧ h'.helpVariables ≠ none := by
  unfold getVariables
  cases unasked : h.helpVariables with
  | some names => exact ⟨made, by simp [unasked]⟩
  | none =>
      obtain ⟨names, there⟩ := Option.ne_none_iff_exists'.mp asked
      have own := addHelp_ends (h := { h with helpVariables := some ∅ }) there
        (kind.generateHelp false) (.inl (by simp))
      refine own.mono fun h' ⟨kept, names', there', keys⟩ => ?_
      have filled : h'.helpVariables ≠ none := fun empty => by simpa using kept.mp empty
      refine ⟨⟨fun empty => ?_, fun names₁ same name => ?_⟩, filled⟩
      · rw [there'] at empty
        cases empty
      · cases there'.symm.trans same
        have before := made.functions names there name
        rw [unasked] at before
        rw [keys, before]
        simp [filled]

/-- The help can be shown at any time. -/
theorem helpString_ends {h : Help} {kind : NodeKind} (made : h.Made kind) :
    Ends (fun _ => False) (h.helpString kind) fun h' =>
      h'.Made kind ∧ h'.helpVariables ≠ none := by
  apply (getFunctions_ends made).bind
  rintro ⟨names, h₁⟩ ⟨made₁, there, -⟩
  exact getVariables_ends made₁ (by rw [there]; simp)

/-- A function which a class lists has a bracket. -/
theorem Listed.bracket {kind : NodeKind} {name : QString} (listed : Listed kind name) :
    ('(' : QChar) ∈ name := by
  have own : ∀ c ∈ kind.generateHelp true, ('(' : QChar) ∈ c.1 := by cases kind <;> decide
  have common : ∀ name ∈ kind.commonHelp, ('(' : QChar) ∈ name := by cases kind <;> decide
  rcases listed with function | function
  · exact own _ function
  · exact common _ function

/-- Only the emulated remote lists variables as functions. -/
theorem misplaced_iff {kind : NodeKind} {name : QString} :
    (name, true) ∈ kind.generateHelp false ↔
      kind = .emulatedRemote ∧ (name = "osc" ∨ name = "ipPort") := by
  cases kind <;>
    simp [NodeKind.generateHelp, NodeKind.remoteHelp, NodeKind.virtualRemoteHelp]

end Help

end VoxPopuli
