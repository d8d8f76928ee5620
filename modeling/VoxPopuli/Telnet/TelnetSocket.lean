import VoxPopuli.Lib.While
import VoxPopuli.Misc

/-! # The command line of a telnet session

`TelnetSocket`: how a line is cut into the address of a node and a call, an
assignment or a reading, and what is sent back. The selected model is seen through
the operations which the session uses. Loops over the text are loops here, with
fuel; a run which does not end is `none` for every amount of it.
-/

namespace VoxPopuli

/-- A JSON model as the session sees it. An operation of a node may not return. -/
structure JSonTree (Node : Type) where
  name : QString
  root : Node
  nodeAt : Node → QString → Option Node
  /-- The result of a call and the texts it hands to the callback. -/
  call : Node → QString → QStringList → Option (Bool × QStringList)
  set : Node → QString → QString → Option SetError
  getToString : Node → QString → Option QString
  /-- The nodes below the root have names. -/
  root_named : nodeAt root "" = none

namespace JSonTree

variable {Node : Type}

def nodeByAddress (m : JSonTree Node) (address : QString) : Option Node :=
  if address.isEmpty then some m.root
  else (address.splitOn ('.' : QChar)).foldlM m.nodeAt m.root

end JSonTree

namespace TelnetSocket

variable {Node : Type}

/-! ## Arguments -/

/-- A turn of `while(size > 0 && p(at(0))) remove(0, 1)`. -/
def leadingTurn (p : QChar → Bool) : QString → QString ⊕ QString
  | [] => .inr []
  | c :: rest => if p c then .inl rest else .inr (c :: rest)

/-- A turn of `while(size > 0 && p(at(size - 1))) remove(size - 1, 1)`. -/
def trailingTurn (p : QChar → Bool) (s : QString) : QString ⊕ QString :=
  match s.getLast? with
  | none => .inr s
  | some c => if p c then .inl s.dropLast else .inr s

def isBlank (c : QChar) : Bool := c = ' ' ∨ c = '\t'

/-- The loop of `splitArgs`: `c` is the argument in progress. -/
def tokens (comaSplit : Bool) : QString → QString → Bool → QStringList
  | [], c, _ => if c.isEmpty then [] else [c]
  | x :: rest, c, quoted =>
      if x = '\\' then
        match rest with
        | [] => if c.isEmpty then [] else [c]
        | y :: rest => tokens comaSplit rest (c ++ [y]) quoted
      else if x = '"' then
        if quoted then c :: tokens comaSplit rest [] false
        else tokens comaSplit rest c true
      else if !quoted ∧ (isBlank x ∨ (comaSplit ∧ x = ',')) then
        if c.isEmpty then tokens comaSplit rest [] quoted
        else c :: tokens comaSplit rest [] quoted
      else tokens comaSplit rest (c ++ [x]) quoted

def splitArgs (fuel : Nat) (args : QString) (comaSplit : Bool) : Option QStringList := do
  let args ← While.run (leadingTurn isBlank) fuel args
  let args ← While.run (trailingTurn isBlank) fuel args
  return tokens comaSplit args [] false

/-! ## Dispatch -/

/-- What a command asks of the model. -/
inductive Request (Node : Type) where
  | notFound (address : QString)
  | call (n : Node) (function : QString) (args : QStringList)
  | set (n : Node) (address property value : QString)
  | get (n : Node) (address cmd : QString)
  | nothing

/-- What `dispatchCmd` reads from a command behind its address. -/
def requestAt (fuel : Nat) (n : Node) (address cmd : QString) : Option (Request Node) :=
  if ('(' : QChar) ∈ cmd then
    let function := cmd.left (cmd.indexOf '(')
    let cmd := cmd.left (cmd.indexOf ')')
    (splitArgs fuel (cmd.mid (cmd.indexOf '(' + 1)) true).map fun args => .call n function args
  else if (':' : QChar) ∈ cmd then
    let property := cmd.left (cmd.indexOf ':')
    (While.run (leadingTurn (· = ' ')) fuel (cmd.mid (property.length + 1))).map fun value =>
      .set n address property value
  else if (cmd.splitSkipEmpty ' ').length = 1 then some (.get n address cmd)
  else some .nothing

/-- The text before the last dot, empty when there is none. -/
def addressIn (cmd : QString) : QString :=
  if ('.' : QChar) ∈ cmd then cmd.left (cmd.lastIndexOf '.') else []

/-- The text behind the address and the dot. -/
def behindAddress (cmd : QString) : QString :=
  cmd.mid ((addressIn cmd).length + if (addressIn cmd).length ≠ 0 then 1 else 0)

/-- The first half of `dispatchCmd`, up to the operation it starts. -/
def request (m : JSonTree Node) (fuel : Nat) (cmd : QString) : Option (Request Node) :=
  match m.nodeByAddress (addressIn cmd) with
  | none => some (.notFound (addressIn cmd))
  | some n => requestAt fuel n (addressIn cmd) (behindAddress cmd)

/-- What the session does to its client and its own input. -/
inductive Effect where
  | send (str : QString) (release : Bool)
  | releaseInput

/-- `remove` with one argument takes it as a character and deletes all of them. -/
def removeChar (s : QString) (c : QChar) : QString := s.filter (· ≠ c)

/-- A turn of the loop which trims the name of a variable. -/
def getTurn (cmd : QString) : QString ⊕ Except Fault QString :=
  match cmd.getLast? with
  | none => .inr (.error .outOfRange)
  | some c =>
      if c = ' ' then .inl (removeChar cmd (Fin.ofNat 65536 (cmd.length - 1))) else .inr (.ok cmd)

/-- The address of a variable in a message. -/
def qualified (address name : QString) : QString :=
  address ++ (if address.isEmpty then ([] : QString) else ".") ++ name

/-- The second half of `dispatchCmd`. -/
def answer (m : JSonTree Node) (fuel : Nat) : Request Node → Option (Except Fault (List Effect))
  | .notFound address =>
      some (.ok [.send (("#Error: " : QString) ++ address ++ (" not found in " : QString) ++ m.name)
        true])
  | .call n function args => do
      let (success, returned) ← m.call n function args
      return .ok (returned.map (.send · true) ++
        if success then [] else
          [.send (("#Error: " : QString) ++ function ++ (" doesn't exist." : QString)) true])
  | .set n address property value => do
      match ← m.set n property value with
      | .sameValue | .noError => return .ok [.releaseInput]
      | .doesNotExist =>
          return .ok [.send (("#Error: " : QString) ++ property ++
            (" is not a member of " : QString) ++ address) true]
      | .readOnly =>
          return .ok [.send (("#Error: " : QString) ++ property ++ (" is read only" : QString)) true]
      | .wrongArg => return .ok [.send "#Error: wrong value" true]
  | .get n address cmd => do
      match ← While.run getTurn fuel cmd with
      | .error fault => return .error fault
      | .ok cmd =>
          match m.getToString n cmd with
          | none =>
              return .ok [.send (("#Error: " : QString) ++ qualified address cmd ++
                (" doesn't exist." : QString)) true]
          | some data =>
              return .ok [.send (qualified address cmd ++ (": " : QString) ++ data) true]
  | .nothing => some (.ok [.releaseInput])

/-- Nothing happens as long as no model is selected. -/
def dispatchCmd (m? : Option (JSonTree Node)) (fuel : Nat) (cmd : QString) :
    Option (Except Fault (List Effect)) :=
  match m? with
  | none => some (.ok [])
  | some m => (request m fuel cmd).bind (answer m fuel)

/-! ## The loops which delete by position -/

theorem run_leadingTurn (p : QChar → Bool) (s : QString) {fuel : Nat} (enough : s.length < fuel) :
    While.run (leadingTurn p) fuel s = some (s.dropWhile p) := by
  apply While.run_eq_some List.length ?_ ?_ s enough
  · intro s r leaves
    cases s with
    | nil => simpa [leadingTurn] using leaves.symm
    | cons c rest =>
        cases here : p c with
        | true => simp [leadingTurn, here] at leaves
        | false => simpa [leadingTurn, here] using leaves.symm
  · intro s s' goesOn
    cases s with
    | nil => simp [leadingTurn] at goesOn
    | cons c rest =>
        cases here : p c with
        | true =>
            obtain rfl : rest = s' := by simpa [leadingTurn, here] using goesOn
            simp [here]
        | false => simp [leadingTurn, here] at goesOn

theorem run_leadingTurn_eq_some {p : QChar → Bool} {s r : QString} {fuel : Nat}
    (h : While.run (leadingTurn p) fuel s = some r) : r = s.dropWhile p := by
  have enough := While.run_mono h (le_max_left fuel (s.length + 1))
  rw [run_leadingTurn p s (lt_max_of_lt_right (Nat.lt_succ_self _)), Option.some.injEq] at enough
  exact enough.symm

theorem run_trailingTurn (p : QChar → Bool) (s : QString) {fuel : Nat}
    (enough : s.length < fuel) :
    While.run (trailingTurn p) fuel s = some (s.rdropWhile p) := by
  apply While.run_eq_some List.length ?_ ?_ s enough
  · intro s r leaves
    induction s using List.reverseRecOn with
    | nil => simpa [trailingTurn] using leaves.symm
    | append_singleton s c =>
        cases here : p c with
        | true => simp [trailingTurn, here] at leaves
        | false => simpa [trailingTurn, here, List.rdropWhile_concat] using leaves.symm
  · intro s s' goesOn
    induction s using List.reverseRecOn with
    | nil => simp [trailingTurn] at goesOn
    | append_singleton s c =>
        cases here : p c with
        | true =>
            obtain rfl : s = s' := by simpa [trailingTurn, here] using goesOn
            simp [here]
        | false => simp [trailingTurn, here] at goesOn

theorem run_trailingTurn_eq_some {p : QChar → Bool} {s r : QString} {fuel : Nat}
    (h : While.run (trailingTurn p) fuel s = some r) : r = s.rdropWhile p := by
  have enough := While.run_mono h (le_max_left fuel (s.length + 1))
  rw [run_trailingTurn p s (lt_max_of_lt_right (Nat.lt_succ_self _)), Option.some.injEq] at enough
  exact enough.symm

theorem splitArgs_eq (args : QString) (comaSplit : Bool) {fuel : Nat}
    (enough : args.length < fuel) :
    splitArgs fuel args comaSplit =
      some (tokens comaSplit ((args.dropWhile isBlank).rdropWhile isBlank) [] false) := by
  have shorter : (args.dropWhile isBlank).length < fuel :=
    (List.dropWhile_suffix isBlank).length_le.trans_lt enough
  simp [splitArgs, run_leadingTurn isBlank args enough, run_trailingTurn isBlank _ shorter]

theorem splitArgs_eq_some {args : QString} {comaSplit : Bool} {fuel : Nat} {r : QStringList}
    (h : splitArgs fuel args comaSplit = some r) :
    r = tokens comaSplit ((args.dropWhile isBlank).rdropWhile isBlank) [] false := by
  simp only [splitArgs, Option.bind_eq_bind, Option.bind_eq_some_iff, Option.pure_def,
    Option.some.injEq] at h
  obtain ⟨front, leading, back, trailing, rfl⟩ := h
  rw [run_trailingTurn_eq_some trailing, run_leadingTurn_eq_some leading]

/-- A model with one node, the list of remotes. -/
def remotesTree : JSonTree Bool where
  name := "network"
  root := false
  nodeAt n name := if n = false ∧ name = ("Remotes" : QString) then some true else none
  call _ _ _ := some (true, [])
  set _ _ _ := some .doesNotExist
  getToString _ _ := none
  root_named := by decide

end TelnetSocket

end VoxPopuli
