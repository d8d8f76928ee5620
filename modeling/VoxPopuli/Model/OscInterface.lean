import VoxPopuli.Model.EventTrigger
import VoxPopuli.HexData

/-! # The OSC functions of the command line

`sendTo` and `sendToAll` make an OSC message of the rest of their arguments. An argument is
meant to become a number, a truth value or a text; but a comparison which gives 0 for equal
texts is taken for the answer, so whatever is no number becomes a truth value, and "true"
becomes false.
-/

namespace VoxPopuli

namespace OscInterface

variable {δ : Type}

/-- A `QVariant` in the list of arguments. The doubles are those which `toDouble` gives. -/
inductive OscValue (δ : Type) where
  | double (a : δ)
  | bool (b : Bool)
  | string (s : QString)
  deriving DecidableEq, Repr

/-- What the function calls. -/
inductive Effect (δ : Type) where
  | returnCb (text : QString)
  /-- `qosc::sendMsg` for one address. -/
  | sendMsg (ip : QString) (port : Int) (osc : QString) (l : List (OscValue δ))
  /-- `qosc::sendMsg` for every address. -/
  | sendMsgToAll (port : Int) (osc : QString) (l : List (OscValue δ))
  deriving DecidableEq, Repr

/-- The element which the loop appends for an argument. `compare` is 0 for equal texts. -/
def argument (toDouble : QString → Option δ) (arg : QString) : OscValue δ :=
  match toDouble arg with
  | some a => .double a
  | none =>
      if !arg.sameIgnoringCase "true" then .bool true
      else if !arg.sameIgnoringCase "false" then .bool false
      else .string arg

/-- The loop from an index on. -/
def arguments (toDouble : QString → Option δ) (args : QStringList) (first : Nat) :
    List (OscValue δ) :=
  (List.range' first (args.length - first)).foldl
    (fun l i => l ++ [argument toDouble (args.getD i [])]) []

/-- `execFunction`: what is returned and the calls which are made. `isAddress` is what
    `qosc::sendMsg` answers for the address. -/
def execFunction (toDouble : QString → Option δ) (isAddress : QString → Bool) (function : QString)
    (args : QStringList) : Bool × List (Effect δ) :=
  if function = "sendTo" ∨ function = "sendToAll" then
    let all : Nat := if function = "sendToAll" then 1 else 0
    if args.length < 3 - all then (true, [.returnCb "#Error: Wrong argument number"])
    else
      match (args.getD (1 - all) []).toInt? with
      | none => (true, [.returnCb "#Error: second argument shoud be a port"])
      | some port =>
          let osc := args.getD (2 - all) []
          let l := arguments toDouble args (3 - all)
          if all = 1 then (true, [.sendMsgToAll port osc l])
          else
            let ip := args.getD 0 []
            (true, .sendMsg ip port osc l ::
              if isAddress ip then []
              else [.returnCb (("#Error: \"" : QString) ++ ip ++
                ("\" is not a valid network address" : QString))])
  else (false, [])

/-- An argument of the OSC message. -/
inductive OscArgument (δ : Type) where
  | double (a : δ)
  | bool (b : Bool)
  /-- Text up to its first zero. -/
  | string (s : StdString)

/-- `sendToOscStream`. -/
def sendToOscStream : OscValue δ → OscArgument δ
  | .double a => .double a
  | .bool b => .bool b
  | .string s => .string (s.toStdString.takeWhile (· ≠ 0))

/-! ## What is meant -/

/-- The number an argument stands for, else its truth value, else the text itself. -/
def meant (toDouble : QString → Option δ) (arg : QString) : OscValue δ :=
  match toDouble arg with
  | some a => .double a
  | none =>
      if arg.sameIgnoringCase "true" then .bool true
      else if arg.sameIgnoringCase "false" then .bool false
      else .string arg

/-- The arguments before the ones of the message. -/
def required (function : QString) : Nat := if function = "sendToAll" then 2 else 3

/-- The list of arguments which a run hands over for sending. -/
def Effect.sent : List (Effect δ) → Option (List (OscValue δ))
  | .sendMsg _ _ _ l :: _ | .sendMsgToAll _ _ l :: _ => some l
  | _ => none

/-! ## The list -/

variable {toDouble : QString → Option δ}

theorem arguments_eq (args : QStringList) (first : Nat) :
    arguments toDouble args first = (args.drop first).map (argument toDouble) := by
  have appended : ∀ (indices : List Nat) (l : List (OscValue δ)),
      indices.foldl (fun l i => l ++ [argument toDouble (args.getD i [])]) l =
        l ++ indices.map fun i => argument toDouble (args.getD i []) := by
    intro indices
    induction indices with
    | nil => simp
    | cons i indices ih =>
        intro l
        rw [List.foldl_cons, ih, List.map_cons, List.append_assoc]
        rfl
  rw [arguments, appended, List.nil_append]
  apply List.ext_getElem
  · simp
  · intro i low high
    simp only [List.length_map, List.length_range'] at low
    have inside : first + i < args.length := by omega
    simp [List.getElem?_eq_getElem inside]

/-- Text which is no number never gets past the second comparison. -/
theorem argument_of_text {arg : QString} (text : toDouble arg = none) :
    argument toDouble arg = .bool (!arg.sameIgnoringCase "true") := by
  have differ : ("true" : QString).map QChar.foldCase ≠ ("false" : QString).map QChar.foldCase := by
    decide
  simp only [argument, text, QString.sameIgnoringCase]
  by_cases yes : arg.map QChar.foldCase = ("true" : QString).map QChar.foldCase
  · simp [yes, differ]
  · simp [yes]

theorem argument_eq_meant_iff (arg : QString) :
    argument toDouble arg = meant toDouble arg ↔ (toDouble arg).isSome := by
  cases number : toDouble arg with
  | some a => simp [argument, meant, number]
  | none =>
      rw [argument_of_text number]
      simp only [meant, number, Option.isSome_none, Bool.false_eq_true, iff_false]
      split_ifs with yes no
      · simp [yes]
      · simp [yes]
      · simp

theorem sent_execFunction (isAddress : QString → Bool) {function : QString} {args : QStringList}
    (sends : function = "sendTo" ∨ function = "sendToAll")
    (enough : required function ≤ args.length)
    (port : (args.getD (required function - 2) []).toInt?.isSome) :
    Effect.sent (execFunction toDouble isAddress function args).2 =
      some ((args.drop (required function)).map (argument toDouble)) := by
  obtain ⟨number, port⟩ := Option.isSome_iff_exists.mp port
  unfold execFunction
  rw [if_pos sends]
  by_cases all : function = "sendToAll"
  · simp only [required, if_pos all] at enough port ⊢
    have several : ¬args.length < 3 - 1 := by omega
    simp only [if_neg several, port, Nat.sub_self, if_true, arguments_eq, Effect.sent]
  · simp only [required, if_neg all] at enough port ⊢
    have several : ¬args.length < 3 - 0 := by omega
    simp only [if_neg several, port, Nat.sub_zero, zero_ne_one, if_false, arguments_eq, Effect.sent]

/-- There is an element for each of the remaining arguments, and they are the ones which are
    meant exactly when all these arguments are numbers. -/
theorem sent_meant_iff (toDouble : QString → Option δ) (isAddress : QString → Bool)
    {function : QString} {args : QStringList}
    (sends : function = "sendTo" ∨ function = "sendToAll")
    (enough : required function ≤ args.length)
    (port : (args.getD (required function - 2) []).toInt?.isSome) :
    ∃ l, Effect.sent (execFunction toDouble isAddress function args).2 = some l ∧
      l.length = (args.drop (required function)).length ∧
      (l = (args.drop (required function)).map (meant toDouble) ↔
        ∀ arg ∈ args.drop (required function), (toDouble arg).isSome) := by
  refine ⟨_, sent_execFunction isAddress sends enough port, List.length_map .., ?_⟩
  rw [List.map_inj_left]
  exact forall_congr' fun arg => imp_congr_right fun _ => argument_eq_meant_iff arg

/-- A text and a number are sent to every address. -/
theorem sent_meant_numbers :
    ∃ l, Effect.sent (execFunction QString.toInt? (fun _ => true) "sendToAll"
        ["7000", "/led", "5"]).2 = some l ∧
      l.length = (List.drop (required "sendToAll") (["7000", "/led", "5"] : QStringList)).length ∧
      (l = (List.drop (required "sendToAll") (["7000", "/led", "5"] : QStringList)).map
          (meant QString.toInt?) ↔
        ∀ arg ∈ List.drop (required "sendToAll") (["7000", "/led", "5"] : QStringList),
          (QString.toInt? arg).isSome) :=
  sent_meant_iff QString.toInt? (fun _ => true) (.inr rfl) (by decide) (by decide)

/-- "true" is sent as false, and any other text as true. -/
theorem sent_texts :
    Effect.sent (execFunction QString.toInt? (fun _ => true) "sendToAll"
        ["7000", "/led", "true", "false", "blink"]).2 =
      some [.bool false, .bool true, .bool true] ∧
    ([.bool false, .bool true, .bool true] : List (OscValue Int)) ≠
      List.map (meant QString.toInt?) ["true", "false", "blink"] := by
  decide

end OscInterface

end VoxPopuli
