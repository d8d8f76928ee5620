import Mathlib

/-! # Negotiating an option

Two sides agree on whether an option is on by telling each other `on` or `off`. A side which
has asked waits for the answer before it asks again, and remembers one change of mind in
between. Messages arrive in the order they were sent, but both sides may speak at the same
time, and either may refuse an option which it is asked to turn on.

However the messages cross, the sides never argue for ever: every request causes two
messages at most. When none is under way both sides hold the option for on or both for off,
and a side which goes along with everything ends where the other one wanted to go.
-/

namespace Negotiation

/-- A side waiting for an answer may want the opposite afterwards. -/
inductive State where
  | no
  | yes
  | wantNo (opposite : Bool)
  | wantYes (opposite : Bool)
  deriving DecidableEq, Repr

namespace State

/-- The user of a side asks for the option to be turned on or off. -/
def request : State → Bool → State × List Bool
  | no, true => (wantYes false, [true])
  | yes, true => (yes, [])
  | wantNo _, true => (wantNo true, [])
  | wantYes _, true => (wantYes false, [])
  | no, false => (no, [])
  | yes, false => (wantNo false, [false])
  | wantNo _, false => (wantNo false, [])
  | wantYes _, false => (wantYes true, [])

/-- A message from the other side. Only an option which is off needs to be accepted. -/
def receive (accepts : Bool) : State → Bool → State × List Bool
  | no, true => if accepts then (yes, [true]) else (no, [false])
  | yes, true => (yes, [])
  | wantNo false, true => (no, [])
  | wantNo true, true => (yes, [])
  | wantYes false, true => (yes, [])
  | wantYes true, true => (wantNo false, [false])
  | no, false => (no, [])
  | yes, false => (no, [false])
  | wantNo false, false => (no, [])
  | wantNo true, false => (wantYes false, [true])
  | wantYes _, false => (no, [])

/-- Where the side wants to end. -/
def wish : State → Bool
  | no => false
  | yes => true
  | wantNo opposite => opposite
  | wantYes opposite => !opposite

/-- The messages which are due to a change of mind: another request and its answer. -/
def due : State → Nat
  | no | yes => 0
  | wantNo opposite | wantYes opposite => 2 * opposite.toNat

/-- The answers which messages on their way will get. -/
def owed : State → List Bool → Nat
  | _, [] => 0
  | s, on :: rest =>
      (if s = no ∧ on = true ∨ s = yes ∧ on = false then 1 else 0) +
        owed (if on then yes else no) rest

end State

open State

/-- An option between two sides, with the messages under way to each of them. -/
structure Lane where
  a : State := .no
  toB : List Bool := []
  b : State := .no
  toA : List Bool := []

namespace Lane

def swap (l : Lane) : Lane := ⟨l.b, l.toA, l.a, l.toB⟩

@[simp] theorem swap_swap (l : Lane) : l.swap.swap = l := rfl

inductive Act where
  | request (on : Bool)
  | deliver (accepts : Bool)
  deriving DecidableEq, Repr

/-- What side `a` does; nothing can be delivered when nothing is under way. -/
def act (l : Lane) : Act → Option Lane
  | .request on => some { l with a := (l.a.request on).1, toB := l.toB ++ (l.a.request on).2 }
  | .deliver accepts =>
      match l.toA with
      | [] => none
      | on :: rest =>
          some { l with
            a := (l.a.receive accepts on).1
            toA := rest
            toB := l.toB ++ (l.a.receive accepts on).2 }

/-- What one of the sides does. -/
def step (l : Lane) : Bool × Act → Option Lane
  | (false, x) => l.act x
  | (true, x) => (l.swap.act x).map swap

def run (l : Lane) (acts : List (Bool × Act)) : Option Lane := acts.foldlM step l

/-! ## Crossing messages -/

/-- How messages can cross, up to the names of the sides. -/
inductive Crossing : Lane → Prop
  | off : Crossing ⟨no, [], no, []⟩
  | on : Crossing ⟨yes, [], yes, []⟩
  | asksOn (x : Bool) : Crossing ⟨wantYes x, [true], no, []⟩
  | bothOn (x y : Bool) : Crossing ⟨wantYes x, [true], wantYes y, [true]⟩
  | accepted (x : Bool) : Crossing ⟨wantYes x, [], yes, [true]⟩
  | refused (x : Bool) : Crossing ⟨wantYes x, [], no, [false]⟩
  | acceptedThenOff (x y : Bool) : Crossing ⟨wantYes x, [], wantNo y, [true, false]⟩
  | refusedThenOn (x y : Bool) : Crossing ⟨wantYes x, [], wantYes y, [false, true]⟩
  | asksOff (x : Bool) : Crossing ⟨wantNo x, [false], yes, []⟩
  | bothOff (x y : Bool) : Crossing ⟨wantNo x, [false], wantNo y, [false]⟩
  | confirmed (x : Bool) : Crossing ⟨wantNo x, [], no, [false]⟩
  | confirmedThenOn (x y : Bool) : Crossing ⟨wantNo x, [], wantYes y, [false, true]⟩

def Coherent (l : Lane) : Prop := Crossing l ∨ Crossing l.swap

theorem Coherent.swap {l : Lane} (h : Coherent l) : Coherent l.swap := h.symm

/-- What is still to be sent and delivered, at most. -/
def potential (l : Lane) : Nat :=
  l.toA.length + l.toB.length + l.a.owed l.toA + l.b.owed l.toB + l.a.due + l.b.due

theorem potential_swap (l : Lane) : l.swap.potential = l.potential := by
  simp only [potential, swap]
  omega

/-- An act of side `a` keeps what is under way coherent; only requests add to it. -/
def Kept (l : Lane) : Act → Prop
  | .request on => ∀ l', l.act (.request on) = some l' →
      Coherent l' ∧ l'.potential ≤ l.potential + 2
  | .deliver accepts => ∀ l', l.act (.deliver accepts) = some l' →
      Coherent l' ∧ l'.potential + 1 ≤ l.potential

theorem Crossing.request {l : Lane} (h : Crossing l) (on : Bool) : l.Kept (.request on) := by
  rintro l' ⟨⟩
  constructor
  · left
    cases h <;> cases on <;> constructor
  · cases h <;> cases on <;> simp [potential, State.request, owed, due] <;> omega

theorem Crossing.request_swap {l : Lane} (h : Crossing l) (on : Bool) :
    l.swap.Kept (.request on) := by
  rintro l' ⟨⟩
  constructor
  · cases h <;> cases on <;> first | exact .inl (by constructor) | exact .inr (by constructor)
  · cases h <;> cases on <;> simp [swap, potential, State.request, owed, due] <;> omega

theorem Crossing.deliver {l : Lane} (h : Crossing l) (accepts : Bool) :
    l.Kept (.deliver accepts) := by
  intro l' done
  cases h with
  | off | on | asksOn | asksOff => cases done
  | bothOn x | accepted x | refused x | acceptedThenOff x | refusedThenOn x | bothOff x
  | confirmed x | confirmedThenOn x =>
      cases x <;> cases done <;> constructor
      all_goals first
        | exact .inl (by constructor)
        | exact .inr (by constructor)
        | simp [potential, receive, owed, due]

theorem Crossing.deliver_swap {l : Lane} (h : Crossing l) (accepts : Bool) :
    l.swap.Kept (.deliver accepts) := by
  intro l' done
  cases h with
  | off | on | accepted | refused | acceptedThenOff | refusedThenOn | confirmed
  | confirmedThenOn => cases done
  | bothOn x y | bothOff x y =>
      cases y <;> cases done <;> constructor
      all_goals first
        | exact .inl (by constructor)
        | exact .inr (by constructor)
        | simp [swap, potential, receive, owed, due]
  | asksOn x | asksOff x =>
      cases accepts <;> cases done <;> constructor
      all_goals first
        | exact .inl (by constructor)
        | exact .inr (by constructor)
        | simp [swap, potential, receive, owed, due]

theorem Coherent.kept {l : Lane} (h : Coherent l) (x : Act) : l.Kept x := by
  rcases h with here | there
  · cases x with
    | request on => exact here.request on
    | deliver accepts => exact here.deliver accepts
  · cases x with
    | request on => exact there.request_swap on
    | deliver accepts => exact there.deliver_swap accepts

/-! ## Runs -/

def requests (acts : List (Bool × Act)) : Nat :=
  acts.countP fun p => p.2 matches .request _

def deliveries (acts : List (Bool × Act)) : Nat :=
  acts.countP fun p => p.2 matches .deliver _

theorem Coherent.step {l l' : Lane} (h : Coherent l) {p : Bool × Act} (done : l.step p = some l') :
    Coherent l' ∧ l'.potential + deliveries [p] ≤ l.potential + 2 * requests [p] := by
  obtain ⟨side, x⟩ := p
  cases side with
  | false =>
      have kept := h.kept x
      cases x with
      | request on => exact kept l' done
      | deliver accepts => exact kept l' done
  | true =>
      obtain ⟨l₁, acted, rfl⟩ := Option.map_eq_some_iff.mp done
      have kept := h.swap.kept x
      rw [potential_swap]
      cases x with
      | request on =>
          obtain ⟨coherent, less⟩ := kept l₁ acted
          exact ⟨coherent.swap, by rwa [potential_swap] at less⟩
      | deliver accepts =>
          obtain ⟨coherent, less⟩ := kept l₁ acted
          exact ⟨coherent.swap, by rwa [potential_swap] at less⟩

/-- Run lemma: every request makes two deliveries at most. -/
theorem Coherent.run {l l' : Lane} (h : Coherent l) {acts : List (Bool × Act)}
    (ran : l.run acts = some l') :
    Coherent l' ∧ l'.potential + deliveries acts ≤ l.potential + 2 * requests acts := by
  induction acts generalizing l with
  | nil =>
      obtain rfl := Option.some.inj ran
      exact ⟨h, le_rfl⟩
  | cons p acts ih =>
      rw [Lane.run, List.foldlM_cons] at ran
      obtain ⟨l₁, first, rest⟩ := Option.bind_eq_some_iff.mp ran
      obtain ⟨coherent₁, less₁⟩ := h.step first
      obtain ⟨coherent, less⟩ := ih coherent₁ rest
      have split : deliveries (p :: acts) = deliveries [p] + deliveries acts ∧
          requests (p :: acts) = requests [p] + requests acts := by
        rw [← List.singleton_append (x := p)]
        exact ⟨List.countP_append, List.countP_append⟩
      refine ⟨coherent, ?_⟩
      omega

/-- Nothing is under way. -/
def Quiet (l : Lane) : Prop := l.toA = [] ∧ l.toB = []

theorem Coherent.agree {l : Lane} (h : Coherent l) (quiet : l.Quiet) :
    l.a = l.b ∧ (l.a = no ∨ l.a = yes) := by
  obtain ⟨a, toB, b, toA⟩ := l
  obtain ⟨rfl, rfl⟩ : toA = [] ∧ toB = [] := quiet
  rcases h with here | there
  · cases here with
    | off => exact ⟨rfl, .inl rfl⟩
    | on => exact ⟨rfl, .inr rfl⟩
  · cases there with
    | off => exact ⟨rfl, .inl rfl⟩
    | on => exact ⟨rfl, .inr rfl⟩

/-! ## A side which goes along -/

/-- Side `b` asks for nothing and accepts everything. -/
def Follows (p : Bool × Act) : Prop := p.1 = true → p.2 = .deliver true

/-- What side `a` has asked for last. -/
def asked (before : Bool) (acts : List (Bool × Act)) : Bool :=
  acts.foldl (fun last p => match p with
    | (false, .request on) => on
    | _ => last) before

/-- Only the requests of side `a` and the answers of side `b` are under way. -/
inductive Led : Lane → Prop
  | off : Led ⟨no, [], no, []⟩
  | on : Led ⟨yes, [], yes, []⟩
  | asksOn (x : Bool) : Led ⟨wantYes x, [true], no, []⟩
  | accepted (x : Bool) : Led ⟨wantYes x, [], yes, [true]⟩
  | asksOff (x : Bool) : Led ⟨wantNo x, [false], yes, []⟩
  | confirmed (x : Bool) : Led ⟨wantNo x, [], no, [false]⟩

theorem Led.step {l l' : Lane} (h : Led l) {p : Bool × Act} (follows : Follows p)
    (done : l.step p = some l') : Led l' ∧ l'.a.wish = asked l.a.wish [p] := by
  obtain ⟨side, x⟩ := p
  cases side with
  | true =>
      obtain rfl := follows rfl
      cases h with
      | off | on | accepted | confirmed => cases done
      | asksOn x | asksOff x =>
          cases done
          exact ⟨by constructor, rfl⟩
  | false =>
      cases x with
      | request on =>
          cases done
          constructor
          · cases h <;> cases on <;> constructor
          · cases h <;> cases on <;> rfl
      | deliver accepts =>
          cases h with
          | off | on | asksOn | asksOff => cases done
          | accepted x | confirmed x =>
              cases x <;> cases done <;> exact ⟨by constructor, rfl⟩

theorem Led.run {l l' : Lane} (h : Led l) {acts : List (Bool × Act)}
    (follows : ∀ p ∈ acts, Follows p) (ran : l.run acts = some l') :
    Led l' ∧ l'.a.wish = asked l.a.wish acts := by
  induction acts generalizing l with
  | nil =>
      obtain rfl := Option.some.inj ran
      exact ⟨h, rfl⟩
  | cons p acts ih =>
      obtain ⟨first, others⟩ := List.forall_mem_cons.mp follows
      rw [Lane.run, List.foldlM_cons] at ran
      obtain ⟨l₁, done, rest⟩ := Option.bind_eq_some_iff.mp ran
      obtain ⟨led₁, wish₁⟩ := h.step first done
      obtain ⟨led, wish⟩ := ih led₁ others rest
      exact ⟨led, wish.trans (congrArg (asked · acts) wish₁)⟩

/-- When nothing is under way, both sides are where side `a` wanted to go. -/
theorem Led.settled {l : Lane} (h : Led l) (quiet : l.Quiet) :
    l.a = (if l.a.wish then yes else no) ∧ l.b = l.a := by
  cases h with
  | off | on => exact ⟨rfl, rfl⟩
  | asksOn | asksOff => cases quiet.2
  | accepted | confirmed => cases quiet.1

end Lane

end Negotiation
