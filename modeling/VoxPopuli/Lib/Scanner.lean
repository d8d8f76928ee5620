import Mathlib

/-! # Machines which read a stream

A scanner reads one letter at a time and puts out what it has recognised. What it
recognises does not depend on how the stream is cut. If what it has put aside is always
the end of what it has read, then everything it puts out stands in the stream.
-/

universe u v w

structure Scanner (σ : Type u) (α : Type v) (β : Type w) where
  step : σ → α → σ × List β

namespace Scanner

variable {σ : Type u} {α : Type v} {β : Type w} (m : Scanner σ α β)

def feed : σ → List α → σ × List β
  | s, [] => (s, [])
  | s, a :: rest => ((feed (m.step s a).1 rest).1, (m.step s a).2 ++ (feed (m.step s a).1 rest).2)

@[simp] theorem feed_nil (s : σ) : m.feed s [] = (s, []) := rfl

theorem feed_cons (s : σ) (a : α) (rest : List α) :
    m.feed s (a :: rest) =
      ((m.feed (m.step s a).1 rest).1, (m.step s a).2 ++ (m.feed (m.step s a).1 rest).2) := rfl

theorem feed_append (s : σ) (as more : List α) :
    m.feed s (as ++ more) =
      ((m.feed (m.feed s as).1 more).1, (m.feed s as).2 ++ (m.feed (m.feed s as).1 more).2) := by
  induction as generalizing s with
  | nil => simp
  | cons a as ih => simp only [List.cons_append, feed_cons, ih, List.append_assoc]

/-! ## States on the way -/

/-- `m` is in `Q` whenever it has read a part of the letters. -/
def Stays (Q : σ → Prop) : σ → List α → Prop
  | s, [] => Q s
  | s, a :: rest => Q s ∧ Stays Q (m.step s a).1 rest

theorem stays_append {Q : σ → Prop} {s : σ} {as more : List α} (begins : m.Stays Q s as)
    (goes : m.Stays Q (m.feed s as).1 more) : m.Stays Q s (as ++ more) := by
  induction as generalizing s with
  | nil => exact goes
  | cons a as ih => exact ⟨begins.1, ih begins.2 goes⟩

theorem Stays.first {m : Scanner σ α β} {Q : σ → Prop} {s : σ} {as more : List α}
    (h : m.Stays Q s (as ++ more)) : m.Stays Q s as ∧ m.Stays Q (m.feed s as).1 more := by
  induction as generalizing s with
  | nil =>
      refine ⟨?_, h⟩
      cases more with
      | nil => exact h
      | cons a more => exact h.1
  | cons a as ih =>
      obtain ⟨first, later⟩ := ih h.2
      exact ⟨⟨h.1, first⟩, later⟩

theorem stays_of_parts {Q : σ → Prop} {s : σ} {as : List α}
    (each : ∀ part rest, as = part ++ rest → Q (m.feed s part).1) : m.Stays Q s as := by
  induction as generalizing s with
  | nil => exact each [] [] rfl
  | cons a as ih =>
      exact ⟨each [] (a :: as) rfl, ih fun part rest split =>
        each (a :: part) rest (congrArg (a :: ·) split)⟩

theorem stays_true (s : σ) (as : List α) : m.Stays (fun _ => True) s as :=
  m.stays_of_parts fun _ _ _ => trivial

/-! ## Blocks -/

/-- From a state in `P`, the block `as` makes `m` put out `bs` and end in `P` again, and never
    leave `Q` on the way. -/
def Recognises (P Q : σ → Prop) (as : List α) (bs : List β) : Prop :=
  ∀ s, P s → P (m.feed s as).1 ∧ (m.feed s as).2 = bs ∧ m.Stays Q s as

variable {m}

theorem Recognises.append {P Q : σ → Prop} {as more : List α} {bs bs' : List β}
    (h : m.Recognises P Q as bs) (h' : m.Recognises P Q more bs') :
    m.Recognises P Q (as ++ more) (bs ++ bs') := by
  intro s inside
  obtain ⟨inside₁, out₁, stays₁⟩ := h s inside
  obtain ⟨inside₂, out₂, stays₂⟩ := h' _ inside₁
  rw [feed_append]
  exact ⟨inside₂, by rw [out₁, out₂], stays_append m stays₁ stays₂⟩

/-- Blocks one after the other. -/
theorem recognises_flatMap {γ : Type*} {P Q : σ → Prop} {encode : γ → List α}
    {meaning : γ → List β} (idle : ∀ s, P s → Q s) {cs : List γ}
    (each : ∀ c ∈ cs, m.Recognises P Q (encode c) (meaning c)) :
    m.Recognises P Q (cs.flatMap encode) (cs.flatMap meaning) := by
  induction cs with
  | nil => exact fun s inside => ⟨inside, rfl, idle s inside⟩
  | cons c cs ih =>
      obtain ⟨first, others⟩ := List.forall_mem_cons.mp each
      exact first.append (ih others)

/-! ## What is put out stands in the stream -/

/-- The encodings of these values stand in the stream one after the other, with anything
    in between. -/
inductive Occur (encode : β → List α) : List β → List α → Prop
  | none (rest : List α) : Occur encode [] rest
  | next (gap : List α) {b : β} {bs : List β} {rest : List α} (later : Occur encode bs rest) :
      Occur encode (b :: bs) (gap ++ encode b ++ rest)

theorem Occur.skip {encode : β → List α} {bs : List β} {as : List α} (h : Occur encode bs as)
    (gap : List α) : Occur encode bs (gap ++ as) := by
  cases h with
  | none rest => exact .none _
  | @next gap' b bs rest later =>
      have shifted := Occur.next (gap ++ gap') (b := b) later
      simpa only [List.append_assoc] using shifted

theorem Occur.shorten {encode : β → List α} {bs bs' : List β} {as : List α}
    (h : Occur encode bs as) (part : bs' <+: bs) : Occur encode bs' as := by
  induction h generalizing bs' with
  | none rest =>
      rw [List.prefix_nil.mp part]
      exact .none rest
  | next gap later ih =>
      cases bs' with
      | nil => exact .none _
      | cons b' bs' =>
          obtain ⟨rfl, part'⟩ := List.cons_prefix_cons.mp part
          exact .next gap (ih part')

/-- What has been put aside in a state is the end of what has been read, and an output is
    spelt by it. -/
structure Remembers (m : Scanner σ α β) (encode : β → List α) (aside : σ → List α) : Prop where
  quiet : ∀ s a, (m.step s a).2 = [] → aside (m.step s a).1 <:+ aside s ++ [a]
  output : ∀ s a b, b ∈ (m.step s a).2 →
    (m.step s a).2 = [b] ∧ aside (m.step s a).1 = [] ∧ encode b <:+ aside s ++ [a]

theorem Remembers.occur {encode : β → List α} {aside : σ → List α} (h : m.Remembers encode aside)
    (s : σ) (as : List α) : Occur encode (m.feed s as).2 (aside s ++ as) := by
  induction as generalizing s with
  | nil => exact .none _
  | cons a rest ih =>
      have later := ih (m.step s a).1
      rw [feed_cons]
      cases made : (m.step s a).2 with
      | nil =>
          obtain ⟨gap, spelt⟩ := h.quiet s a made
          have whole := later.skip gap
          rw [← List.append_assoc, spelt] at whole
          simpa using whole
      | cons b more =>
          obtain ⟨only, empty, gap, spelt⟩ := h.output s a b (made ▸ List.mem_cons_self)
          rw [made] at only
          rw [only]
          rw [empty] at later
          have whole := Occur.next gap (b := b) later
          rw [spelt] at whole
          simpa using whole

end Scanner
