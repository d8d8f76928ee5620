import VoxPopuli.Lib.While
import VoxPopuli.XBee.Frames

/-! # Reading frames from the serial port

`_xbee_frame_load` takes what has arrived at the serial port and hands out the frames it
completes, at most five in a tick. However the bytes arrive and whenever the ticks come,
the frames are those which a reader of the whole stream finds, and the frame buffer is
never left.
-/

namespace VoxPopuli

open XBeeFrame

/-- `enum xbee_dev_rx_state`. -/
inductive RxState where
  | waitStart
  | lengthMsb
  | lengthLsb
  | rxFrame
  deriving DecidableEq, Repr

/-- `xbee_dev_t` as far as it reads: `rx` and the bytes which wait in the serial port. -/
structure XBeeDev where
  state : RxState := .waitStart
  bytesInFrame : Nat := 0
  bytesRead : Nat := 0
  frameData : Vector Byte (maxFrameLen + 1) := .replicate _ 0
  serport : List Byte := []

namespace XBeeDev

/-- A device and the frames which it has dispatched in a tick. -/
abbrev Loading := XBeeDev × List (List Byte)

/-- `XBEE_DEV_MAX_DISPATCH_PER_TICK`. -/
def maxDispatchPerTick : Nat := 5

/-- Bytes are read into the frame buffer from a position on. -/
def store (frameData : Vector Byte (maxFrameLen + 1)) (i : Nat) :
    List Byte → Except Fault (Vector Byte (maxFrameLen + 1))
  | [] => pure frameData
  | b :: rest =>
      if inside : i < maxFrameLen + 1 then store (frameData.set i b) (i + 1) rest
      else throw .outOfRange

/-! ## The turns of the loop

A state goes on into the next one within a turn. A turn ends with the return of the
function or with another turn.
-/

def rxFrame : Loading → Loading ⊕ Except Fault Loading
  | (x, dispatched) =>
      let bytesLeft := x.bytesInFrame - x.bytesRead + 1
      let read := x.serport.take bytesLeft
      match store x.frameData x.bytesRead read with
      | .error e => .inr (.error e)
      | .ok frameData =>
          let x := { x with frameData := frameData, serport := x.serport.drop bytesLeft }
          if read.length ≠ bytesLeft then
            .inr (.ok ({ x with bytesRead := x.bytesRead + read.length }, dispatched))
          else
            let x := { x with state := .waitStart }
            if checksum frameData.toList (x.bytesInFrame + 1) 0xFF ≠ 0 then .inl (x, dispatched)
            else
              let dispatched := dispatched ++ [frameData.toList.take x.bytesInFrame]
              if dispatched.length = maxDispatchPerTick then .inr (.ok (x, dispatched))
              else .inl (x, dispatched)

def lengthLsb : Loading → Loading ⊕ Except Fault Loading
  | (x, dispatched) =>
      match x.serport with
      | [] => .inr (.ok (x, dispatched))
      | ch :: rest =>
          let length := x.bytesInFrame + ch.val
          let x := { x with bytesInFrame := length, serport := rest }
          if length > maxFrameLen ∨ length < 2 then
            .inl ({ x with state := if ch = startByte then .lengthMsb else .waitStart }, dispatched)
          else rxFrame ({ x with state := .rxFrame, bytesRead := 0 }, dispatched)

def lengthMsb : Loading → Loading ⊕ Except Fault Loading
  | (x, dispatched) =>
      match x.serport with
      | [] => .inr (.ok (x, dispatched))
      | ch :: rest =>
          if ch = startByte then .inl ({ x with serport := rest }, dispatched)
          else
            lengthLsb
              ({ x with state := .lengthLsb, bytesInFrame := ch.val * 256, serport := rest },
                dispatched)

def waitStart : Loading → Loading ⊕ Except Fault Loading
  | (x, dispatched) =>
      match x.serport.dropWhile (· ≠ startByte) with
      | [] => .inr (.ok ({ x with serport := [] }, dispatched))
      | _ :: rest => lengthMsb ({ x with state := .lengthMsb, serport := rest }, dispatched)

def turn (l : Loading) : Loading ⊕ Except Fault Loading :=
  match l.1.state with
  | .waitStart => waitStart l
  | .lengthMsb => lengthMsb l
  | .lengthLsb => lengthLsb l
  | .rxFrame => rxFrame l

/-- `_xbee_frame_load`, called by `xbee_dev_tick`. A turn which another one follows takes a
    byte at least. -/
def tick (x : XBeeDev) : Option (Except Fault Loading) :=
  While.run turn (x.serport.length + 1) (x, [])

/-! ## A device and a reader -/

/-- The device has gone as far as a reader. -/
def At (x : XBeeDev) : Parse → Prop
  | .waitStart => x.state = .waitStart
  | .lengthMsb => x.state = .lengthMsb
  | .lengthLsb msb => x.state = .lengthLsb ∧ x.bytesInFrame = msb.val * 256
  | .rxFrame body left _ => x.state = .rxFrame ∧ x.bytesInFrame = body.length + left ∧
      x.bytesRead = body.length ∧ x.frameData.toList.take body.length = body

/-- A reader in the state of the device finds `frames` in what waits, after what has been
    dispatched, and stops in `final`. -/
def Finds (l : Loading) (final : Parse) (frames : List (List Byte)) : Prop :=
  ∃ p later, At l.1 p ∧ scanner.feed p l.1.serport = (final, later) ∧ l.2 ++ later = frames

/-- What a turn has to keep: nothing is lost and the next turn has fewer bytes before it. -/
def Turned (l : Loading) (final : Parse) (frames : List (List Byte)) :
    Loading ⊕ Except Fault Loading → Prop
  | .inl l' => Finds l' final frames ∧ l'.2.length < maxDispatchPerTick ∧
      l'.1.serport.length < l.1.serport.length
  | .inr r => ∃ l', r = .ok l' ∧ Finds l' final frames ∧ l'.2.length ≤ maxDispatchPerTick ∧
      (l'.2.length < maxDispatchPerTick → l'.1.serport = [])

theorem store_ok {frameData : Vector Byte (maxFrameLen + 1)} {body : List Byte}
    (filled : frameData.toList.take body.length = body) {bytes : List Byte}
    (room : body.length + bytes.length ≤ maxFrameLen + 1) :
    ∃ frameData', store frameData body.length bytes = .ok frameData' ∧
      frameData'.toList.take (body ++ bytes).length = body ++ bytes := by
  induction bytes generalizing frameData body with
  | nil => exact ⟨frameData, rfl, by simpa using filled⟩
  | cons b rest ih =>
      rw [List.length_cons] at room
      have inside : body.length < maxFrameLen + 1 := by omega
      have extended : (frameData.set body.length b).toList.take (body ++ [b]).length =
          body ++ [b] := by
        rw [Vector.toList_set, List.length_append, List.length_singleton, List.take_add_one,
          List.take_set_of_le (Nat.le_refl _), filled]
        simp [inside]
      obtain ⟨frameData', stored, filled'⟩ := ih extended (by simp; omega)
      refine ⟨frameData', ?_, by simpa using filled'⟩
      rw [store, dif_pos inside]
      simpa using stored

theorem Turned.of_le {l l' : Loading} {final : Parse} {frames : List (List Byte)}
    {t : Loading ⊕ Except Fault Loading} (h : Turned l' final frames t)
    (less : l'.1.serport.length ≤ l.1.serport.length) : Turned l final frames t := by
  cases t with
  | inl l'' => exact ⟨h.1, h.2.1, by have := h.2.2; omega⟩
  | inr r => exact h

section Turns

variable {x : XBeeDev} (dispatched : List (List Byte))

/-- All that waits belongs to the frame. -/
theorem rxFrame_short {body : List Byte} {left : Nat}
    {fits : Fits (body.length + (x.serport.length + left))}
    (there : At x (.rxFrame body (x.serport.length + left) fits)) :
    ∃ x', rxFrame (x, dispatched) = .inr (.ok (x', dispatched)) ∧ x'.serport = [] ∧
      At x' (.rxFrame (body ++ x.serport) left (by simpa [Nat.add_assoc] using fits)) := by
  obtain ⟨state, inFrame, read, filled⟩ := there
  have bound : body.length + (x.serport.length + left) ≤ maxFrameLen := fits.2
  have missing : x.bytesInFrame - x.bytesRead + 1 = x.serport.length + left + 1 := by omega
  have whole : x.serport.take (x.serport.length + left + 1) = x.serport :=
    List.take_of_length_le (by omega)
  obtain ⟨frameData, stored, filled'⟩ :=
    store_ok filled (show body.length + x.serport.length ≤ maxFrameLen + 1 by omega)
  rw [← read] at stored
  refine ⟨{ x with
    frameData := frameData
    bytesRead := x.bytesRead + x.serport.length
    serport := [] }, ?_, rfl, state, by simp [inFrame, Nat.add_assoc], by simp [read], filled'⟩
  have rest : x.serport.drop (x.serport.length + left + 1) = [] := List.drop_of_length_le (by omega)
  have short : x.serport.length ≠ x.serport.length + left + 1 := by omega
  simp only [rxFrame, missing, whole, stored, rest, if_pos short]

/-- The frame and its checksum wait. -/
theorem rxFrame_whole {body more rest : List Byte} {b : Byte}
    {fits : Fits (body.length + more.length)} (there : At x (.rxFrame body more.length fits))
    (line : x.serport = more ++ b :: rest) :
    ∃ x', x'.serport = rest ∧ x'.state = .waitStart ∧ rxFrame (x, dispatched) =
      if checksum (body ++ more ++ [b]) ((body ++ more).length + 1) 0xFF = 0 then
        if (dispatched ++ [body ++ more]).length = maxDispatchPerTick then
          .inr (.ok (x', dispatched ++ [body ++ more]))
        else .inl (x', dispatched ++ [body ++ more])
      else .inl (x', dispatched) := by
  obtain ⟨state, inFrame, read, filled⟩ := there
  have bound : body.length + more.length ≤ maxFrameLen := fits.2
  have missing : x.bytesInFrame - x.bytesRead + 1 = more.length + 1 := by omega
  have chunk : x.serport.take (more.length + 1) = more ++ [b] := by
    rw [line, List.take_append]
    simp
  have rest_eq : x.serport.drop (more.length + 1) = rest := by
    rw [line, List.drop_append]
    simp
  obtain ⟨frameData, stored, filled'⟩ :=
    store_ok filled (show body.length + (more ++ [b]).length ≤ maxFrameLen + 1 by simp; omega)
  rw [← List.append_assoc] at filled'
  rw [← read] at stored
  have length : x.bytesInFrame = (body ++ more).length := by simp [inFrame]
  have sum : checksum frameData.toList (x.bytesInFrame + 1) 0xFF =
      checksum (body ++ more ++ [b]) ((body ++ more).length + 1) 0xFF := by
    have small : (body ++ more).length + 1 < 256 := by
      have : (body ++ more).length ≤ 146 := by simpa [maxFrameLen] using bound
      omega
    rw [checksum, checksum, length, Nat.mod_eq_of_lt small]
    rw [List.length_append, List.length_singleton] at filled'
    rw [filled', List.take_of_length_le (by simp; omega)]
  have frame : frameData.toList.take x.bytesInFrame = body ++ more := by
    have shorter := congrArg (List.take (body ++ more).length) filled'
    rw [List.take_take, min_eq_left (by simp), List.take_left] at shorter
    rw [length, shorter]
  refine ⟨{ x with frameData := frameData, serport := rest, state := .waitStart }, rfl, rfl, ?_⟩
  have all : (more ++ [b]).length = more.length + 1 := by simp
  simp only [rxFrame, missing, chunk, rest_eq, stored, all, ne_eq, not_true_eq_false, if_false, sum,
    frame, ite_not]

variable {dispatched} {later : List (List Byte)} {final : Parse} {frames : List (List Byte)}
  (few : dispatched.length < maxDispatchPerTick) (all : dispatched ++ later = frames)

include few all

theorem rxFrame_turned {body : List Byte} {left : Nat} {fits : Fits (body.length + left)}
    (there : At x (.rxFrame body left fits))
    (found : scanner.feed (.rxFrame body left fits) x.serport = (final, later)) :
    Turned (x, dispatched) final frames (rxFrame (x, dispatched)) := by
  by_cases short : x.serport.length ≤ left
  · obtain ⟨left, rfl⟩ := Nat.exists_eq_add_of_le short
    obtain ⟨x', returned, empty, at'⟩ := rxFrame_short dispatched there
    rw [feed_rxFrame] at found
    obtain ⟨rfl, rfl⟩ := Prod.mk.inj found
    rw [returned]
    exact ⟨_, rfl, ⟨_, [], at', by rw [empty]; rfl, all⟩, few.le, fun _ => empty⟩
  · obtain ⟨more, b, rest, rfl, line⟩ : ∃ more b rest, left = more.length ∧
        x.serport = more ++ b :: rest := by
      refine ⟨x.serport.take left, x.serport[left], x.serport.drop (left + 1), ?_, ?_⟩
      · rw [List.length_take]
        omega
      · rw [List.getElem_cons_drop, List.take_append_drop]
    have shrunk : rest.length < x.serport.length := by
      rw [line, List.length_append, List.length_cons]
      omega
    obtain ⟨x', waits, state, turned⟩ := rxFrame_whole dispatched there line
    have split : more ++ b :: rest = more ++ [b] ++ rest := by simp
    rw [line, split, Scanner.feed_append, feed_complete] at found
    obtain ⟨rfl, rfl⟩ := Prod.mk.inj found
    rw [turned]
    split
    · rename_i passed
      rw [if_pos passed, ← List.append_assoc] at all
      split
      · rename_i full
        exact ⟨_, rfl, ⟨.waitStart, _, state, by rw [waits], all⟩, full.le,
          fun less => absurd full less.ne⟩
      · rename_i room
        refine ⟨⟨.waitStart, _, state, by rw [waits], all⟩, ?_, waits ▸ shrunk⟩
        rw [List.length_append, List.length_singleton] at room ⊢
        omega
    · rename_i failed
      rw [if_neg failed, List.nil_append] at all
      exact ⟨⟨.waitStart, _, state, by rw [waits], all⟩, few, waits ▸ shrunk⟩

theorem lengthLsb_turned {msb : Byte} (there : At x (.lengthLsb msb))
    (found : scanner.feed (.lengthLsb msb) x.serport = (final, later)) :
    Turned (x, dispatched) final frames (lengthLsb (x, dispatched)) := by
  obtain ⟨state, high⟩ := there
  cases line : x.serport with
  | nil =>
      rw [line] at found
      obtain ⟨rfl, rfl⟩ := Prod.mk.inj found
      simp only [lengthLsb, line]
      exact ⟨_, rfl, ⟨.lengthLsb msb, [], ⟨state, high⟩, by rw [line]; rfl, all⟩, few.le,
        fun _ => line⟩
  | cons ch rest =>
      have shrunk : rest.length < x.serport.length := by simp [line]
      rw [line, Scanner.feed_cons] at found
      simp only [step_scanner, Parse.step, Parse.start, List.nil_append, Prod.mk.eta] at found
      simp only [lengthLsb, line, high]
      split
      · rename_i wrong
        have unfit : ¬Fits (msb.val * 256 + ch.val) := fun fits => by
          have := fits.1
          have := fits.2
          omega
        rw [dif_neg unfit, Parse.seek] at found
        refine ⟨⟨if ch = startByte then .lengthMsb else .waitStart, later, ?_, found, all⟩, few,
          shrunk⟩
        split <;> rfl
      · rename_i right
        have fits : Fits (msb.val * 256 + ch.val) := ⟨by omega, by omega⟩
        rw [dif_pos fits] at found
        have next : At
            { x with
              state := .rxFrame
              bytesInFrame := msb.val * 256 + ch.val
              bytesRead := 0
              serport := rest }
            (.rxFrame [] (msb.val * 256 + ch.val) (by simpa using fits)) :=
          ⟨rfl, by simp, rfl, rfl⟩
        exact (rxFrame_turned few all next found).of_le shrunk.le

theorem lengthMsb_turned (there : At x .lengthMsb)
    (found : scanner.feed .lengthMsb x.serport = (final, later)) :
    Turned (x, dispatched) final frames (lengthMsb (x, dispatched)) := by
  cases line : x.serport with
  | nil =>
      rw [line] at found
      obtain ⟨rfl, rfl⟩ := Prod.mk.inj found
      simp only [lengthMsb, line]
      exact ⟨_, rfl, ⟨.lengthMsb, [], there, by rw [line]; rfl, all⟩, few.le, fun _ => line⟩
  | cons ch rest =>
      have shrunk : rest.length < x.serport.length := by simp [line]
      rw [line, Scanner.feed_cons] at found
      simp only [step_scanner, Parse.step, List.nil_append, Prod.mk.eta] at found
      simp only [lengthMsb, line]
      split
      · rename_i again
        rw [if_pos again] at found
        exact ⟨⟨.lengthMsb, later, there, found, all⟩, few, shrunk⟩
      · rename_i other
        rw [if_neg other] at found
        have there' :
            At { x with state := .lengthLsb, bytesInFrame := ch.val * 256, serport := rest }
              (.lengthLsb ch) := ⟨rfl, rfl⟩
        exact (lengthLsb_turned few all there' found).of_le shrunk.le

theorem waitStart_turned (there : At x .waitStart)
    (found : scanner.feed .waitStart x.serport = (final, later)) :
    Turned (x, dispatched) final frames (waitStart (x, dispatched)) := by
  have before := List.takeWhile_append_dropWhile (p := fun b : Byte => decide (b ≠ startByte))
    (l := x.serport)
  have free : startByte ∉ x.serport.takeWhile (· ≠ startByte) := fun inside => by
    simpa using List.mem_takeWhile_imp inside
  rw [← before, Scanner.feed_append, feed_waitStart free] at found
  simp only [List.nil_append] at found
  simp only [waitStart]
  cases line : x.serport.dropWhile (· ≠ startByte) with
  | nil =>
      rw [line] at found
      obtain ⟨rfl, rfl⟩ := Prod.mk.inj found
      exact ⟨_, rfl, ⟨.waitStart, [], there, rfl, all⟩, few.le, fun _ => rfl⟩
  | cons ch rest =>
      have start : ch = startByte := by
        have head := List.head?_dropWhile_not (fun b : Byte => decide (b ≠ startByte)) x.serport
        rw [line] at head
        simpa using head
      have shrunk : rest.length ≤ x.serport.length := by
        have whole := congrArg List.length before
        rw [line, List.length_append, List.length_cons] at whole
        omega
      rw [line, Scanner.feed_cons] at found
      simp only [step_scanner, Parse.step, Parse.seek, if_pos start, List.nil_append,
        Prod.mk.eta] at found
      have next : At { x with state := .lengthMsb, serport := rest } .lengthMsb := rfl
      exact (lengthMsb_turned few all next found).of_le shrunk

omit all in
theorem turn_turned (found : Finds (x, dispatched) final frames) :
    Turned (x, dispatched) final frames (turn (x, dispatched)) := by
  obtain ⟨p, later, there, found, all⟩ := found
  cases p with
  | waitStart =>
      rw [turn, show (x, dispatched).1.state = .waitStart from there]
      exact waitStart_turned few all there found
  | lengthMsb =>
      rw [turn, show (x, dispatched).1.state = .lengthMsb from there]
      exact lengthMsb_turned few all there found
  | lengthLsb msb =>
      rw [turn, show (x, dispatched).1.state = .lengthLsb from there.1]
      exact lengthLsb_turned few all there found
  | rxFrame body left fits =>
      rw [turn, show (x, dispatched).1.state = .rxFrame from there.1]
      exact rxFrame_turned few all there found

end Turns

/-! ## Ticks -/

/-- A tick does not leave the buffer and hands out the next five frames, or all there are
    when there are fewer; only then everything which waited has been read. -/
theorem tick_spec {x : XBeeDev} {p : Parse} (there : At x p) :
    ∃ x' p', x.tick = some (.ok (x', (scanner.feed p x.serport).2.take maxDispatchPerTick)) ∧
      At x' p' ∧ scanner.feed p' x'.serport =
        ((scanner.feed p x.serport).1, (scanner.feed p x.serport).2.drop maxDispatchPerTick) ∧
      ((scanner.feed p x.serport).2.length < maxDispatchPerTick → x'.serport = []) := by
  rcases found : scanner.feed p x.serport with ⟨final, frames⟩
  have start : Finds (x, []) final frames ∧ ([] : List (List Byte)).length < maxDispatchPerTick :=
    ⟨⟨p, frames, there, found, rfl⟩, by decide⟩
  have loop : ∃ r, x.tick = some r ∧ ∃ l', r = .ok l' ∧ Finds l' final frames ∧
      l'.2.length ≤ maxDispatchPerTick ∧
      (l'.2.length < maxDispatchPerTick → l'.1.serport = []) := by
    refine While.run_total (I := fun l => Finds l final frames ∧ l.2.length < maxDispatchPerTick)
      (fun l => l.1.serport.length) (fun l r kept leaves => ?_) (fun l l' kept goesOn => ?_) start
      (Nat.lt_succ_self _)
    · have turned := turn_turned kept.2 kept.1
      rwa [leaves] at turned
    · have turned := turn_turned kept.2 kept.1
      rw [goesOn] at turned
      exact ⟨⟨turned.1, turned.2.1⟩, turned.2.2⟩
  obtain ⟨_, returns, ⟨x', d⟩, rfl, ⟨p', later, there', found', rfl⟩, few, drained⟩ := loop
  dsimp only at found' few drained ⊢
  have made : (d ++ later).take maxDispatchPerTick = d ∧
      (d ++ later).drop maxDispatchPerTick = later ∧
      ((d ++ later).length < maxDispatchPerTick → x'.serport = []) := by
    rcases few.lt_or_eq with less | full
    · have nothing : later = [] := by
        rw [drained less] at found'
        exact (Prod.mk.inj found').2.symm
      subst nothing
      rw [List.append_nil]
      exact ⟨List.take_of_length_le less.le, List.drop_of_length_le less.le, fun _ => drained less⟩
    · refine ⟨List.take_left' full, List.drop_left' full, fun less => ?_⟩
      rw [List.length_append] at less
      omega
  obtain ⟨first, rest, empty⟩ := made
  rw [first, rest]
  exact ⟨x', p', returns, there', found', empty⟩

/-! ## Runs -/

inductive Event where
  /-- Bytes arrive at the serial port. -/
  | arrive (bytes : List Byte)
  | tick

/-- What has arrived. -/
def line (events : List Event) : List Byte :=
  events.flatMap fun
    | .arrive bytes => bytes
    | .tick => []

/-- The frames which are dispatched, tick by tick. -/
def run (x : XBeeDev) : List Event → Option (Except Fault (XBeeDev × List (List (List Byte))))
  | [] => some (.ok (x, []))
  | .arrive bytes :: rest => { x with serport := x.serport ++ bytes }.run rest
  | .tick :: rest =>
      match x.tick with
      | none => none
      | some (.error e) => some (.error e)
      | some (.ok (x, frames)) =>
          match x.run rest with
          | some (.ok (x, ticks)) => some (.ok (x, frames :: ticks))
          | failed => failed

/-- Where a device stands: its reader and what it finds in the bytes which wait. -/
structure Stands (x : XBeeDev) (final : Parse) (frames : List (List Byte)) : Prop where
  reads : ∃ p, At x p ∧ scanner.feed p x.serport = (final, frames)

theorem Stands.arrive {x : XBeeDev} {final : Parse} {frames : List (List Byte)}
    (h : Stands x final frames) (bytes : List Byte) :
    Stands { x with serport := x.serport ++ bytes } (scanner.feed final bytes).1
      (frames ++ (scanner.feed final bytes).2) := by
  obtain ⟨p, there, found⟩ := h
  have there' : At { x with serport := x.serport ++ bytes } p := by
    cases p <;> exact there
  exact ⟨p, there', by rw [Scanner.feed_append, found]⟩

theorem Stands.tick {x : XBeeDev} {final : Parse} {frames : List (List Byte)}
    (h : Stands x final frames) :
    ∃ x', x.tick = some (.ok (x', frames.take maxDispatchPerTick)) ∧
      Stands x' final (frames.drop maxDispatchPerTick) := by
  obtain ⟨p, there, found⟩ := h
  obtain ⟨x', p', ticked, there', found', -⟩ := tick_spec there
  rw [found] at ticked found'
  exact ⟨x', ticked, ⟨p', there', found'⟩⟩

/-- Run lemma: nothing of what has been found gets lost or comes twice. -/
theorem Stands.run {x : XBeeDev} {final : Parse} {frames : List (List Byte)}
    (h : Stands x final frames) (events : List Event) :
    ∃ x' ticks rest, x.run events = some (.ok (x', ticks)) ∧
      Stands x' (scanner.feed final (line events)).1 rest ∧
      ticks.flatten ++ rest = frames ++ (scanner.feed final (line events)).2 ∧
      ∀ tick ∈ ticks, tick.length ≤ maxDispatchPerTick := by
  induction events generalizing x final frames with
  | nil => exact ⟨x, [], frames, rfl, h, by simp [line], by simp⟩
  | cons event events ih =>
      cases event with
      | arrive bytes =>
          obtain ⟨x', ticks, rest, ran, stands, all, few⟩ := ih (h.arrive bytes)
          refine ⟨x', ticks, rest, ran, ?_, ?_, few⟩
          · rw [line, List.flatMap_cons, Scanner.feed_append]
            exact stands
          · rw [line, List.flatMap_cons, Scanner.feed_append, ← List.append_assoc]
            exact all
      | tick =>
          obtain ⟨x₁, ticked, stands₁⟩ := h.tick
          obtain ⟨x', ticks, rest, ran, stands, all, few⟩ := ih stands₁
          refine ⟨x', frames.take maxDispatchPerTick :: ticks, rest, ?_, stands, ?_, ?_⟩
          · simp only [XBeeDev.run, ticked, ran]
          · rw [List.flatten_cons, List.append_assoc, all, ← List.append_assoc,
              List.take_append_drop]
            rfl
          · exact List.forall_mem_cons.mpr ⟨List.length_take_le .., few⟩

/-- Ticks without arrivals hand out five frames each. -/
theorem Stands.ticks {x : XBeeDev} {final : Parse} {frames : List (List Byte)}
    (h : Stands x final frames) (n : Nat) :
    ∃ x' ticks, x.run (List.replicate n .tick) = some (.ok (x', ticks)) ∧
      ticks.flatten = frames.take (maxDispatchPerTick * n) ∧
      ∀ tick ∈ ticks, tick.length ≤ maxDispatchPerTick := by
  induction n generalizing x frames with
  | zero => exact ⟨x, [], rfl, by simp, by simp⟩
  | succ n ih =>
      obtain ⟨x₁, ticked, stands₁⟩ := h.tick
      obtain ⟨x', ticks, ran, all, few⟩ := ih stands₁
      refine ⟨x', frames.take maxDispatchPerTick :: ticks, ?_, ?_, ?_⟩
      · simp only [List.replicate_succ, XBeeDev.run, ticked, ran]
      · rw [List.flatten_cons, all, Nat.mul_succ, Nat.add_comm, List.take_add]
      · exact List.forall_mem_cons.mpr ⟨List.length_take_le .., few⟩

theorem run_append {x x₁ x₂ : XBeeDev} {events more : List Event}
    {ticks ticks' : List (List (List Byte))} (first : x.run events = some (.ok (x₁, ticks)))
    (second : x₁.run more = some (.ok (x₂, ticks'))) :
    x.run (events ++ more) = some (.ok (x₂, ticks ++ ticks')) := by
  induction events generalizing x ticks with
  | nil =>
      obtain ⟨rfl, rfl⟩ : x = x₁ ∧ [] = ticks := by simpa [run] using first
      exact second
  | cons event events ih =>
      cases event with
      | arrive bytes => exact ih first
      | tick =>
          simp only [run, List.cons_append] at first ⊢
          match ticked : x.tick with
          | none => simp [ticked] at first
          | some (.error e) => simp [ticked] at first
          | some (.ok (x', frames)) =>
              simp only [ticked] at first ⊢
              match ran : x'.run events with
              | none => simp [ran] at first
              | some (.error e) => simp [ran] at first
              | some (.ok (x'', later)) =>
                  simp only [ran, Option.some.injEq, Except.ok.injEq, Prod.mk.injEq] at first
                  obtain ⟨rfl, rfl⟩ := first
                  simp [ih ran]

/-- What is handed out is what a reader of the whole stream finds, as far as there are ticks. -/
theorem run_finds (events : List Event) (n : Nat) :
    ∃ x ticks, ({} : XBeeDev).run (events ++ List.replicate n .tick) = some (.ok (x, ticks)) ∧
      (∀ tick ∈ ticks, tick.length ≤ maxDispatchPerTick) ∧
      ticks.flatten <+: (scanner.feed .waitStart (line events)).2 ∧
      ((scanner.feed .waitStart (line events)).2.length ≤ maxDispatchPerTick * n →
        ticks.flatten = (scanner.feed .waitStart (line events)).2) := by
  have start : Stands {} .waitStart [] := ⟨⟨.waitStart, rfl, rfl⟩⟩
  obtain ⟨x₁, ticks₁, rest, ran₁, stands, all, few₁⟩ := start.run events
  obtain ⟨x₂, ticks₂, ran₂, more, few₂⟩ := stands.ticks n
  rw [List.nil_append] at all
  have dispatched : (ticks₁ ++ ticks₂).flatten =
      ticks₁.flatten ++ rest.take (maxDispatchPerTick * n) := by
    rw [List.flatten_append, more]
  refine ⟨x₂, ticks₁ ++ ticks₂, run_append ran₁ ran₂, ?_, ?_, fun enough => ?_⟩
  · exact List.forall_mem_append.mpr ⟨few₁, few₂⟩
  · rw [dispatched, ← all]
    exact (List.prefix_append_right_inj _).mpr (List.take_prefix _ _)
  · have few : rest.length ≤ maxDispatchPerTick * n := by
      rw [← all, List.length_append] at enough
      omega
    rw [dispatched, List.take_of_length_le few, all]

/-- Whatever arrives, in whatever pieces and between which ticks: the device never leaves its
    buffer, hands out at most five frames in a tick, and hands out, in order and once each,
    frames which stand in the stream with their lengths and checksums. Enough ticks after the
    last arrival hand out all of those which a reader of the whole stream finds. -/
theorem run_dispatches (events : List Event) (n : Nat) :
    ∃ x ticks, ({} : XBeeDev).run (events ++ List.replicate n .tick) = some (.ok (x, ticks)) ∧
      (∀ tick ∈ ticks, tick.length ≤ maxDispatchPerTick) ∧
      (∀ frame ∈ ticks.flatten, Fits frame.length) ∧
      Scanner.Occur encode ticks.flatten (line events) ∧
      ticks.flatten <+: (scanner.feed .waitStart (line events)).2 ∧
      ((scanner.feed .waitStart (line events)).2.length ≤ maxDispatchPerTick * n →
        ticks.flatten = (scanner.feed .waitStart (line events)).2) := by
  obtain ⟨x, ticks, ran, few, part, all⟩ := run_finds events n
  exact ⟨x, ticks, ran, few, fun frame inside => fits_of_mem (part.subset inside),
    (remembers.occur .waitStart (line events)).shorten part, part, all⟩

/-- Frames which have been written are handed out again, all of them and nothing else, exactly
    when none of them is shorter than two bytes or longer than the frame buffer. -/
theorem run_written_iff {frames : List (List Byte)} {events : List Event}
    (wire : Wire frames (line events)) {n : Nat} (enough : frames.length ≤ maxDispatchPerTick * n) :
    ∃ x ticks, ({} : XBeeDev).run (events ++ List.replicate n .tick) = some (.ok (x, ticks)) ∧
      (ticks.flatten = frames ↔ ∀ frame ∈ frames, Fits frame.length) := by
  obtain ⟨x, ticks, ran, -, part, all⟩ := run_finds events n
  refine ⟨x, ticks, ran, fun written frame inside => ?_, fun fits => ?_⟩
  · exact fits_of_mem (part.subset (written ▸ inside))
  · rw [wire.read fits] at all
    exact all enough

/-- The status of a modem, in two pieces and behind a byte which does not belong to it. -/
theorem run_written_iff_status :
    ∃ x ticks, ({} : XBeeDev).run
        [.arrive [0x11, 0x7E, 0], .tick, .arrive [2, 0x8A, 6, 0x6F], .tick] =
          some (.ok (x, ticks)) ∧
      (ticks.flatten = [[0x8A, 6]] ↔ ∀ frame ∈ [[(0x8A : Byte), 6]], Fits frame.length) :=
  have written : frameWrite ⟨true, 64, 0⟩ [] [0x8A, 6] = .ok [0x7E, 0, 2, 0x8A, 6, 0x6F] := rfl
  have wire : Wire [[0x8A, 6]] ([0x11] ++ [0x7E, 0, 2, 0x8A, 6, 0x6F] ++ []) :=
    .frame (by decide) written (.done (by decide))
  @run_written_iff _ [.arrive [0x11, 0x7E, 0], .tick, .arrive [2, 0x8A, 6, 0x6F]] wire 1 (by decide)

end XBeeDev

end VoxPopuli
