import VoxPopuli.Lib.Scanner
import VoxPopuli.Misc

/-! # The frames of the radio

`xbee_frame_write` puts a start marker, the length and a checksum around the bytes of a
frame. A reader which goes through a stream byte by byte finds the frames again if their
lengths are those it accepts, whatever else stands between them as long as it does not
look like the start of a frame; and it finds nothing which has not been written there.
-/

namespace VoxPopuli

namespace XBeeFrame

/-- The byte with which a frame starts. -/
def startByte : Byte := 0x7E

/-- `XBEE_MAX_FRAME_LEN`, which is `XBEE_MAX_RFPAYLOAD + 18`. -/
def maxFrameLen : Nat := 128 + 18

/-- `_xbee_checksum` of the first `length` bytes; `length` is counted down in one byte. -/
def checksum (bytes : List Byte) (length : Nat) (initial : Byte) : Byte :=
  (bytes.take (length % 256)).foldl (· - ·) initial

/-! ## Writing -/

/-- What `xbee_frame_write` finds of the serial port. -/
structure TxPort where
  cts : Bool := true
  free : Int
  used : Int

/-- The errors of `xbee_frame_write` for a port which is open. -/
inductive WriteError where
  | noData
  | busy
  | msgSize
  deriving DecidableEq, Repr

/-- `htobe16`. -/
def be16 (n : Nat) : List Byte := [Fin.ofNat 256 (n / 256), Fin.ofNat 256 n]

/-- `xbee_frame_write`, with the bytes it writes. The lengths are numbers of 16 bits. -/
def frameWrite (port : TxPort) (header data : List Byte) : Except WriteError (List Byte) :=
  let headerlen := header.length % 65536
  let datalen := data.length % 65536
  let framesize : Int := headerlen + datalen + 3 + 1
  if headerlen = 0 ∧ datalen = 0 then throw .noData
  else if !port.cts ∨ port.free < framesize then
    throw (if framesize - port.free > port.used then .msgSize else .busy)
  else
    let sum := checksum header headerlen 0xFF
    pure ([startByte] ++ be16 (headerlen + datalen) ++ header.take headerlen ++ data.take datalen ++
      [checksum data datalen sum])

/-- The bytes of a frame. -/
def encode (frame : List Byte) : List Byte :=
  [startByte] ++ be16 frame.length ++ frame ++ [checksum frame frame.length 0xFF]

/-! ## Reading -/

/-- The lengths which a reader accepts. -/
def Fits (length : Nat) : Prop := 2 ≤ length ∧ length ≤ maxFrameLen

instance : DecidablePred Fits := fun _ => inferInstanceAs (Decidable (_ ∧ _))

/-- What a reader knows of the frame it is in: in the end the bytes it has and how many
    are missing up to the checksum. -/
inductive Parse where
  | waitStart
  | lengthMsb
  | lengthLsb (msb : Byte)
  | rxFrame (body : List Byte) (left : Nat) (fits : Fits (body.length + left))

/-- The state after a byte which does not belong to a frame. -/
def Parse.seek (b : Byte) : Parse := if b = startByte then .lengthMsb else .waitStart

/-- The state after the length. -/
def Parse.start (msb lsb : Byte) : Parse :=
  if fits : Fits (msb.val * 256 + lsb.val) then
    .rxFrame [] (msb.val * 256 + lsb.val) (by simpa using fits)
  else .seek lsb

/-- A start marker in place of the length starts again. -/
def Parse.step : Parse → Byte → Parse × List (List Byte)
  | .waitStart, b => (.seek b, [])
  | .lengthMsb, b => (if b = startByte then .lengthMsb else .lengthLsb b, [])
  | .lengthLsb msb, b => (.start msb b, [])
  | .rxFrame body (left + 1) fits, b =>
      (.rxFrame (body ++ [b]) left (by simpa [Nat.add_assoc, Nat.add_comm 1] using fits), [])
  | .rxFrame body 0 _, b =>
      (.waitStart, if checksum (body ++ [b]) (body.length + 1) 0xFF = 0 then [body] else [])

def scanner : Scanner Parse Byte (List Byte) := ⟨Parse.step⟩

@[simp] theorem step_scanner (p : Parse) (b : Byte) : scanner.step p b = p.step b := rfl

/-! ## Checksums -/

theorem foldl_sub (bytes : List Byte) (initial : Byte) :
    bytes.foldl (· - ·) initial = initial - bytes.sum := by
  induction bytes generalizing initial with
  | nil => simp
  | cons b bytes ih => rw [List.foldl_cons, ih, List.sum_cons, sub_sub]

theorem checksum_eq {bytes : List Byte} {length : Nat} (all : bytes.length = length)
    (small : length < 256) (initial : Byte) :
    checksum bytes length initial = initial - bytes.sum := by
  rw [checksum, Nat.mod_eq_of_lt small, List.take_of_length_le all.le, foldl_sub]

/-- Only the checksum which has been written makes the whole vanish. -/
theorem checksum_concat {body : List Byte} (small : body.length < 255) (b : Byte) :
    checksum (body ++ [b]) (body.length + 1) 0xFF = 0 ↔ b = checksum body body.length 0xFF := by
  rw [checksum_eq (by simp) (by omega), checksum_eq rfl (by omega), List.sum_append,
    List.sum_singleton, ← sub_sub, sub_eq_zero, eq_comm]

theorem be16_eq (msb lsb : Byte) : be16 (msb.val * 256 + lsb.val) = [msb, lsb] := by
  have bound := lsb.isLt
  have high : (msb.val * 256 + lsb.val) / 256 = msb.val := by omega
  have low : (msb.val * 256 + lsb.val) % 256 = lsb.val := by omega
  rw [be16, high]
  congr 1
  · exact Fin.ext (Nat.mod_eq_of_lt msb.isLt)
  · exact congrArg (fun b => [b]) (Fin.ext low)

theorem be16_small {n : Nat} (small : n < 256) : be16 n = [0, ⟨n, small⟩] := by
  have split := be16_eq 0 ⟨n, small⟩
  simpa using split

/-! ## What a reader finds -/

theorem feed_waitStart {gap : List Byte} (free : startByte ∉ gap) :
    scanner.feed .waitStart gap = (.waitStart, []) := by
  induction gap with
  | nil => rfl
  | cons b gap ih =>
      obtain ⟨other, rest⟩ : startByte ≠ b ∧ startByte ∉ gap := by simpa using free
      have stays : scanner.step .waitStart b = (.waitStart, []) := by
        simp [scanner, Parse.step, Parse.seek, other.symm]
      rw [Scanner.feed_cons, stays, ih rest, List.nil_append]

/-- The bytes of a frame are collected. -/
theorem feed_rxFrame {body more : List Byte} {left : Nat}
    (fits : Fits (body.length + (more.length + left))) :
    scanner.feed (.rxFrame body (more.length + left) fits) more =
      (.rxFrame (body ++ more) left (by simpa [Nat.add_assoc] using fits), []) := by
  induction more generalizing body with
  | nil => simp
  | cons b more ih =>
      have taken : scanner.step (.rxFrame body ((b :: more).length + left) fits) b =
          (.rxFrame (body ++ [b]) (more.length + left)
            (by simpa [Nat.add_assoc, Nat.add_comm, Nat.add_left_comm] using fits), []) := by
        simp only [scanner, List.length_cons, Nat.add_right_comm more.length 1 left]
        rfl
      rw [Scanner.feed_cons, taken, ih]
      simp

/-- The last byte of a frame is its checksum. -/
theorem feed_complete {body more : List Byte} (fits : Fits (body.length + more.length)) (b : Byte) :
    scanner.feed (.rxFrame body more.length fits) (more ++ [b]) =
      (.waitStart, if checksum (body ++ more ++ [b]) ((body ++ more).length + 1) 0xFF = 0
        then [body ++ more] else []) := by
  have collected : scanner.feed (.rxFrame body more.length fits) more =
      (.rxFrame (body ++ more) 0 (by simpa using fits), []) := @feed_rxFrame body more 0 fits
  rw [Scanner.feed_append, collected, Scanner.feed_cons]
  simp [scanner, Parse.step]

theorem recognises_encode {frame : List Byte} (fits : Fits frame.length) :
    scanner.Recognises (· = .waitStart) (fun _ => True) (encode frame) [frame] := by
  rintro _ rfl
  have bound : frame.length ≤ 146 := fits.2
  have start : scanner.feed .waitStart ([startByte] ++ be16 frame.length) =
      (.rxFrame [] frame.length (by simpa using fits), []) := by
    rw [be16_small (by omega)]
    simp [Scanner.feed, scanner, Parse.step, Parse.seek, Parse.start, fits, startByte]
  have checked := (checksum_concat (by omega) (checksum frame frame.length 0xFF)).mpr rfl
  refine ⟨?_, ?_, scanner.stays_true _ _⟩ <;>
    rw [encode, List.append_assoc, Scanner.feed_append, start, feed_complete]
  simp [checked]

/-! ## Nothing else -/

/-- What a reader has put aside. -/
def Parse.aside : Parse → List Byte
  | .waitStart => []
  | .lengthMsb => [startByte]
  | .lengthLsb msb => [startByte, msb]
  | .rxFrame body left _ => [startByte] ++ be16 (body.length + left) ++ body

theorem Parse.aside_seek (b : Byte) (before : List Byte) : (seek b).aside <:+ before ++ [b] := by
  unfold seek
  split
  · rename_i start
    rw [start]
    exact List.suffix_append before _
  · exact List.nil_suffix

theorem remembers : scanner.Remembers encode Parse.aside where
  quiet p b _ := by
    cases p with
    | waitStart => exact Parse.aside_seek b []
    | lengthMsb =>
        simp only [scanner, Parse.step]
        split
        · rename_i start
          rw [start]
          exact ⟨[startByte], rfl⟩
        · exact ⟨[], rfl⟩
    | lengthLsb msb =>
        simp only [scanner, Parse.step, Parse.start]
        split
        · simp [Parse.aside, be16_eq]
        · exact Parse.aside_seek b _
    | rxFrame body left fits =>
        cases left with
        | zero => exact List.nil_suffix
        | succ left =>
            simp [scanner, Parse.step, Parse.aside, Nat.add_assoc, Nat.add_comm 1 left]
  output p b frame made := by
    cases p with
    | waitStart | lengthMsb | lengthLsb => cases made
    | rxFrame body left fits =>
        cases left with
        | succ left => cases made
        | zero =>
            have bound : body.length ≤ 146 := fits.2
            simp only [scanner, Parse.step] at made ⊢
            split at made
            · rename_i checked
              obtain rfl := List.mem_singleton.mp made
              have sum := (checksum_concat (by omega) b).mp checked
              refine ⟨if_pos checked, rfl, ?_⟩
              rw [encode, ← sum]
              exact List.suffix_rfl
            · cases made

/-- Everything which is found has a length which is accepted. -/
theorem fits_of_mem {p : Parse} {bytes frame : List Byte}
    (found : frame ∈ (scanner.feed p bytes).2) : Fits frame.length := by
  induction bytes generalizing p with
  | nil => cases found
  | cons b bytes ih =>
      rw [Scanner.feed_cons] at found
      rcases List.mem_append.mp found with now | later
      · cases p with
        | waitStart | lengthMsb | lengthLsb => cases now
        | rxFrame body left fits =>
            cases left with
            | succ left => cases now
            | zero =>
                simp only [scanner, Parse.step] at now
                split at now
                · obtain rfl := List.mem_singleton.mp now
                  exact fits
                · cases now
      · exact ih later

/-! ## Round trip -/

theorem frameWrite_fits {port : TxPort} {header data bytes : List Byte}
    (written : frameWrite port header data = .ok bytes) (fits : Fits (header ++ data).length) :
    bytes = encode (header ++ data) := by
  have bound : header.length + data.length ≤ 146 := by
    simpa [maxFrameLen] using fits.2
  have short : header.length % 65536 = header.length ∧ data.length % 65536 = data.length := by
    constructor <;> exact Nat.mod_eq_of_lt (by omega)
  rw [frameWrite, short.1, short.2] at written
  dsimp only at written
  split_ifs at written
  obtain rfl := Except.ok.inj written
  have sum : checksum data data.length (checksum header header.length 0xFF) =
      checksum (header ++ data) (header ++ data).length 0xFF := by
    rw [checksum_eq rfl (by omega), checksum_eq rfl (by omega),
      checksum_eq rfl (by simp; omega), List.sum_append, sub_sub]
  rw [encode, ← sum]
  simp

/-- What stands on the line when these frames are written: something without a start marker
    may come before each of them and at the end. -/
inductive Wire : List (List Byte) → List Byte → Prop
  | done {gap : List Byte} (free : startByte ∉ gap) : Wire [] gap
  | frame {gap : List Byte} (free : startByte ∉ gap) {port : TxPort} {header data bytes : List Byte}
      (written : frameWrite port header data = .ok bytes) {frames : List (List Byte)}
      {rest : List Byte} (later : Wire frames rest) :
      Wire ((header ++ data) :: frames) (gap ++ bytes ++ rest)

/-- Frames may be written one directly after the other. -/
theorem Wire.encode {frames : List (List Byte)} (fits : ∀ frame ∈ frames, Fits frame.length) :
    Wire frames (frames.flatMap XBeeFrame.encode) := by
  induction frames with
  | nil => exact .done (List.not_mem_nil)
  | cons frame frames ih =>
      obtain ⟨first, others⟩ := List.forall_mem_cons.mp fits
      have bound : frame.length ≤ 146 := first.2
      have filled : 2 ≤ frame.length := first.1
      have short : frame.length % 65536 = frame.length := Nat.mod_eq_of_lt (by omega)
      obtain ⟨bytes, written⟩ : ∃ bytes, frameWrite ⟨true, 150, 0⟩ [] frame = .ok bytes := by
        simp only [frameWrite, short]
        rw [if_neg fun empty => by omega, if_neg (by simp; omega)]
        exact ⟨_, rfl⟩
      have same := frameWrite_fits written first
      rw [List.nil_append] at same
      subst same
      exact .frame List.not_mem_nil written (ih others)

theorem recognises_gap {gap : List Byte} (free : startByte ∉ gap) :
    scanner.Recognises (· = .waitStart) (fun _ => True) gap [] := by
  rintro _ rfl
  rw [feed_waitStart free]
  exact ⟨rfl, rfl, scanner.stays_true _ _⟩

theorem Wire.recognises {frames : List (List Byte)} {stream : List Byte}
    (wire : Wire frames stream) (fits : ∀ frame ∈ frames, Fits frame.length) :
    scanner.Recognises (· = .waitStart) (fun _ => True) stream frames := by
  induction wire with
  | done free => exact recognises_gap free
  | frame free written later ih =>
      obtain ⟨first, others⟩ := List.forall_mem_cons.mp fits
      rw [frameWrite_fits written first]
      exact ((recognises_gap free).append (recognises_encode first)).append (ih others)

theorem Wire.read {frames : List (List Byte)} {stream : List Byte} (wire : Wire frames stream)
    (fits : ∀ frame ∈ frames, Fits frame.length) :
    scanner.feed .waitStart stream = (.waitStart, frames) := by
  obtain ⟨waits, all, -⟩ := wire.recognises fits .waitStart rfl
  exact Prod.ext waits all

end XBeeFrame

end VoxPopuli
