import VoxPopuli.HexData

/-! # Text as a format

`telnetWrite` hands its text to `telnet_printf` as the format, without arguments. A percent
sign starts a conversion specification, and what a specification prints depends on whatever
stands where its argument would be; a NUL ends the format. Everything else is sent as it is,
with the translation of line ends and of the telnet escape.
-/

namespace VoxPopuli

namespace Telnet

/-! ## The C library -/

def percent : Byte := 0x25

/-- Flags, width, precision and length of a conversion specification. -/
def isModifier (c : Byte) : Bool := c ∈ StdString.ofString "-+ #0'I123456789.*hlqLjzt$"

/-- What the specifications of a format print in a call without arguments, by their position
    and their text; nothing if the call does not come back. Only `%%` takes no argument. -/
structure VarArgs where
  convert : Nat → StdString → Option StdString
  convert_percent : ∀ k, convert k [percent, percent] = some [percent]

/-- The output of `vsnprintf` behind a part of the format: how many specifications there have
    been, and the one which has begun. -/
def format (args : VarArgs) : Nat → Option StdString → StdString → Option StdString
  | _, none, [] => some []
  | k, some spec, [] => args.convert k spec
  | k, none, c :: rest =>
      if c = percent then format args k (some [c]) rest
      else (c :: ·) <$> format args k none rest
  | k, some spec, c :: rest =>
      if isModifier c then format args k (some (spec ++ [c])) rest
      else do
        let out ← args.convert k (spec ++ [c])
        let more ← format args (k + 1) none rest
        return out ++ more

def INT_MAX : Nat := 2147483647

/-- The text which is stored in a buffer of `size` bytes, without the final NUL, and the
    length of the whole text, if an `int` holds it. -/
def vsnprintf (args : VarArgs) (size : Nat) (fmt : StdString) : Option (StdString × Nat) := do
  let text ← format args 0 none fmt
  if text.length ≤ INT_MAX then return (text.take (size - 1), text.length) else none

/-! ## libtelnet -/

def iac : Byte := 0xFF

/-- What is sent for a byte which is not sent as it is. -/
def special? (c : Byte) : Option StdString :=
  if c = iac then some [iac, iac]
  else if c = 0x0D then some [0x0D, 0]
  else if c = 0x0A then some [0x0D, 0x0A]
  else none

/-- The loop of `telnet_vprintf` with the bytes which have not been sent: the pieces which
    are handed to `_send`. -/
def sendLoop (waiting : StdString) : StdString → List StdString
  | [] => if waiting = [] then [] else [waiting]
  | c :: rest =>
      match special? c with
      | some escaped => (if waiting = [] then [] else [waiting]) ++ escaped :: sendLoop [] rest
      | none => sendLoop (waiting ++ [c]) rest

/-- `telnet_vprintf`. Output which does not fit the buffer is formatted again, in a buffer of
    `rs + 1` bytes; the sum is an `int`, and nothing is sent when it overflows. -/
def telnetVprintf (args : VarArgs) (fmt : StdString) : Option (List StdString) := do
  let (buffer, rs) ← vsnprintf args 1024 fmt
  if 1024 ≤ rs then
    guard (rs + 1 ≤ INT_MAX)
    let (output, _) ← vsnprintf args (rs + 1) fmt
    return sendLoop [] output
  else return sendLoop [] buffer

/-- The bytes of a text with telnet's translation of carriage returns, newlines and IAC. -/
def translate (text : StdString) : StdString := text.flatMap fun c => (special? c).getD [c]

end Telnet

/-- `telnetWrite`: the bytes which are transmitted. A C string ends before the first NUL. -/
def TelnetSocket.transmitted (args : Telnet.VarArgs) (data : QString) : Option StdString :=
  List.flatten <$> Telnet.telnetVprintf args (data.toStdString.takeWhile (· ≠ 0))

namespace Telnet

theorem flatten_sendLoop (waiting text : StdString) :
    (sendLoop waiting text).flatten = waiting ++ translate text := by
  have flush : ∀ s : StdString, (if s = [] then [] else [s]).flatten = s := by
    intro s
    split <;> simp_all
  induction text generalizing waiting with
  | nil => simp [sendLoop, translate, flush]
  | cons c rest ih =>
      rw [sendLoop, translate, List.flatMap_cons]
      cases found : special? c with
      | some escaped =>
          rw [List.flatten_append, flush, List.flatten_cons, ih]
          rfl
      | none =>
          rw [ih, List.append_assoc]
          rfl

/-- Whatever is printed is sent, translated, if the length of a buffer for it is an `int`. -/
theorem transmitted_eq (args : VarArgs) (fmt : StdString) :
    List.flatten <$> telnetVprintf args fmt = (format args 0 none fmt).bind fun text =>
      if text.length < INT_MAX then some (translate text) else none := by
  unfold telnetVprintf vsnprintf
  cases printed : format args 0 none fmt with
  | none => rfl
  | some text =>
      by_cases small : text.length < INT_MAX
      · by_cases long : 1024 ≤ text.length
        · simp [small, small.le, long, guard, flatten_sendLoop]
        · have whole : text.take (1024 - 1) = text := List.take_of_length_le (by omega)
          simp [small, small.le, long, flatten_sendLoop, whole]
      · by_cases same : text.length ≤ INT_MAX
        · have long : 1024 ≤ text.length := le_trans (by decide) (not_lt.mp small)
          simp [small, same, long, guard]
        · simp [small, same]

/-! ## Percent signs -/

theorem translate_append (s t : StdString) : translate (s ++ t) = translate s ++ translate t :=
  List.flatMap_append

theorem count_translate (text : StdString) :
    (translate text).count percent = text.count percent := by
  have one : ∀ c : Byte, (translate [c]).count percent = [c].count percent := by
    intro c
    rw [translate, List.flatMap_singleton]
    unfold special?
    split_ifs with escape carriage line
    · subst escape
      decide
    · subst carriage
      decide
    · subst line
      decide
    · rfl
  induction text with
  | nil => rfl
  | cons c rest ih =>
      rw [← List.singleton_append, translate_append, List.count_append, List.count_append, one, ih]

theorem length_le_translate (text : StdString) : text.length ≤ (translate text).length := by
  have one : ∀ c : Byte, 1 ≤ ((special? c).getD [c]).length := by
    intro c
    unfold special?
    split_ifs <;> simp
  induction text with
  | nil => rfl
  | cons c rest ih =>
      have first := one c
      rw [translate, List.flatMap_cons, List.length_append, List.length_cons]
      rw [translate] at ih
      omega

/-- Text without percent signs is printed as it is. -/
theorem format_plain (args : VarArgs) {fmt : StdString} (plain : percent ∉ fmt) (k : Nat) :
    format args k none fmt = some fmt := by
  induction fmt with
  | nil => rfl
  | cons c rest ih =>
      obtain ⟨other, plain⟩ := not_or.mp fun h => plain (List.mem_cons.mpr h)
      rw [format, if_neg (Ne.symm other), ih plain]
      rfl

/-- What is printed where every argument reads as zero. -/
def zeroConversion (spec : StdString) : Option StdString :=
  if spec = [percent, percent] then some [percent]
  else
    match spec.getLast? with
    | some 0x73 => some "(null)"
    | some 0x70 => some "(nil)"
    | some 0x63 => some [0]
    | some 0x6E => none
    | _ => some "0"

def zeros : VarArgs where
  convert _ := zeroConversion
  convert_percent _ := rfl

theorem count_zeroConversion {spec out : StdString} (printed : zeroConversion spec = some out) :
    out.count percent ≤ (spec.drop 1).count percent := by
  unfold zeroConversion at printed
  split at printed
  · rename_i double
    cases printed
    subst double
    decide
  · have none : out.count percent = 0 := by
      split at printed <;> cases printed <;> decide
    omega

/-- Every specification takes a percent sign which is not printed. -/
theorem count_format (k : Nat) (fmt : StdString) :
    (∀ out, format zeros k none fmt = some out → out.count percent ≤ fmt.count percent ∧
      (percent ∈ fmt → out.count percent < fmt.count percent)) ∧
    ∀ c spec out, format zeros k (some (c :: spec)) fmt = some out →
      out.count percent ≤ spec.count percent + fmt.count percent := by
  induction fmt generalizing k with
  | nil =>
      constructor
      · rintro out printed
        cases printed
        simp
      · intro c spec out printed
        have ended := count_zeroConversion (show zeroConversion (c :: spec) = some out from printed)
        simpa using ended
  | cons d rest ih =>
      constructor
      · intro out printed
        rw [format] at printed
        split at printed
        · rename_i starts
          subst starts
          have later := (ih k).2 percent [] out printed
          simp only [List.count_nil, List.count_cons_self] at later ⊢
          exact ⟨by omega, fun _ => by omega⟩
        · rename_i other
          obtain ⟨more, later, rfl⟩ := Option.map_eq_some_iff.mp printed
          obtain ⟨bound, strict⟩ := (ih k).1 more later
          rw [List.count_cons_of_ne other, List.count_cons_of_ne other]
          refine ⟨bound, fun member => strict ?_⟩
          exact (List.mem_cons.mp member).resolve_left (Ne.symm other)
      · intro c spec out printed
        rw [format] at printed
        split at printed
        · have later := (ih k).2 c (spec ++ [d]) out printed
          rw [List.count_append] at later
          rw [← List.singleton_append, List.count_append]
          omega
        · obtain ⟨one, converted, printed⟩ := Option.bind_eq_some_iff.mp printed
          obtain ⟨more, later, same⟩ := Option.bind_eq_some_iff.mp printed
          cases same
          have first := count_zeroConversion
            (show zeroConversion (c :: spec ++ [d]) = some one from converted)
          have bound := ((ih (k + 1)).1 more later).1
          simp only [List.cons_append, List.drop_succ_cons, List.drop_zero,
            List.count_append] at first ⊢
          rw [← List.singleton_append, List.count_append]
          omega

/-- A C string is sent literally exactly if it has no percent sign and is the whole text. -/
theorem sent_literally_iff (text : StdString) :
    (∀ args, List.flatten <$> telnetVprintf args (text.takeWhile (· ≠ 0)) =
        some (translate text)) ↔ percent ∉ text ∧ 0 ∉ text ∧ text.length < INT_MAX := by
  constructor
  · intro literal
    have sent := literal zeros
    rw [transmitted_eq] at sent
    have whole : text.takeWhile (· ≠ 0) ++ text.dropWhile (· ≠ 0) = text :=
      List.takeWhile_append_dropWhile
    have positive : (0 : Byte) ∉ text.takeWhile (· ≠ 0) := fun member => by
      simpa using List.mem_takeWhile_imp member
    generalize text.takeWhile (· ≠ 0) = fmt, text.dropWhile (· ≠ 0) = rest at *
    subst whole
    obtain ⟨out, printed, sent⟩ := Option.bind_eq_some_iff.mp sent
    split at sent
    · rename_i small
      have same := congrArg (List.count percent) (Option.some.inj sent)
      rw [count_translate, count_translate, List.count_append] at same
      obtain ⟨bound, strict⟩ := (count_format 0 fmt).1 out printed
      have plain : percent ∉ fmt := by
        intro member
        have fewer := strict member
        omega
      obtain rfl : fmt = out := by
        rw [format_plain zeros plain] at printed
        exact Option.some.inj printed
      -- Nothing is behind the end of the C string: it would be missing.
      have missing : translate rest = [] := by
        rw [translate_append] at sent
        simpa using sent
      have empty : rest = [] := by
        have length := length_le_translate rest
        rw [missing] at length
        exact List.length_eq_zero_iff.mp (by simpa using length)
      subst empty
      simpa using ⟨plain, positive, small⟩
    · cases sent
  · rintro ⟨plain, ends, small⟩ args
    have whole : text.takeWhile (· ≠ 0) = text := by
      rw [List.takeWhile_eq_self_iff]
      intro c member
      have other : c ≠ 0 := fun same => ends (same ▸ member)
      simpa using other
    rw [whole, transmitted_eq, format_plain args plain, Option.bind_some, if_pos small]

end Telnet

/-! ## Text as bytes -/

theorem QChar.mem_toUtf8 {b : Byte} (ascii : b.val < 0x80) (mark : b.val ≠ 63) (u : QChar) :
    b ∈ u.toUtf8 ↔ u.val = b.val := by
  have bound := u.isLt
  have byte := b.isLt
  unfold toUtf8
  split_ifs with one two half
  · simp only [List.mem_singleton, Fin.ext_iff, Fin.ofNat]
    omega
  · simp only [List.mem_cons, List.not_mem_nil, or_false, Fin.ext_iff, Fin.ofNat]
    omega
  · refine iff_of_false ?_ ?_
    · simp only [List.mem_singleton, Fin.ext_iff]
      exact mark
    · omega
  · simp only [List.mem_cons, List.not_mem_nil, or_false, Fin.ext_iff, Fin.ofNat]
    omega

theorem QChar.notMem_pairToUtf8 {b : Byte} (ascii : b.val < 0x80) {high low : QChar}
    (first : high.isHighSurrogate) (second : low.isLowSurrogate) : b ∉ pairToUtf8 high low := by
  simp only [isHighSurrogate, isLowSurrogate, decide_eq_true_eq] at first second
  simp only [pairToUtf8, List.mem_cons, List.not_mem_nil, or_false, Fin.ext_iff, Fin.ofNat]
  omega

/-- An ASCII character stands in a text where its byte stands in the UTF-8 of the text. -/
theorem QString.mem_toStdString {b : Byte} (ascii : b.val < 0x80) (mark : b.val ≠ 63)
    (s : QString) : b ∈ s.toStdString ↔ ∃ u ∈ s, u.val = b.val := by
  induction s using QString.toStdString.induct with
  | case1 => simp [toStdString]
  | case2 u => simp [toStdString, QChar.mem_toUtf8 ascii mark]
  | case3 u v rest pair ih =>
      have absent := QChar.notMem_pairToUtf8 ascii pair.1 pair.2
      obtain ⟨high, low⟩ : u.val ≠ b.val ∧ v.val ≠ b.val := by
        obtain ⟨first, second⟩ := pair
        simp only [QChar.isHighSurrogate, QChar.isLowSurrogate, decide_eq_true_eq] at first second
        omega
      rw [toStdString, if_pos pair, List.mem_append, or_iff_right absent, ih]
      simp [high, low]
  | case4 u v rest pair ih =>
      rw [toStdString, if_neg pair, List.mem_append, QChar.mem_toUtf8 ascii mark, ih]
      simp

namespace TelnetSocket

open Telnet

/-- What is transmitted is the text, whatever stands where arguments would be. -/
def Literal (data : QString) : Prop :=
  ∀ args, transmitted args data = some (translate data.toStdString)

/-- An argument which reads as one. -/
def one : VarArgs where
  convert _ spec := if spec = [percent, percent] then some [percent] else some "1"
  convert_percent _ := rfl

end TelnetSocket

end VoxPopuli
