import VoxPopuli.HexData

/-! # Hexadecimal text, written and read

`intToHexStr` and `hexStrToInt` are two tables of digits and a loop each. What is written is
read back; of the texts which are read only those in capitals give the bytes they stand for,
since a small letter reads as 0.
-/

namespace VoxPopuli

/-- The character of a digit. -/
def hexChar (value : Nat) : Byte := Fin.ofNat 256 (intToHex value).toNat

/-- `intToHexStr`. -/
def HexData.toHexStr (d : HexData) : StdString :=
  d.flatMap fun b => [hexChar (b.val / 16), hexChar (b.val % 16)]

/-- `str.at(i)`. -/
def StdString.at (str : StdString) (i : Nat) : Except Fault Byte :=
  match str[i]? with
  | some c => pure c
  | none => throw .outOfRange

/-- `hexStrToInt` as the loop over the indices, with sums of bytes. -/
def hexStrToIntLoop (str : StdString) : Except Fault (List Byte) :=
  (List.range (str.length / 2)).mapM fun i => do
    let high ← str.at (2 * i)
    let low ← str.at (2 * i + 1)
    pure (0 + Fin.ofNat 256 (hexToInt high * 16) + Fin.ofNat 256 (hexToInt low))

/-! ## What a text stands for -/

/-- The value of a hexadecimal digit, of either case. -/
def hexValue? (c : Byte) : Option Nat :=
  if 48 ≤ c.val ∧ c.val ≤ 57 then some (c.val - 48)
  else if 65 ≤ c.val ∧ c.val ≤ 70 then some (c.val - 55)
  else if 97 ≤ c.val ∧ c.val ≤ 102 then some (c.val - 87)
  else none

/-- The bytes of a text with two digits a byte. -/
def denoted? : StdString → Option (List Byte)
  | [] => some []
  | [_] => none
  | c :: d :: rest => do
      let high ← hexValue? c
      let low ← hexValue? d
      let more ← denoted? rest
      return Fin.ofNat 256 (high * 16 + low) :: more

def isSmallLetter (c : Byte) : Prop := 97 ≤ c.val ∧ c.val ≤ 122

instance : DecidablePred isSmallLetter := fun _ => inferInstanceAs (Decidable (_ ∧ _))

def StdString.toUpper (s : StdString) : StdString :=
  s.map fun c => if isSmallLetter c then Fin.ofNat 256 (c.val - 32) else c

/-! ## The loop -/

theorem hexStrToIntLoop_cons (c d : Byte) (rest : StdString) :
    hexStrToIntLoop (c :: d :: rest) =
      (hexStrToIntLoop rest).map (Fin.ofNat 256 (hexToInt c * 16 + hexToInt d) :: ·) := by
  have sum : (0 + Fin.ofNat 256 (hexToInt c * 16) + Fin.ofNat 256 (hexToInt d) : Byte) =
      Fin.ofNat 256 (hexToInt c * 16 + hexToInt d) := by
    rw [Fin.ext_iff]
    show ((0 + hexToInt c * 16 % 256) % 256 + hexToInt d % 256) % 256 =
      (hexToInt c * 16 + hexToInt d) % 256
    omega
  have half : (c :: d :: rest).length / 2 = rest.length / 2 + 1 := by
    simp only [List.length_cons]
    omega
  -- Behind the first two characters every index moves by two.
  have later : ∀ i, StdString.at (c :: d :: rest) (2 * (i + 1)) = StdString.at rest (2 * i) ∧
      StdString.at (c :: d :: rest) (2 * (i + 1) + 1) = StdString.at rest (2 * i + 1) :=
    fun i => ⟨rfl, rfl⟩
  unfold hexStrToIntLoop
  rw [half, List.range_succ_eq_map, List.mapM_cons, List.mapM_map]
  simp only [Nat.succ_eq_add_one, Function.comp_def, later]
  rw [← sum]
  rfl

/-- The loop stays within the text, and is the reading by pairs. -/
theorem hexStrToIntLoop_eq (str : StdString) : hexStrToIntLoop str = .ok (hexStrToInt str) := by
  induction str using hexStrToInt.induct with
  | case1 c d rest ih =>
      rw [hexStrToIntLoop_cons, ih]
      rfl
  | case2 str short =>
      cases str with
      | nil => rfl
      | cons c str =>
          cases str with
          | nil => simp [hexStrToIntLoop, hexStrToInt, pure, Except.pure]
          | cons d str => exact absurd rfl (short c d str)

/-! ## Digits -/

theorem hexValue?_hexChar : ∀ n < 16, hexValue? (hexChar n) = some n ∧ (hexChar n).val < 97 := by
  decide

theorem hexChar_val : ∀ n < 16, (hexChar n).val = if n < 10 then n + 48 else n + 55 := by
  decide

/-- What the code reads of a digit: nothing of a small letter. -/
theorem hexToInt_of_hexValue? {c : Byte} {n : Nat} (digit : hexValue? c = some n) :
    n < 16 ∧ (isSmallLetter c ↔ 97 ≤ c.val) ∧ (97 ≤ c.val → 10 ≤ n) ∧
      hexToInt c = if 97 ≤ c.val then 0 else n := by
  unfold hexValue? at digit
  unfold hexToInt isSmallLetter
  split_ifs at digit with number capital small
  · cases digit
    refine ⟨by omega, by omega, by omega, ?_⟩
    rw [if_pos number, if_neg (by omega)]
  · cases digit
    refine ⟨by omega, by omega, by omega, ?_⟩
    rw [if_neg number, if_pos capital, if_neg (by omega)]
  · cases digit
    refine ⟨by omega, by omega, by omega, ?_⟩
    rw [if_neg number, if_neg capital, if_pos small.1]

/-- The digit which is written for a value is the capital form of each digit with that value. -/
theorem hexChar_of_hexValue? {c : Byte} {n : Nat} (digit : hexValue? c = some n) :
    hexChar n = if isSmallLetter c then Fin.ofNat 256 (c.val - 32) else c := by
  obtain ⟨small, -, -, -⟩ := hexToInt_of_hexValue? digit
  rw [Fin.ext_iff, hexChar_val n small]
  unfold hexValue? at digit
  split_ifs at digit with number capital small
  · have plain : ¬isSmallLetter c := fun letter => absurd letter.1 (by omega)
    cases digit
    rw [if_pos (by omega), if_neg plain]
    omega
  · have plain : ¬isSmallLetter c := fun letter => absurd letter.1 (by omega)
    cases digit
    rw [if_neg (by omega), if_neg plain]
    omega
  · have letter : isSmallLetter c := ⟨small.1, by omega⟩
    cases digit
    rw [if_neg (by omega), if_pos letter]
    show c.val - 87 + 55 = (c.val - 32) % 256
    omega

theorem isSome_denoted? {s : StdString} (even : s.length % 2 = 0)
    (digits : ∀ c ∈ s, (hexValue? c).isSome) : ∃ bytes, denoted? s = some bytes := by
  induction s using denoted?.induct with
  | case1 => exact ⟨[], rfl⟩
  | case2 c => simp at even
  | case3 c d rest ih =>
      obtain ⟨high, first⟩ := Option.isSome_iff_exists.mp (digits c (by simp))
      obtain ⟨low, second⟩ := Option.isSome_iff_exists.mp (digits d (by simp))
      obtain ⟨more, later⟩ := ih (by simp only [List.length_cons] at even; omega)
        fun x member => digits x (by simp [member])
      exact ⟨Fin.ofNat 256 (high * 16 + low) :: more, by simp [denoted?, first, second, later]⟩

theorem length_of_denoted? {s : StdString} {bytes : List Byte} (hex : denoted? s = some bytes) :
    s.length = 2 * bytes.length := by
  induction s using denoted?.induct generalizing bytes with
  | case1 =>
      cases hex
      rfl
  | case2 c => simp [denoted?] at hex
  | case3 c d rest ih =>
      simp only [denoted?, Option.bind_eq_bind, Option.bind_eq_some_iff] at hex
      obtain ⟨high, first, low, second, more, later, same⟩ := hex
      cases same
      simp only [List.length_cons, ih later]
      omega

/-! ## Reading what stands there -/

/-- Two digits give the byte they stand for when neither of them is a small letter. -/
theorem pair_eq_iff {c d : Byte} {high low : Nat} (first : hexValue? c = some high)
    (second : hexValue? d = some low) :
    Fin.ofNat 256 (hexToInt c * 16 + hexToInt d) = Fin.ofNat 256 (high * 16 + low) ↔
      ¬isSmallLetter c ∧ ¬isSmallLetter d := by
  obtain ⟨smallHigh, letter, big, read⟩ := hexToInt_of_hexValue? first
  obtain ⟨smallLow, letter', big', read'⟩ := hexToInt_of_hexValue? second
  rw [letter, letter', read, read', Fin.ext_iff]
  show ((if 97 ≤ c.val then 0 else high) * 16 + (if 97 ≤ d.val then 0 else low)) % 256 =
    (high * 16 + low) % 256 ↔ ¬97 ≤ c.val ∧ ¬97 ≤ d.val
  split_ifs <;> omega

theorem hexStrToInt_eq_iff {s : StdString} {bytes : List Byte} (hex : denoted? s = some bytes) :
    hexStrToInt s = bytes ↔ ∀ c ∈ s, ¬isSmallLetter c := by
  induction s using denoted?.induct generalizing bytes with
  | case1 =>
      cases hex
      simp [hexStrToInt]
  | case2 c => simp [denoted?] at hex
  | case3 c d rest ih =>
      simp only [denoted?, Option.bind_eq_bind, Option.bind_eq_some_iff] at hex
      obtain ⟨high, first, low, second, more, later, same⟩ := hex
      cases same
      simp only [hexStrToInt, List.cons.injEq, pair_eq_iff first second, ih later,
        List.forall_mem_cons, and_assoc]

/-- The bytes a text stands for are written as the text in capitals. -/
theorem toHexStr_of_denoted? {s : StdString} {bytes : List Byte} (hex : denoted? s = some bytes) :
    HexData.toHexStr bytes = s.toUpper := by
  induction s using denoted?.induct generalizing bytes with
  | case1 =>
      cases hex
      rfl
  | case2 c => simp [denoted?] at hex
  | case3 c d rest ih =>
      simp only [denoted?, Option.bind_eq_bind, Option.bind_eq_some_iff] at hex
      obtain ⟨high, first, low, second, more, later, same⟩ := hex
      cases same
      have smallHigh := (hexToInt_of_hexValue? first).1
      have smallLow := (hexToInt_of_hexValue? second).1
      have val : (Fin.ofNat 256 (high * 16 + low)).val = high * 16 + low :=
        Nat.mod_eq_of_lt (by omega)
      have upper : (high * 16 + low) / 16 = high := by omega
      have lower : (high * 16 + low) % 16 = low := by omega
      have tail := ih later
      simp only [HexData.toHexStr, StdString.toUpper] at tail
      simp only [HexData.toHexStr, StdString.toUpper, List.flatMap_cons, List.map_cons, val, upper,
        lower, hexChar_of_hexValue? first, hexChar_of_hexValue? second, tail, List.cons_append,
        List.nil_append]

theorem hexStrToInt_toHexStr (v : List Byte) : hexStrToInt (HexData.toHexStr v) = v := by
  induction v with
  | nil => rfl
  | cons b v ih =>
      have high := hexValue?_hexChar (b.val / 16) (by omega)
      have low := hexValue?_hexChar (b.val % 16) (by omega)
      have capital : ∀ {n}, (hexChar n).val < 97 → ¬isSmallLetter (hexChar n) :=
        fun small letter => absurd letter.1 (by omega)
      have byte := (pair_eq_iff high.1 low.1).mpr ⟨capital high.2, capital low.2⟩
      have same : Fin.ofNat 256 (b.val / 16 * 16 + b.val % 16) = b := by
        rw [Nat.div_add_mod']
        exact Fin.ofNat_val_eq_self b
      show Fin.ofNat 256 (hexToInt (hexChar (b.val / 16)) * 16 + hexToInt (hexChar (b.val % 16))) ::
        hexStrToInt (HexData.toHexStr v) = b :: v
      rw [byte, same, ih]

/-- The text as the daemon keeps it, of an address for instance, is the same characters. -/
theorem toStdString_intToHexStr (v : List Byte) :
    (intToHexStr v).toStdString = HexData.toHexStr v := by
  have ascii : ∀ n < 16, (QChar.ofChar (intToHex n)).val < 0x80 ∧
      Fin.ofNat 256 (QChar.ofChar (intToHex n)).val = hexChar n := by
    decide
  rw [QString.toStdString_of_ascii]
  · induction v with
    | nil => rfl
    | cons b v ih =>
        have high := (ascii (b.val / 16) (by omega)).2
        have low := (ascii (b.val % 16) (by omega)).2
        show Fin.ofNat 256 (QChar.ofChar (intToHex (b.val / 16))).val ::
          Fin.ofNat 256 (QChar.ofChar (intToHex (b.val % 16))).val ::
            (intToHexStr v).map (fun u => Fin.ofNat 256 u.val) = _
        rw [high, low, ih]
        rfl
  · intro c member
    obtain ⟨b, -, digit⟩ := List.mem_flatMap.mp member
    rcases List.mem_pair.mp digit with rfl | rfl
    · exact (ascii _ (by omega)).1
    · exact (ascii _ (by omega)).1

/-- The two functions as a codec: all bytes come back, and of the texts with two digits a byte
    exactly those without small letters are read as the bytes they stand for, which are then
    written as the same text in capitals. -/
theorem hexCodec_iff (v : List Byte) {s : StdString} (even : s.length % 2 = 0)
    (digits : ∀ c ∈ s, (hexValue? c).isSome) :
    hexStrToInt (HexData.toHexStr v) = v ∧
      ((denoted? s = some (hexStrToInt s) ∧ HexData.toHexStr (hexStrToInt s) = s.toUpper) ↔
        ∀ c ∈ s, ¬isSmallLetter c) := by
  refine ⟨hexStrToInt_toHexStr v, ?_⟩
  obtain ⟨bytes, hex⟩ := isSome_denoted? even digits
  rw [← hexStrToInt_eq_iff hex, hex, Option.some.injEq]
  constructor
  · intro ⟨same, _⟩
    exact same.symm
  · intro same
    exact ⟨same.symm, same ▸ toHexStr_of_denoted? hex⟩

theorem hexCodec_iff_capitals :
    hexStrToInt (HexData.toHexStr [0, 255]) = [0, 255] ∧
      ((denoted? [51, 67] = some (hexStrToInt [51, 67]) ∧
          HexData.toHexStr (hexStrToInt [51, 67]) = StdString.toUpper [51, 67]) ↔
        ∀ c ∈ ([51, 67] : StdString), ¬isSmallLetter c) :=
  hexCodec_iff [0, 255] (by decide) (by simp [hexValue?])

/-- `3c` is read as `30`. -/
theorem smallLetters_misread :
    ¬∀ s : StdString, s.length % 2 = 0 → (∀ c ∈ s, (hexValue? c).isSome) →
      denoted? s = some (hexStrToInt s) ∧ HexData.toHexStr (hexStrToInt s) = s.toUpper := by
  intro exact
  have read := (exact [51, 99] (by decide) (by simp [hexValue?])).1
  exact absurd read (by decide)

end VoxPopuli
