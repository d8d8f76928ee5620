import VoxPopuli.Lib.Rows

/-! # Qt values

The part of Qt's value types which the daemon computes with. A `QString` is its
UTF-16 code units, so lengths, indices and character codes are the ones the code
sees; `QMap` and `QJsonObject` iterate in key order. Numbers of a JSON document
are rationals: every double is one, and the daemon only stores integers.
-/

namespace VoxPopuli

/-! ## Characters and strings -/

/-- One UTF-16 code unit. -/
abbrev QChar := Fin 65536

/-- `uint8_t`, also the `char` of a `std::string`. -/
abbrev Byte := Fin 256

abbrev QString := List QChar

abbrev QStringList := List QString

instance QChar.neZero : NeZero 65536 := ⟨by decide⟩

instance Byte.neZero : NeZero 256 := ⟨by decide⟩

instance QChar.lawfulBEq : LawfulBEq QChar := inferInstance

instance Byte.lawfulBEq : LawfulBEq Byte := inferInstance

instance QString.lawfulBEq : LawfulBEq QString := inferInstance

def QChar.ofChar (c : Char) : QChar := Fin.ofNat 65536 c.toNat

instance : Coe Char QChar := ⟨QChar.ofChar⟩

def QString.ofString (s : String) : QString := s.toList.map QChar.ofChar

instance : Coe String QString := ⟨QString.ofString⟩

def QChar.isSpace (c : QChar) : Bool :=
  (9 ≤ c.val ∧ c.val ≤ 13) ∨ c.val = 0x20 ∨ c.val = 0x85 ∨ c.val = 0xA0 ∨ c.val = 0x1680 ∨
    (0x2000 ≤ c.val ∧ c.val ≤ 0x200A) ∨ c.val = 0x2028 ∨ c.val = 0x2029 ∨ c.val = 0x202F ∨
    c.val = 0x205F ∨ c.val = 0x3000

def QChar.digit? (c : QChar) : Option Nat :=
  if 48 ≤ c.val ∧ c.val ≤ 57 then some (c.val - 48) else none

namespace QString

/-- Position of the first occurrence, `-1` when there is none. -/
def indexOf (s : QString) (c : QChar) : Int :=
  match s.idxOf? c with
  | some i => i
  | none => -1

/-- Position of the last occurrence, `-1` when there is none. -/
def lastIndexOf (s : QString) (c : QChar) : Int :=
  match s.reverse.idxOf? c with
  | some i => s.length - 1 - i
  | none => -1

/-- A negative count selects the whole string. -/
def left (s : QString) (n : Int) : QString := if n < 0 then s else s.take n.toNat

def mid (s : QString) (position : Int) : QString := s.drop position.toNat

/-- `split` with `SkipEmptyParts`. -/
def splitSkipEmpty (s : QString) (sep : QChar) : QStringList :=
  (s.splitOn sep).filter fun part => !part.isEmpty

def trimmed (s : QString) : QString :=
  ((s.dropWhile QChar.isSpace).reverse.dropWhile QChar.isSpace).reverse

def digits? (s : QString) : Option Nat :=
  if s.isEmpty then none
  else s.foldl (fun n? c => do return 10 * (← n?) + (← QChar.digit? c)) (some 0)

/-- An optional sign and digits, with spaces around them. -/
def signedDigits? (s : QString) : Option Int :=
  match s.trimmed with
  | [] => none
  | c :: rest =>
      if c = '-' then (digits? rest).map fun n => -(n : Int)
      else if c = '+' then (digits? rest).map Int.ofNat
      else (digits? (c :: rest)).map Int.ofNat

/-- `toInt(&ok)`: `none` is `ok == false`, with the value 0. -/
def toInt? (s : QString) : Option Int :=
  (signedDigits? s).filter fun n => -2 ^ 31 ≤ n ∧ n < 2 ^ 31

def toInt (s : QString) : Int := s.toInt?.getD 0

/-- `setNum` of a natural number. -/
def ofNat (n : Nat) : QString := (Nat.toDigits 10 n).map QChar.ofChar

/-- `setNum` of an integer. -/
def ofInt : Int → QString
  | .ofNat n => ofNat n
  | .negSucc n => ('-' : QChar) :: ofNat (n + 1)

/-! Numbers written and read back. -/

/-- The characters of a written number are digits. -/
theorem digit?_of_mem_ofNat {n : Nat} {c : QChar} (member : c ∈ ofNat n) : c.digit?.isSome := by
  obtain ⟨d, isDigit, rfl⟩ := List.mem_map.mp member
  have range := Nat.isDigit_of_mem_toDigits (by decide) (by decide) isDigit
  simp only [Char.isDigit, Bool.and_eq_true, decide_eq_true_eq] at range
  have low : 48 ≤ d.toNat := range.1
  have high : d.toNat ≤ 57 := range.2
  have val : (QChar.ofChar d).val = d.toNat := Nat.mod_eq_of_lt (by omega)
  simp [QChar.digit?, val, low, high]

theorem foldl_digits {cs : List Char} (digits : ∀ c ∈ cs, c.isDigit) (acc : Nat) :
    (cs.map QChar.ofChar).foldl
      (fun n? c => do return 10 * (← n?) + (← QChar.digit? c)) (some acc) =
        some (Nat.ofDigitChars 10 cs acc) := by
  induction cs generalizing acc with
  | nil => rfl
  | cons c cs ih =>
      have range := digits c List.mem_cons_self
      simp only [Char.isDigit, Bool.and_eq_true, decide_eq_true_eq] at range
      have low : 48 ≤ c.toNat := range.1
      have high : c.toNat ≤ 57 := range.2
      have val : (QChar.ofChar c).val = c.toNat := Nat.mod_eq_of_lt (by omega)
      have digit : QChar.digit? (QChar.ofChar c) = some (c.toNat - 48) := by
        simp [QChar.digit?, val, low, high]
      rw [List.map_cons, List.foldl_cons, digit]
      exact ih (fun d member => digits d (List.mem_cons_of_mem c member)) _

theorem digits?_ofNat (n : Nat) : digits? (ofNat n) = some n := by
  have nonempty : (ofNat n).isEmpty = false := by
    simp [ofNat, Nat.toDigits_ne_nil]
  have read := foldl_digits
    (fun c (member : c ∈ Nat.toDigits 10 n) =>
      Nat.isDigit_of_mem_toDigits (by decide) (by decide) member) 0
  rw [Nat.ofDigitChars_ten_toDigits] at read
  simp only [digits?, nonempty, Bool.false_eq_true, if_false]
  exact read

theorem ofNat_injective : Function.Injective ofNat := by
  intro m n same
  simpa [digits?_ofNat] using congrArg digits? same

theorem not_isSpace_of_digit {c : QChar} (digit : c.digit?.isSome) : c.isSpace = false := by
  simp only [QChar.digit?, Option.isSome_ite] at digit
  obtain ⟨low, high⟩ := digit
  simp only [QChar.isSpace, decide_eq_false_iff_not]
  omega

/-- A text whose ends are no spaces is its own trimmed text. -/
theorem trimmed_of_not_isSpace {s : QString} (solid : ∀ c ∈ s, c.isSpace = false) :
    s.trimmed = s := by
  have drop : ∀ t : QString, (∀ c ∈ t, c.isSpace = false) → t.dropWhile QChar.isSpace = t := by
    intro t solid
    cases t with
    | nil => rfl
    | cons c t => simp [solid c List.mem_cons_self]
  rw [trimmed, drop s solid, drop s.reverse (by simpa using solid), List.reverse_reverse]

/-! The characters of a text which reads as a number. -/

theorem digit?_of_digits? {s : QString} {n : Nat} (read : digits? s = some n) {c : QChar}
    (member : c ∈ s) : c.digit?.isSome := by
  have fails : ∀ t : QString, t.foldl
      (fun n? c => do return 10 * (← n?) + (← QChar.digit? c)) none = none := by
    intro t
    induction t with
    | nil => rfl
    | cons d t ih => exact ih
  have inside : ∀ (t : QString) (acc : Option Nat), c ∈ t → (t.foldl
      (fun n? c => do return 10 * (← n?) + (← QChar.digit? c)) acc).isSome → c.digit?.isSome := by
    intro t
    induction t with
    | nil => exact fun acc member => absurd member List.not_mem_nil
    | cons d t ih =>
        intro acc member finished
        rw [List.foldl_cons] at finished
        rcases List.mem_cons.mp member with same | later
        · subst same
          cases digit : c.digit? with
          | some m => rfl
          | none =>
              have stuck : (do return 10 * (← acc) + (← QChar.digit? c) : Option Nat) = none := by
                cases acc <;> simp [digit]
              rw [stuck, fails] at finished
              cases finished
        · exact ih _ later finished
  unfold digits? at read
  split at read
  · cases read
  · exact inside s (some 0) member (read ▸ rfl)

theorem signedDigits?_of_digits? {s : QString} {n : Nat} (read : digits? s = some n) :
    signedDigits? s = some (n : Int) := by
  have trim : s.trimmed = s :=
    trimmed_of_not_isSpace fun c member => not_isSpace_of_digit (digit?_of_digits? read member)
  cases s with
  | nil => cases read
  | cons c rest =>
      have digit : c.digit?.isSome := digit?_of_digits? read List.mem_cons_self
      have minus : c ≠ ('-' : QChar) := by
        rintro rfl
        exact absurd digit (by decide)
      have plus : c ≠ ('+' : QChar) := by
        rintro rfl
        exact absurd digit (by decide)
      simp [signedDigits?, trim, minus, plus, read]

/-- Digits read as their number when it is in the range of an `int`. -/
theorem toInt?_of_digits? {s : QString} {n : Nat} (read : digits? s = some n) :
    toInt? s = if (n : Int) < 2 ^ 31 then some (n : Int) else none := by
  have low : (-2 ^ 31 : Int) ≤ n := le_trans (by norm_num) (Int.natCast_nonneg n)
  rw [toInt?, signedDigits?_of_digits? read]
  split
  · rename_i small
    exact Option.filter_some_pos (decide_eq_true ⟨low, small⟩)
  · rename_i large
    exact Option.filter_some_neg (by simpa using Int.not_lt.mp large)

theorem toInt?_ofNat {n : Nat} (small : (n : Int) < 2 ^ 31) :
    toInt? (ofNat n) = some (n : Int) := by
  rw [toInt?_of_digits? (digits?_ofNat n), if_pos small]

theorem mem_trimmed {s : QString} {c : QChar} (member : c ∈ s) (solid : c.isSpace = false) :
    c ∈ s.trimmed := by
  have keeps : ∀ t : QString, c ∈ t → c ∈ t.dropWhile QChar.isSpace := by
    intro t member
    have both := List.takeWhile_append_dropWhile (p := QChar.isSpace) (l := t)
    rw [← both, List.mem_append] at member
    rcases member with taken | dropped
    · exact absurd (List.mem_takeWhile_imp taken) (by simp [solid])
    · exact dropped
  rw [trimmed, List.mem_reverse]
  exact keeps _ (List.mem_reverse.mpr (keeps s member))

theorem mem_of_toInt? {s : QString} {n : Int} (read : s.toInt? = some n) {c : QChar}
    (member : c ∈ s) : c.isSpace ∨ c.digit?.isSome ∨ c = '-' ∨ c = '+' := by
  have digit : ∀ t : QString, (digits? t).isSome → c ∈ t → c.digit?.isSome := by
    intro t number inside
    obtain ⟨m, digits⟩ := Option.isSome_iff_exists.mp number
    exact digit?_of_digits? digits inside
  cases space : c.isSpace with
  | true => exact .inl rfl
  | false =>
      have inside := mem_trimmed member space
      obtain ⟨signed, -⟩ := Option.filter_eq_some_iff.mp read
      have number : (signedDigits? s).isSome := by simp [signed]
      unfold signedDigits? at number
      split at number
      · cases number
      · rename_i d rest text
        rw [text] at inside
        split at number
        · rename_i minus
          rcases List.mem_cons.mp inside with same | later
          · exact .inr (.inr (.inl (same.trans minus)))
          · refine .inr (.inl (digit rest ?_ later))
            cases digits : digits? rest with
            | none => simp [digits] at number
            | some m => rfl
        · split at number
          · rename_i plus
            rcases List.mem_cons.mp inside with same | later
            · exact .inr (.inr (.inr (same.trans plus)))
            · exact .inr (.inl (digit rest (by simpa using number) later))
          · exact .inr (.inl (digit (d :: rest) (by simpa using number) inside))

/-! Searches in a text which is known around the character. -/

theorem indexOf_append_cons {c : QChar} {before : QString} (absent : c ∉ before)
    (after : QString) : (before ++ c :: after).indexOf c = before.length := by
  have found : (before ++ c :: after).idxOf? c = some before.length := by
    induction before with
    | nil => simp [List.idxOf?_cons]
    | cons x before ih =>
        have ⟨different, absent⟩ : c ≠ x ∧ c ∉ before := by simpa using absent
        simp [List.idxOf?_cons, different.symm, ih absent]
  simp [indexOf, found]

theorem indexOf_of_not_mem {c : QChar} {s : QString} (absent : c ∉ s) : s.indexOf c = -1 := by
  simp [indexOf, List.idxOf?_eq_none_iff.mpr absent]

theorem lastIndexOf_append_cons {c : QChar} {after : QString} (absent : c ∉ after)
    (before : QString) : (before ++ c :: after).lastIndexOf c = before.length := by
  have absent' : c ∉ after.reverse := by simpa using absent
  have found := indexOf_append_cons absent' before.reverse
  simp only [indexOf, List.length_reverse] at found
  have reversed : (before ++ c :: after).reverse = after.reverse ++ c :: before.reverse := by simp
  simp only [lastIndexOf, reversed]
  cases position : (after.reverse ++ c :: before.reverse).idxOf? c with
  | none => simp [position] at found
  | some i =>
      simp only [position] at found
      simp only [List.length_append, List.length_cons]
      omega

@[simp] theorem left_length (before after : QString) :
    (before ++ after).left (before.length : Int) = before := by
  simp [left]

@[simp] theorem left_neg_one (s : QString) : s.left (-1) = s := by simp [left]

/-- Before the first occurrence of a character there is none. -/
theorem mem_left_indexOf {s : QString} {c x : QChar} (member : x ∈ s.left (s.indexOf c)) :
    x ∈ s ∧ x ≠ c := by
  by_cases present : c ∈ s
  · obtain ⟨before, after, rfl, absent⟩ := List.eq_append_cons_of_mem present
    rw [indexOf_append_cons absent, left_length] at member
    refine ⟨List.mem_append_left _ member, ?_⟩
    rintro rfl
    exact absent member
  · rw [indexOf_of_not_mem present, left_neg_one] at member
    refine ⟨member, ?_⟩
    rintro rfl
    exact present member

@[simp] theorem mid_length_succ (before : QString) (c : QChar) (after : QString) :
    (before ++ c :: after).mid (before.length + 1) = after := by
  have split : before ++ c :: after = (before ++ [c]) ++ after := by simp
  have count : ((before.length : Int) + 1).toNat = (before ++ [c]).length := by simp
  rw [mid, split, count, List.drop_left]

end QString

/-! ## Numbers as text -/

/-- Round half to even, as formatting with a precision does. -/
def roundHalfEven (q : ℚ) : Int :=
  let low := q.floor
  if q - low < 1 / 2 then low
  else if 1 / 2 < q - low then low + 1
  else if low % 2 = 0 then low else low + 1

/-- The decimal exponent `e` of a positive rational: `10 ^ e ≤ q < 10 ^ (e + 1)`. -/
def decimalExponent (q : ℚ) : Int :=
  if 1 ≤ q then Nat.log 10 q.floor.toNat
  else -(Nat.clog 10 (q⁻¹).ceil.toNat : Int)

/-- `setNum(double)`: format `'g'` with six significant digits. -/
def QString.ofDouble (q : ℚ) : QString :=
  if q = 0 then "0"
  else
    let sign : QString := if q < 0 then "-" else ""
    let scaled := roundHalfEven (|q| * 10 ^ (5 - decimalExponent |q|))
    let (m, e) : Nat × Int :=
      if scaled = 10 ^ 6 then (10 ^ 5, decimalExponent |q| + 1)
      else (scaled.toNat, decimalExponent |q|)
    let ds := QString.ofNat m
    let significant := (ds.reverse.dropWhile (· = ('0' : QChar))).reverse
    let point (whole frac : QString) : QString :=
      if frac.isEmpty then whole else whole ++ ('.' : QChar) :: frac
    if e < -4 ∨ 6 ≤ e then
      let exponent := QString.ofNat e.natAbs
      sign ++ point (significant.take 1) (significant.drop 1) ++
        (if e < 0 then ("e-" : QString) else "e+") ++
        (if exponent.length < 2 then ('0' : QChar) :: exponent else exponent)
    else if 0 ≤ e then
      sign ++ point (ds.take (e.toNat + 1)) (significant.drop (e.toNat + 1))
    else
      sign ++ point "0" (List.replicate (-e - 1).toNat ('0' : QChar) ++ significant)

/-! ## JSON -/

inductive QJsonValue where
  | null
  | bool (b : Bool)
  | double (d : ℚ)
  | string (s : QString)
  | array (values : List QJsonValue)
  | object (members : List (QString × QJsonValue))

abbrev QJsonArray := List QJsonValue

/-- Members in key order. -/
abbrev QJsonObject := List (QString × QJsonValue)

namespace QJsonValue

/-- A value which is no string reads as the empty string. -/
def toString : QJsonValue → QString
  | .string s => s
  | _ => ""

/-- A value which is no array reads as the empty array. -/
def toArray : QJsonValue → QJsonArray
  | .array a => a
  | _ => []

def isObject : QJsonValue → Bool
  | .object _ => true
  | _ => false

end QJsonValue

namespace QJsonObject

/-- `value(key)`; `none` is the undefined value. -/
def value (o : QJsonObject) (key : QString) : Option QJsonValue := Assoc.lookup key o

def contains (o : QJsonObject) (key : QString) : Bool := (o.value key).isSome

def insert (o : QJsonObject) (key : QString) (v : QJsonValue) : QJsonObject := Assoc.insert key v o

def remove (o : QJsonObject) (key : QString) : QJsonObject := Assoc.erase key o

def keys (o : QJsonObject) : QStringList := o.map Prod.fst

/-- Inserts one after the other. -/
def build (members : List (QString × QJsonValue)) : QJsonObject :=
  members.foldl (fun o (key, v) => o.insert key v) []

/-- `value(key).toArray()`. -/
def toArray (o : QJsonObject) (key : QString) : QJsonArray :=
  (o.value key).elim [] QJsonValue.toArray

/-- `value(key).toString()`. -/
def toString (o : QJsonObject) (key : QString) : QString :=
  (o.value key).elim "" QJsonValue.toString

@[simp] theorem value_insert_self (o : QJsonObject) (key : QString) (v : QJsonValue) :
    (o.insert key v).value key = some v :=
  Assoc.lookup_insert_self key v o

@[simp] theorem value_insert_of_ne (o : QJsonObject) {key key' : QString} (h : key' ≠ key)
    (v : QJsonValue) : (o.insert key v).value key' = o.value key' :=
  Assoc.lookup_insert_of_ne h v o

@[simp] theorem value_remove_self (o : QJsonObject) (key : QString) :
    (o.remove key).value key = none :=
  Assoc.lookup_erase_self key o

@[simp] theorem value_remove_of_ne (o : QJsonObject) {key key' : QString} (h : key' ≠ key) :
    (o.remove key).value key' = o.value key' :=
  Assoc.lookup_erase_of_ne h o

theorem contains_iff {o : QJsonObject} {key : QString} : o.contains key ↔ key ∈ o.keys := by
  rw [contains, Option.isSome_iff_ne_none, value, ne_eq, Assoc.lookup_eq_none_iff]
  simp [keys]

theorem nodup_keys {o : QJsonObject} (sorted : Assoc.Sorted o) : o.keys.Nodup := by
  apply List.Nodup.of_map (f := id)
  simpa [keys, List.nodup_iff_pairwise_ne, List.pairwise_map] using
    sorted.imp fun below => below.ne

end QJsonObject

/-- `get(name)` of a node reads its JSON as a variant; `none` is the invalid one. -/
abbrev QVariant := Option QJsonValue

namespace QVariant

/-- The text of a variant; an invalid one, a list or a map has none. -/
def toString : QVariant → QString
  | some (.string s) => s
  | some (.bool b) => if b then "true" else "false"
  | some (.double d) => QString.ofDouble d
  | _ => ""

/-- The integer of a variant: doubles are rounded, text is parsed, everything
    else reads as 0. -/
def toInt : QVariant → Int
  | some (.double d) => (d + 1 / 2).floor
  | some (.string s) => s.toInt
  | some (.bool b) => if b then 1 else 0
  | _ => 0

end QVariant

example : QString.ofDouble 12 = "12" ∧ QString.ofDouble (-1) = "-1" := by decide +kernel

end VoxPopuli
